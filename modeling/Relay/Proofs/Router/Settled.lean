import Relay.Proofs.Router.Frames

/-! States in which nothing can move. There a worker has ended, waits for a message, is in its handler,
    or waits for the next attempt; if no handler is at work and no timer is set, only the first two
    are left. -/

namespace Relay

/-- The invocation of the handler that a call is in: how often the handler had been called before. -/
def Call.invocation? (c : Call) : Option Nat :=
  match c.phase with
  | .acting n .. | .asleep _ n .. | .awaiting n .. | .sending _ _ _ n .. => some n
  | _ => none

/-- The message that a worker is dealing with. -/
def Occupation.message? : Occupation → Option Message
  | busy m _ => some m
  | _ => none

/-- A call that waits for its next attempt, and neither is it time nor is the context cancelled. -/
def Call.BacksOff (c : Call) (x : World) : Prop :=
  ∃ timer e, c.phase = .backoff timer e ∧ x.isDue timer = false ∧
    ∀ policy attempt ctx m rest outer, c.frames = .retry policy attempt ctx m rest :: outer → x.isCancelled ctx = false

namespace Call
variable {c : Call} {x : World}

/-- A call that cannot move has ended, or is in its handler, or waits for its next attempt. -/
theorem stuck (h : c.isReady x = false) : c.outcome?.isSome ∨ (∃ n, c.invocation? = some n) ∨ c.BacksOff x := by
  unfold isReady at h
  cases hp : c.phase with
  | entering rest ctx m => simp [hp, outcome?] at h
  | acting n p ctx => exact .inr (.inl ⟨n, by rw [invocation?, hp]⟩)
  | asleep t n p ctx => exact .inr (.inl ⟨n, by rw [invocation?, hp]⟩)
  | awaiting n p ctx => exact .inr (.inl ⟨n, by rw [invocation?, hp]⟩)
  | sending port pub wrap n p ctx => exact .inr (.inl ⟨n, by rw [invocation?, hp]⟩)
  | backoff timer e =>
    rw [hp] at h
    dsimp only at h
    rw [Bool.or_eq_false_iff] at h
    refine .inr (.inr ⟨timer, e, hp, h.1, fun policy attempt ctx m rest outer hf => ?_⟩)
    have := h.2
    rw [hf] at this
    exact this
  | leaving o =>
    rw [hp] at h
    exact .inl (by simpa using h)

end Call

namespace State
variable {s : State} {t : Nat}

theorem not_ready_of_settled (h : s.isSettled = true) {k : Task} (hk : s.tasks[t]? = some k) : k.isReady s = false := by
  have ht := (List.getElem?_eq_some_iff.mp hk).1
  have := List.all_eq_true.mp h t (List.mem_range.mpr ht)
  simpa [isReady, hk] using this

/-- What the workers of a state in which nothing can move are doing. -/
theorem settled_worker (h : s.isSettled = true) {w : Worker} (hw : s.tasks[t]? = some (.worker w)) :
    (∃ f, w.occupation = .ended f) ∨
      (w.occupation = .idle ∧ s.world.exchange.isReadable s.world.tokens w.subscription = false) ∨
      ∃ m c, w.occupation = .busy m c ∧ ((∃ n, c.invocation? = some n) ∨ c.BacksOff s.world) := by
  have hr := not_ready_of_settled h hw
  dsimp only [Task.isReady] at hr
  cases ho : w.occupation with
  | ended f => exact .inl ⟨f, rfl⟩
  | idle =>
    rw [ho] at hr
    exact .inr (.inl ⟨rfl, hr⟩)
  | busy m c =>
    rw [ho] at hr
    dsimp only at hr
    rw [Bool.or_eq_false_iff] at hr
    refine .inr (.inr ⟨m, c, rfl, ?_⟩)
    rcases Call.stuck hr.2 with hs | hs
    · rw [hr.1] at hs
      cases hs
    · exact hs

/-- Nothing can move, no timer is set, and no handler is at work. -/
structure Quiescent (s : State) : Prop where
  settled : s.isSettled = true
  timers : s.timers = []
  handlers : ∀ (t : Nat) (w : Worker) (m : Message) (c : Call), s.tasks[t]? = some (.worker w) →
    w.occupation = .busy m c → c.invocation? = none

theorem Quiescent.worker (h : s.Quiescent) {w : Worker} (hw : s.tasks[t]? = some (.worker w)) :
    (∃ f, w.occupation = .ended f) ∨
      w.occupation = .idle ∧ s.world.exchange.isReadable s.world.tokens w.subscription = false := by
  rcases settled_worker h.settled hw with he | hi | ⟨m, c, ho, ⟨n, hc⟩ | ⟨timer, e, hp, -⟩⟩
  · exact .inl he
  · exact .inr hi
  · rw [h.handlers t w m c hw ho] at hc
    cases hc
  · -- A wait for the next attempt has a timer.
    have hm : timer ∈ s.timers := List.mem_filterMap.mpr
      ⟨_, List.mem_of_getElem? hw, by simp [Task.timer?, ho, Call.timer?, hp]⟩
    rw [h.timers] at hm
    cases hm

end State
end Relay
