import Relay.Proofs.Retry.Loop
import Relay.Proofs.Router.Frames

/-! A message in a retry loop, in a system where time passes and tokens are cancelled, at any time and in any way.
    Alarms and whatever else goes on aside leave the loop where it is, but that its context may be cancelled; so what
    is known of a call in the loop stays true all the time (`RetryLoop.Holds.replay`). -/

namespace Relay

def Task.IsAlarm (k : Task) : Prop := ∃ timer token rung, k = .alarm timer token rung

namespace State
variable {s : State} {o : Op} {t : Nat}

/-- What may be done around a loop: time passes, tokens are made and cancelled, and tasks are served. -/
def Op.OfTime : Op → Prop
  | .token | .derive _ | .cancel _ | .alarm .. | .tick _ | .turn .. => True
  | _ => False

instance Op.decidableOfTime : (o : Op) → Decidable o.OfTime
  | .token | .derive _ | .cancel _ | .alarm .. | .tick _ | .turn .. => .isTrue trivial
  | .addStage _ | .addRoutes _ | .addHandlers .. | .run _ | .close | .awaitStart | .abandon _ | .publish .. | .send ..
  | .call .. | .subscribe .. | .poll _ | .drop _ | .closeExchange => .isFalse id

/-- There is nothing but alarms around a task. -/
def Around (s : State) (t : Nat) : Prop := ∀ u k, s.tasks[u]? = some k → u ≠ t → k.IsAlarm

/-- What a step aside from a task leaves of a system with nothing but alarms around the task. -/
structure Aside (s : State) (t : Nat) (s' : State) : Prop where
  free : s.active = none
  task : s'.tasks[t]? = s.tasks[t]?
  around : s'.Around t
  active : s'.active = none
  counters : s'.world.counters = s.world.counters
  calls : s'.world.calls = s.world.calls
  journal : s'.world.journal = s.world.journal
  clock : s'.world.clock = s.world.clock ∨
    s.isSettled = true ∧ s.world.clock ≤ s'.world.clock ∧ ∀ timer ∈ s.timers, s'.world.clock ≤ timer.due

/-- An alarm rings, or nothing happens. -/
theorem turn_aside {u : Nat} {b : Branch} (hk : ∀ k, s.tasks[u]? = some k → k.IsAlarm) :
    s.turn u b = { s with active := none } ∨ ∃ timer token,
      s.turn u b = { s with world := s.world.cancel token, tasks := s.tasks.set u (.alarm timer token true), active := none } := by
  unfold turn
  cases hu : s.tasks[u]? with
  | none =>
    left
    simp [micro, atWait, hu]
  | some k =>
    obtain ⟨timer, token, rung, rfl⟩ := hk k hu
    have hl := (List.getElem?_eq_some_iff.mp hu).1
    simp only [micro, hu]
    split
    · right
      exact ⟨timer, token, by simp [setTask, atWait, hl, Task.atWait]⟩
    · left
      simp [atWait, hu, Task.atWait]

theorem aside_of_time (hs : s.Around t) (ht : t < s.tasks.length) (hactive : s.active = none ∨ s.active = some t)
    (ha : s.Allows o) (hk : o.OfTime) (hn : ∀ b, o ≠ .turn t b) : s.Aside t (s.apply o) := by
  cases o with
  | token | derive _ | cancel _ => exact ⟨ha, rfl, hs, ha, rfl, rfl, rfl, .inl rfl⟩
  | alarm ms token =>
    refine ⟨ha, List.getElem?_append_left ht, fun u k hu hne => ?_, ha, rfl, rfl, rfl, .inl rfl⟩
    replace hu : (s.tasks ++ [Task.alarm (s.world.setTimer ms).1 token false])[u]? = some k := hu
    rw [List.getElem?_append] at hu
    split at hu
    · exact hs u k hu hne
    · exact ⟨_, _, _, List.mem_singleton.mp (List.mem_of_getElem? hu)⟩
  | tick ms => exact ⟨ha.1, rfl, hs, ha.1, rfl, rfl, rfl, .inr ⟨ha.2.1, Nat.le_add_right _ _, ha.2.2⟩⟩
  | turn u b =>
    have hu : u ≠ t := fun h => hn b (h ▸ rfl)
    have hfree : s.active = none := by
      rcases ha with hnone | hsome
      · exact hnone
      · rcases hactive with hnone | ht
        · exact hnone
        · rw [hsome] at ht
          cases ht
          exact absurd rfl hu
    rcases turn_aside (b := b) fun k hk => hs u k hk hu with h | ⟨timer, token, h⟩
    · show s.Aside t (s.turn u b)
      rw [h]
      exact ⟨hfree, rfl, hs, rfl, rfl, rfl, rfl, .inl rfl⟩
    · show s.Aside t (s.turn u b)
      rw [h]
      refine ⟨hfree, List.getElem?_set_ne hu, fun v k hv hne => ?_, rfl, rfl, rfl, rfl, .inl rfl⟩
      replace hv : (s.tasks.set u (.alarm timer token true))[v]? = some k := hv
      rw [List.getElem?_set] at hv
      split at hv
      · split at hv <;> cases hv
        exact ⟨_, _, _, rfl⟩
      · exact hs v k hv hne
  | _ => exact hk.elim

theorem turn_call {c : Call} {b : Branch} (ht : s.tasks[t]? = some (.call c)) :
    s.turn t b = { s with
      world := (c.step t s.world).1
      tasks := s.tasks.set t (.call (c.step t s.world).2)
      active := if (c.step t s.world).2.atWait || (c.step t s.world).2.outcome?.isSome then none else some t } := by
  have hl := (List.getElem?_eq_some_iff.mp ht).1
  have hm : s.micro t b = { s with world := (c.step t s.world).1, tasks := s.tasks.set t (.call (c.step t s.world).2) } := by
    simp only [micro, ht, setTask]
  simp [turn, hm, atWait, hl, Task.atWait]

end State

namespace RetryLoop
variable {l : RetryLoop} {cut : Option Cut} {earlier : List Visit} {w w' : World} {c : Call} {k : Counters} {n t : Nat}

def moment (l : RetryLoop) (w : World) : Option Cut :=
  if w.isCancelled l.context then some ⟨w.clock, w.calls[0]?.getD 0 - l.before⟩ else none

/-- When the context is found cancelled for the first time, if it ever is. -/
def cutOf (l : RetryLoop) (s : State) : List State.Op → Option Cut
  | [] => l.moment s.world
  | o :: os => (l.moment s.world).or (l.cutOf (s.apply o) os)

theorem moment_or_cutOf (l : RetryLoop) (s : State) (os : List State.Op) :
    (l.moment s.world).or (l.cutOf s os) = l.cutOf s os := by
  cases os <;> cases h : l.moment s.world <;> simp [cutOf, h]

theorem At.begun {clock : Nat} (h : l.At cut clock c k n) : k.attempts = 0 ∨ ∃ j, k.attempts = j + 1 ∧ l.startOf j ≤ clock := by
  cases h with
  | begins _ => exact .inl rfl
  | calls hclock => exact .inr ⟨_, rfl, Nat.le_of_eq hclock.symm⟩
  | acts _ hclock | returns hclock => exact .inr ⟨_, rfl, hclock ▸ Nat.le_add_right _ _⟩
  | sleeps _ _ hstart _ => exact .inr ⟨_, rfl, hstart⟩
  | waits _ _ _ _ hstop _ | ended _ hstop => exact .inr ⟨_, rfl, Nat.le_trans (Nat.le_add_right _ _) hstop⟩

theorem At.startOf_le {i clock : Nat} (h : l.At cut clock c k n) (hi : i < k.attempts) : l.startOf i ≤ clock := by
  rcases h.begun with hnone | ⟨j, hj, hclock⟩
  · omega
  · exact Nat.le_trans (RetryLoop.startOf_le (by omega)) hclock

theorem Ends.or {j exhausted aborted : Nat} {o : Outcome} {x : Option Cut} (h : l.Ends cut j o exhausted aborted) :
    l.Ends (cut.or x) j o exhausted aborted := by
  cases h with
  | succeeded ho => exact .succeeded ho
  | brokeOff ho => exact .brokeOff ho
  | unretryable ho hr => exact .unretryable ho hr
  | exhausted ho hr hm => exact .exhausted ho hr hm
  | aborted ho hr hm hx ht hc => exact .aborted ho hr hm (by rw [hx]; rfl) ht hc

/-- Time passes only while the call waits for a time, and no further than to this time. -/
theorem At.later {x : Option Cut} {clock : Nat} (h : l.At cut w.clock c k n)
    (hclock : clock = w.clock ∨ c.isReady w = false ∧ w.clock ≤ clock ∧ ∀ timer, c.timer? = some timer → clock ≤ timer.due) :
    l.At (cut.or x) clock c k n := by
  rcases hclock with rfl | ⟨hready, hle, hdue⟩
  · cases h with
    | begins hc => exact .begins hc
    | calls hc => exact .calls hc
    | acts hn hc => exact .acts hn hc
    | sleeps hn hd hs hc => exact .sleeps hn hd hs hc
    | returns hc => exact .returns hc
    | waits ho hr hm hd hs hc => exact .waits ho hr hm hd hs hc
    | ended he hs => exact .ended he.or hs
  · cases h with
    | begins _ | calls _ | acts _ _ | returns _ => simp [callAt, Call.isReady, Call.outcome?] at hready
    | sleeps hn hd hs _ => exact .sleeps hn hd (Nat.le_trans hs hle) (hdue _ rfl)
    | waits ho hr hm hd hs _ => exact .waits ho hr hm hd (Nat.le_trans hs hle) (hdue _ rfl)
    | ended he hs => exact .ended he.or (Nat.le_trans hs hle)

/-- Whether the context is cancelled is known already. -/
theorem On.cut_or (h : l.On cut earlier w c k n) : cut.or (l.moment w) = cut := by
  cases hc : cut with
  | some x => rfl
  | none => simp [moment, h.cancelled, hc]

theorem On.later (h : l.On cut earlier w c k n) (hn : n = k.attempts) (hk : w'.counters = w.counters)
    (hc : w'.calls = w.calls) (hj : w'.journal = w.journal)
    (hclock : w'.clock = w.clock ∨
      c.isReady w = false ∧ w.clock ≤ w'.clock ∧ ∀ timer, c.timer? = some timer → w'.clock ≤ timer.due)
    (hstays : w.isCancelled l.context = true → w'.isCancelled l.context = true) :
    l.On (cut.or (l.moment w')) earlier w' c k n := by
  have hle : w.clock ≤ w'.clock := hclock.elim (fun h => Nat.le_of_eq h.symm) fun h => h.2.1
  have hmoment : l.moment w' = if w'.isCancelled l.context then some ⟨w'.clock, n⟩ else none := by
    simp [moment, hc, h.told.calls]
  refine ⟨h.place.later hclock, h.told.of_eq hk hc hj, fun i hi => ?_, ?_, fun x hx => ?_⟩
  · obtain ⟨hfailed, hmost, huncut⟩ := h.again i hi
    refine ⟨hfailed, hmost, fun x hx => ?_⟩
    cases hcut : cut with
    | some y =>
      rw [hcut, Option.some_or] at hx
      exact huncut x (hcut.trans hx)
    | none =>
      -- The context is cancelled now, and the next attempt has begun.
      rw [hcut, Option.none_or, hmoment] at hx
      split at hx <;> cases hx
      exact ⟨Nat.le_trans (h.place.startOf_le hi) hle, hn ▸ hi⟩
  · rw [hmoment]
    cases hcut : cut with
    | some y => exact hstays (by rw [h.cancelled, hcut]; rfl)
    | none => cases hw : w'.isCancelled l.context <;> rfl
  · cases hcut : cut with
    | some y =>
      rw [hcut, Option.some_or] at hx
      obtain ⟨htime, hcalls⟩ := h.seen x (hcut.trans hx)
      exact ⟨Nat.le_trans htime hle, hcalls⟩
    | none =>
      rw [hcut, Option.none_or, hmoment] at hx
      split at hx <;> cases hx
      exact ⟨Nat.le_refl _, Nat.le_refl _⟩

/-- A system in which there is nothing but alarms around a call in the loop. -/
structure Holds (l : RetryLoop) (t : Nat) (cut : Option Cut) (earlier : List Visit) (s : State) (c : Call) (k : Counters)
    (n : Nat) : Prop where
  on : l.On cut earlier s.world c k n
  task : s.tasks[t]? = some (.call c)
  around : s.Around t
  active : s.active = none ∨ s.active = some t ∧ c.atWait = false
  called : s.active = none → n = k.attempts

theorem Holds.step {s : State} {o : State.Op} (h : l.Holds t cut earlier s c k n) (hk : o.OfTime) (ha : s.Allows o) :
    ∃ c' k' n', l.Holds t (cut.or (l.moment (s.apply o).world)) earlier (s.apply o) c' k' n' := by
  have hl := (List.getElem?_eq_some_iff.mp h.task).1
  by_cases hn : ∃ b, o = .turn t b
  · obtain ⟨b, rfl⟩ := hn
    show ∃ c' k' n', l.Holds t (cut.or (l.moment (s.turn t b).world)) earlier (s.turn t b) c' k' n'
    obtain ⟨k', n', hon⟩ := h.on.step (t := t)
    rw [State.turn_call h.task]
    refine ⟨_, k', n', by rw [hon.cut_or]; exact hon, List.getElem?_set_self hl, fun u j hu hne => ?_, ?_, fun hfree => ?_⟩
    · rw [List.getElem?_set_ne hne.symm] at hu
      exact h.around u j hu hne
    · dsimp only
      split
      · exact .inl rfl
      · rename_i hw
        rw [Bool.or_eq_true, not_or] at hw
        exact .inr ⟨rfl, Bool.eq_false_iff.mpr hw.1⟩
    · dsimp only at hfree
      split at hfree
      · rename_i hw
        exact hon.place.called (by simpa using hw)
      · cases hfree
  · have hs := State.aside_of_time h.around hl (h.active.imp id (·.1)) ha hk fun b hb => hn ⟨b, hb⟩
    refine ⟨c, k, n, h.on.later (h.called hs.free) hs.counters hs.calls hs.journal ?_ ?_, hs.task.trans h.task, hs.around,
      .inl hs.active, fun _ => h.called hs.free⟩
    · rcases hs.clock with he | ⟨hsettled, hle, hdue⟩
      · exact .inl he
      · have hready : s.isReady t = false := by simpa using List.all_eq_true.mp hsettled t (List.mem_range.mpr hl)
        refine .inr ⟨?_, hle, fun timer ht => hdue timer (List.mem_filterMap.mpr ⟨_, List.mem_of_getElem? h.task, ht⟩)⟩
        rwa [State.isReady, h.task] at hready
    · exact (State.apply_step ha).cancelled

theorem Holds.replay {s s' : State} {os : List State.Op} (h : l.Holds t cut earlier s c k n)
    (hk : ∀ o ∈ os, State.Op.OfTime o) (hr : s.replay os = some s') :
    ∃ c' k' n', l.Holds t (cut.or (l.cutOf s os)) earlier s' c' k' n' := by
  induction os generalizing s cut c k n with
  | nil =>
    cases hr
    exact ⟨c, k, n, by rw [cutOf, h.on.cut_or]; exact h⟩
  | cons o os ih =>
    rw [State.replay] at hr
    split at hr
    · rename_i ha
      obtain ⟨c₁, k₁, n₁, h₁⟩ := h.step (hk o List.mem_cons_self) ha
      have hrest := ih h₁ (fun o' ho => hk o' (List.mem_cons_of_mem _ ho)) hr
      rw [Option.or_assoc, moment_or_cutOf] at hrest
      rwa [cutOf, ← Option.or_assoc, h.on.cut_or]
    · cases hr

/-- A system that the loop begins in, with nothing but alarms in it. -/
structure Begins (l : RetryLoop) (d : Draft) (s : State) : Prop where
  active : s.active = none
  alarms : ∀ k ∈ s.tasks, k.IsAlarm
  message : (s.world.fulfilOne d).1 = l.message
  clock : s.world.clock = l.start
  calls : s.world.calls[0]? = some l.before
  counters : s.world.counters[0]? = some l.counted

def put (l : RetryLoop) (d : Draft) (s : State) : State := s.apply (.call [.retry l.policy] l.handler l.context d)

theorem Begins.holds {s : State} {d : Draft} (h : l.Begins d s) :
    l.Holds s.tasks.length (l.moment (l.put d s).world) s.world.visits (l.put d s)
      (l.callAt [] (.entering [.retry l.policy] l.context l.message)) {} 0 := by
  obtain ⟨used, hw⟩ := s.world.fulfilOne_eq d
  have hput : l.put d s = { s with world := { s.world with ids := { s.world.ids with used } } }.spawn
      (.call (l.callAt [] (.entering [.retry l.policy] l.context l.message))) := by
    rw [← h.message, ← hw]
    rfl
  rw [hput]
  refine ⟨⟨.begins h.clock, ⟨h.counters, h.calls, rfl⟩, (fun i hi => by cases hi), ?_, fun x hx => ?_⟩,
    List.getElem?_concat_length, fun u k hu hne => ?_, .inl h.active, fun _ => rfl⟩
  · unfold moment
    split
    · assumption
    · exact Bool.eq_false_iff.mpr ‹_›
  · unfold moment at hx
    split at hx <;> cases hx
    exact ⟨Nat.le_refl _, by simp [State.spawn, h.calls]⟩
  · replace hu : (s.tasks ++ [.call (l.callAt [] (.entering [.retry l.policy] l.context l.message))])[u]? = some k := hu
    rw [List.getElem?_append] at hu
    split at hu
    · exact h.alarms k (List.mem_of_getElem? hu)
    · have := (List.getElem?_eq_some_iff.mp hu).1
      simp at this
      omega

end RetryLoop
end Relay
