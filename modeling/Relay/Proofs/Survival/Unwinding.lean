import Relay.Proofs.Survival.Attempts

/-! Break-offs. From the moment at which a handler or a stage breaks off nothing can come in between: the break-off
    passes every stage up to the innermost one that catches it, and what that one makes of it is a failure which no
    stage tries again. The stages of the broker hand it on, and the worker drops the message. A stage of a user's own
    may make something else of it, where one further in has caught the break-off. -/

namespace Relay

/-- A stage that hands on this outcome as it is. -/
def Frame.PassesOn (o : Outcome) : Frame → Prop
  | .plain => True
  | .guard _ _ => ∀ reason, o ≠ .panicked reason
  | .retry _ _ _ _ _ => ∀ e, o = .failed e → e.retryable = false
  | .filter leave => leave o = o ∨ ∃ reason, o = .panicked reason
  | .dispatch _ _ _ => ∀ e, o = .failed e → e.retryable = true

def Frame.isGuard : Frame → Bool
  | .guard _ _ => true
  | _ => false

/-- A task writes down that a call leaves `n` stages, the last of them at place `k`. -/
def World.noteLeaving (task k : Nat) : Nat → World → World
  | 0, w => w
  | n + 1, w => noteLeaving task k n (w.note task (.left (n + k)))

/-- With these marks a task writes down that a call leaves its stages, and does nothing else. -/
structure World.Leaves (task : Nat) (marks : List Mark) (w w' : World) : Prop where
  still : ∃ journal, w' = { w with journal }
  history : ∃ new, w'.history task = w.history task ++ new ∧ new.filterMap Event.mark? = marks ∧
    ∀ e ∈ new, e.isInner = true ∧ ∀ place, e.isEntry place = false

namespace World.Leaves
variable {task : Nat} {marks marks' : List Mark} {w w₁ w₂ : World}

theorem refl (w : World) : w.Leaves task [] w :=
  ⟨⟨w.journal, rfl⟩, [], (List.append_nil _).symm, rfl, fun _ he => nomatch he⟩

theorem trans (h₁ : w.Leaves task marks w₁) (h₂ : w₁.Leaves task marks' w₂) : w.Leaves task (marks ++ marks') w₂ := by
  obtain ⟨⟨_, rfl⟩, new₁, hh₁, hm₁, hn₁⟩ := h₁
  obtain ⟨⟨journal, rfl⟩, new₂, hh₂, hm₂, hn₂⟩ := h₂
  refine ⟨⟨journal, rfl⟩, new₁ ++ new₂, by rw [hh₂, hh₁, List.append_assoc], by rw [List.filterMap_append, hm₁, hm₂],
    fun e he => ?_⟩
  exact (List.mem_append.mp he).elim (hn₁ e) (hn₂ e)

theorem note {e : Event} (hi : e.isInner = true) (he : ∀ place, e.isEntry place = false) :
    w.Leaves task e.mark?.toList (w.note task e) := by
  refine ⟨⟨_, rfl⟩, [e], w.history_note_self task e, ?_, fun e' he' => ?_⟩
  · cases h : e.mark? <;> simp [h]
  · obtain rfl := List.mem_singleton.mp he'
    exact ⟨hi, he⟩

theorem left (place : Nat) : w.Leaves task [] (w.note task (.left place)) := note (e := .left place) rfl fun _ => rfl

theorem noteLeaving {k : Nat} (n : Nat) (w : World) : w.Leaves task [] (World.noteLeaving task k n w) := by
  induction n generalizing w with
  | zero => exact refl w
  | succ n ih => exact (left _).trans (ih _)

end World.Leaves

namespace Call
variable {c : Call} {task : Nat} {w : World} {f : Frame} {outer : List Frame}

theorem step_leaving {o : Outcome} (hp : c.phase = .leaving o) (hf : c.frames = f :: outer) :
    c.step task w = c.leave task w f outer o := by
  simp only [step, hp, hf]

theorem leave_passesOn {o : Outcome} (hf : f.PassesOn o) :
    c.leave task w f outer o = (w.note task (.left outer.length), c.pop outer o) := by
  cases f with
  | plain => cases o <;> rfl
  | guard id topic =>
    cases o with
    | panicked reason => exact absurd rfl (hf reason)
    | ok | failed _ => rfl
  | filter g =>
    obtain he | ⟨reason, rfl⟩ := hf
    · cases o <;> simp only [leave, he] <;> rfl
    · rfl
  | retry _ _ _ _ _ | dispatch _ _ _ =>
    cases o with
    | failed e =>
      simp only [leave, hf e rfl]
      rfl
    | ok | panicked _ => rfl

end Call

namespace State
variable {s s' s₁ : State} {u n k : Nat} {w : Worker} {m : Message} {x : World} {c : Call}

/-! ### Steps with all others kept out -/

/-- Task `u` comes from one state to another in `n` steps, in which nobody else can move. -/
inductive Alone (u : Nat) : State → Nat → State → Prop where
  | refl {s : State} : Alone u s 0 s
  | step {s s₁ s' : State} {n : Nat} : s.active = some u → (∀ b, s.turn u b = s₁) → Alone u s₁ n s' →
      Alone u s (n + 1) s'

namespace Alone

theorem trans (h : Alone u s n s₁) (h' : Alone u s₁ k s') : Alone u s (k + n) s' := by
  induction h with
  | refl => exact h'
  | step ha ht _ ih => exact .step ha ht (ih h')

end Alone

/-- A state with worker `u` in call `c` for message `m`, and all others kept out. -/
def inCall (s : State) (u : Nat) (w : Worker) (m : Message) (x : World) (c : Call) : State :=
  { s with world := x, tasks := s.tasks.set u (.worker { w with occupation := .busy m c }), active := some u }

theorem inCall_turn (hu : u < s.tasks.length) (hc : c.outcome? = none) (hn : (c.step u x).2.atWait = false)
    (b : Branch) : (s.inCall u w m x c).turn u b = s.inCall u w m (c.step u x).1 (c.step u x).2 := by
  have ht : (s.inCall u w m x c).tasks[u]? = some (.worker { w with occupation := .busy m c }) :=
    List.getElem?_set_self hu
  have hm : (s.inCall u w m x c).micro u b = s.inCall u w m (c.step u x).1 (c.step u x).2 := by
    rw [micro, ht]
    simp only [microWorker, hc]
    simp only [inCall, setTask, List.set_set]
  have hw : (s.inCall u w m (c.step u x).1 (c.step u x).2).tasks[u]? =
      some (.worker { w with occupation := .busy m (c.step u x).2 }) := List.getElem?_set_self hu
  rw [turn, hm]
  simp only [atWait, hw, Task.atWait, hn]
  rfl

/-! ### Out of the stages -/

/-- One step of the call that is not a wait. -/
theorem inCall_steps {x' : World} {c' : Call} (hu : u < s.tasks.length) (hc : c.outcome? = none)
    (hs : c.step u x = (x', c')) (hn : c'.atWait = false) (h : Alone u (s.inCall u w m x' c') n s') :
    Alone u (s.inCall u w m x c) (n + 1) s' := by
  refine .step rfl (fun b => ?_) h
  rw [inCall_turn hu hc (by rw [hs]; exact hn), hs]

/-- One stage further out. -/
theorem inCall_leaves {f : Frame} {outer : List Frame} {o o' : Outcome} {x' : World} (hu : u < s.tasks.length)
    (hp : c.phase = .leaving o) (hf : c.frames = f :: outer) (hl : c.leave u x f outer o = (x', c.pop outer o'))
    (h : Alone u (s.inCall u w m x' (c.pop outer o')) n s') : Alone u (s.inCall u w m x c) (n + 1) s' :=
  inCall_steps hu (by simp [Call.outcome?, hp, hf]) ((Call.step_leaving hp hf).trans hl) rfl h

/-- Out of the stages that hand the outcome on. -/
theorem inCall_passes {o : Outcome} {fs outer : List Frame} (hu : u < s.tasks.length) (hp : c.phase = .leaving o)
    (hf : c.frames = fs ++ outer) (hfs : ∀ f ∈ fs, f.PassesOn o) : Alone u (s.inCall u w m x c) fs.length
      (s.inCall u w m (x.noteLeaving u outer.length fs.length) (c.pop outer o)) := by
  -- By induction on the stages, the innermost first. What each writes down makes another world, so `x` is general.
  induction fs generalizing x c with
  | nil =>
    have hself : c.pop outer o = c := by
      cases c
      cases hp
      cases hf
      rfl
    rw [hself]
    exact .refl
  | cons f fs ih =>
    have hleft : c.leave u x f (fs ++ outer) o = _ := Call.leave_passesOn (hfs f List.mem_cons_self)
    rw [List.length_append] at hleft
    exact inCall_leaves hu hp hf hleft (ih rfl rfl fun g hg => hfs g (List.mem_cons_of_mem f hg))

/-- The state after a worker has dropped a message for an error that is not worth another attempt. -/
def dropped (s : State) (u : Nat) (w : Worker) (m : Message) (x : World) (e : Error) : State :=
  { s with
    world := (x.note u (.settled w.route m (.failed e))).note u (.noticed (.messageFailed w.name w.topic m.id e))
    tasks := s.tasks.set u (.worker { w with lastError := none, occupation := .idle })
    active := none }

/-- Worker `u` is in call `c` for message `m`, inside the retry stage, and something there has just broken off. -/
structure BreaksOff (s : State) (u : Nat) (w : Worker) (m : Message) (c : Call) (reason : Option String) : Prop where
  worker : s.tasks[u]? = some (.worker w)
  busy : w.occupation = .busy m c
  leaving : c.phase = .leaving (.panicked reason)
  inside : Broker.retryPlace < c.frames.length

/-- Attempt `k` at message `m` has broken off, and that has ended the dealing of worker `u` with it, with this
    error. -/
structure Recovered (s : State) (u : Nat) (w : Worker) (m : Message) (k : Nat) (e : Error) (s' : State) : Prop where
  error : e.retryable = false ∧ e.kind = .internal ∧ e.code = panicCode
  worker : s'.tasks = s.tasks.set u (.worker { w with lastError := none, occupation := .idle })
  router : s'.router = s.router
  /-- It was caught once, and then dropped by the worker, neither kept nor given up by any stage. -/
  written : ∃ new, s'.world.history u = s.world.history u ++ new ∧
    new.filterMap Event.mark? = [.recovered, .abandoned]
  dealt : ∃ ds d, s'.world.dealings u = ds ++ [d] ∧ d.message = m ∧ d.entries (Broker.retryPlace + 1) = k ∧
    d.events.filter Event.isEnd = [.settled w.route m (.failed e)]
  onward : ∀ sub m' rest, s'.world.exchange.subscriptions[w.subscription]? = some sub → sub.queue = m' :: rest →
    ∀ b, s'.Allows (.turn u b) ∧ ∃ w' c', (s'.turn u b).tasks[u]? = some (.worker w') ∧ w'.occupation = .busy m' c'

end State

/-- A call that has come to the retry stage of its broker will find a stage that catches break-offs. -/
theorem Broker.Within.guarded {tok : Token} {fs : List Frame} (h : Within tok fs) :
    ∃ inner id topic outer, fs = inner ++ .guard id topic :: outer ∧ ∀ f ∈ inner, f.isGuard = false := by
  induction h with
  | @deeper f fs _ ih =>
    obtain ⟨inner, id, topic, outer, rfl, hinner⟩ := ih
    by_cases hf : f.isGuard = true
    · cases f with
      | guard id' topic' => exact ⟨[], id', topic', _, rfl, List.forall_mem_nil _⟩
      | plain | retry _ _ _ _ _ | filter _ | dispatch _ _ _ => cases hf
    · exact ⟨f :: inner, id, topic, outer, rfl, List.forall_mem_cons.mpr ⟨by simpa using hf, hinner⟩⟩
  | @retry policy _ attempt ctx m rest _ _ _ ha =>
    cases ha with
    | @restored id topic _ _ =>
      exact ⟨[.retry policy attempt ctx m rest, .plain, .plain], id, topic, [], rfl, by simp [Frame.isGuard]⟩

namespace State
variable {s s' : State} {u : Nat} {w : Worker} {m : Message} {c : Call} {reason : Option String}

/-- A worker that has dropped a message takes the next one. -/
theorem dropped_onward {x : World} {e : Error} {sub : Subscription} {m' : Message} {rest : List Message}
    (hx : x.Open) (hu : u < s.tasks.length) (hsub : x.exchange.subscriptions[w.subscription]? = some sub)
    (hq : sub.queue = m' :: rest) (b : Branch) : (s.dropped u w m x e).Allows (.turn u b) ∧
      ∃ w' c', ((s.dropped u w m x e).turn u b).tasks[u]? = some (.worker w') ∧ w'.occupation = .busy m' c' := by
  have hw : (s.dropped u w m x e).tasks[u]? = some (.worker { w with lastError := none, occupation := .idle }) :=
    List.getElem?_set_self hu
  have hended : x.exchange.hasEnded x.tokens sub = false := by rw [Exchange.hasEnded, hx.exchange, hx.tokens]; rfl
  obtain ⟨active, hturn⟩ := turn_worker b hw (microWorker_takes (s := s.dropped u w m x e) u rfl hsub hended hq)
  replace hturn : (s.dropped u w m x e).turn u b = _ := hturn
  refine ⟨.inl rfl, { w with
    lastError := none, occupation := .busy m' (.start w.route w.stages w.handler w.context m') }, _, ?_, rfl⟩
  rw [hturn]
  exact set_append_self hw

theorem BreaksOff.within (hb : s.BreaksOff u w m c reason) (hw : w.Calm) : Broker.Within w.context.token c.frames := by
  cases hw.held m c hb.busy with
  | inside h _ => exact h
  | entering hp _ _ =>
    rw [hb.leaving] at hp
    cases hp
  | leaving _ ha _ => exact absurd hb.inside (Nat.not_lt_of_le ha.length_le)

/-- What the dealing shows when the worker has dropped the message. -/
theorem BreaksOff.dropped {x : World} {e : Error} (hb : s.BreaksOff u w m c reason) (hp : s.Peace) (ht : s.Trying)
    (he : e.retryable = false ∧ e.kind = .internal ∧ e.code = panicCode) (hx : s.world.Leaves u [.recovered] x) :
    ∃ k, Broker.attempt? c.frames = some k ∧ s.Recovered u w m k e (s.dropped u w m x e) := by
  have hu := (List.getElem?_eq_some_iff.mp hb.worker).1
  obtain ⟨⟨journal, rfl⟩, new, hh, hmarks, hinner⟩ := hx
  obtain ⟨-, done, d, hds, htells⟩ := ht u w hb.worker m c hb.busy
  have hk : Broker.attempt? c.frames = some (d.entries (Broker.retryPlace + 1)) := by
    cases htells.tried with
    | tried _ ha => exact ha
    | before hp _ _ | trying hp _ _ | unread hp _ _ =>
      rw [hb.leaving] at hp
      cases hp
    | after _ hl => exact absurd hb.inside (Nat.not_lt_of_le hl)
  have hhistory : (s.dropped u w m { s.world with journal } e).world.history u = s.world.history u ++
      (new ++ [.settled w.route m (.failed e), .noticed (.messageFailed w.name w.topic m.id e)]) := by
    rw [State.dropped, World.history_note_self, World.history_note_self, hh]
    simp
  have hopen : World.Open { s.world with journal } := hp.world.of_eq rfl
  refine ⟨_, hk, he, rfl, rfl, ⟨_, hhistory, ?_⟩,
    ⟨done, _, World.dealings_append hhistory ?_ hds, htells.message, ?_, ?_⟩,
    fun sub m' rest hsub hq b => dropped_onward hopen hu hsub hq b⟩
  · rw [List.filterMap_append, hmarks]
    rfl
  · intro e he
    rcases List.mem_append.mp he with he | he
    · exact Event.taken?_of_isInner (hinner e he).1
    · exact Ending.failed.taken? e he
  · rw [Dealing.entries_andThen, List.countP_append, List.countP_eq_zero.mpr fun e he => by simp [(hinner e he).2]]
    rfl
  · rw [Dealing.andThen, List.filter_append, List.filter_append,
      List.filter_eq_nil_iff.mpr (List.countP_eq_zero.mp htells.unfinished),
      List.filter_eq_nil_iff.mpr fun e he => by simp [Event.isEnd_of_isInner (hinner e he).1]]
    rfl

theorem Untroubled.trying (hs : s.Untroubled) (ht : s.Trying) (h : Runs Op.Peaceful s s')
    (hl : s'.router.lifecycle ≠ .closed) : s'.Trying := by
  induction h with
  | refl => exact ht
  | step hrun hk ha ih =>
    have hs' := hs.runs hrun
    have hl' := fun hclosed => hl ((apply_step ha).closed hs'.course hclosed)
    exact Trying.step (ih hl') (hs'.peace hl') (apply_step ha)

end State
end Relay
