import Relay.Proofs.Isolation.Identifiers
import Relay.Proofs.Retry.Backoff
import Relay.Proofs.Retry.Runs
import Mathlib.Data.Finset.Max
import Mathlib.Data.List.Count

/-! How a retry loop ends, and that it does. A number of turns is left to it at any time, each of them makes the
    number smaller, and where none can be taken it is time that has to pass (`RetryLoop.takes_course`). -/

namespace Relay

/-- How often a program sleeps before it does anything else. -/
def Program.sleeps : Program → Nat
  | .sleep _ next => next.sleeps + 1
  | _ => 0

@[simp] theorem sleeps_napping (naps : List Nat) (o : Outcome) : (napping naps o).sleeps = naps.length := by
  induction naps with
  | nil => rfl
  | cons ms naps ih => simpa [napping, Program.sleeps] using ih

theorem Call.isReady_of_not_atWait {c : Call} {w : World} (hw : c.atWait = false) (ho : c.outcome? = none) :
    c.isReady w = true := by
  unfold atWait at hw
  unfold isReady
  cases hp : c.phase with
  | entering _ _ _ | acting _ _ _ | leaving _ => simp [ho]
  | asleep _ _ _ _ | awaiting _ _ _ | sending _ _ _ _ _ _ | backoff _ _ => simp [hp] at hw

theorem Call.isReady_of_due {c : Call} {w : World} {timer : Timer} (ht : c.timer? = some timer) (hd : w.isDue timer = true) :
    c.isReady w = true := by
  unfold timer? at ht
  unfold isReady
  split at ht <;> rename_i hp <;> cases ht <;> simp [hp, hd]

theorem Task.isReady_of_due {k : Task} {s : State} {timer : Timer} (ht : k.timer? = some timer)
    (hd : s.world.isDue timer = true) : k.isReady s = true := by
  unfold timer? at ht
  split at ht
  · rename_i w
    split at ht
    · rename_i ho
      simp [isReady, ho, Call.isReady_of_due ht hd]
    · cases ht
  · exact Call.isReady_of_due ht hd
  · simp [isReady, Call.isReady_of_due ht hd]
  · cases ht
    simp [isReady, hd]
  · cases ht

namespace RetryLoop
variable {l : RetryLoop} {cut : Option Cut} {earlier : List Visit} {w : World} {c : Call} {k : Counters} {n t j : Nat}

/-- A call that neither can go on nor has ended waits for a time, at most until the last wait would be over. -/
theorem On.timer (h : l.On cut earlier w c k n) (hr : c.isReady w = false) (ho : c.outcome? = none) :
    ∃ timer, c.timer? = some timer ∧ timer.due ≤ l.startOf l.most := by
  obtain ⟨hat, -, hagain, -, -⟩ := h
  cases hat with
  | begins _ | calls _ | acts _ _ | returns _ => simp [callAt, Call.isReady, Call.outcome?] at hr
  | @sleeps j slept naps timer hnaps hdue _ _ =>
    refine ⟨timer, rfl, ?_⟩
    have hspan := span_append_le slept naps
    have hnext : l.startOf (j + 1) ≤ l.startOf l.most := startOf_le ((lt_or_eq_most hagain).elim Nat.le_of_lt Nat.le_of_eq)
    rw [startOf_succ, stopOf, hnaps] at hnext
    omega
  | waits _ _ hm hdue _ _ => exact ⟨_, rfl, hdue ▸ startOf_le (Nat.le_of_lt hm)⟩
  | ended _ _ => simp [callAt, Call.outcome?] at ho

/-- How many turns an attempt takes at most, with the wait after it. -/
def turnsOf (l : RetryLoop) (j : Nat) : Nat := 2 * (l.attempt j).naps.length + 4

/-- How many turns all attempts take at most, from this one on. -/
def turnsFrom (l : RetryLoop) (j : Nat) : Nat := (((List.range l.most).drop j).map l.turnsOf).sum

theorem turnsFrom_eq (h : j < l.most) : l.turnsFrom j = l.turnsOf j + l.turnsFrom (j + 1) := by
  rw [turnsFrom, List.drop_eq_getElem_cons (by simpa using h)]
  simp [turnsFrom]

/-- How many turns a call takes at most until it has ended. -/
def rank (l : RetryLoop) (c : Call) : Nat :=
  match c.frames, c.phase with
  | [], .entering .. => l.turnsFrom 0 + 1
  | .retry _ a _ _ _ :: _, .entering .. => l.turnsFrom a + 2 * (l.attempt (a - 1)).naps.length + 4
  | .retry _ a _ _ _ :: _, .acting _ p _ => l.turnsFrom a + 2 * p.sleeps + 3
  | .retry _ a _ _ _ :: _, .asleep _ _ p _ => l.turnsFrom a + 2 * p.sleeps + 4
  | .retry _ a _ _ _ :: _, .leaving _ => l.turnsFrom a + 2
  | .retry _ a _ _ _ :: _, .backoff .. => l.turnsFrom a + 1
  | _, _ => 0

/-- Each turn that can be taken brings the end nearer. -/
theorem On.rank_lt (h : l.On cut earlier w c k n) (hr : c.isReady w = true) : l.rank (c.step t w).2 < l.rank c := by
  obtain ⟨hat, htold, hagain, hcancelled, hseen⟩ := id h
  cases hat with
  | begins hclock =>
    have hfirst : 0 < l.most := by
      unfold most
      omega
    have hturns := turnsFrom_eq hfirst
    rw [turnsOf] at hturns
    show l.turnsFrom (0 + 1) + 2 * (l.attempt 0).naps.length + 4 < l.turnsFrom 0 + 1
    omega
  | calls hclock =>
    rw [step_calls htold.calls]
    simp [rank, callAt, frame, attempt]
  | @acts j slept naps hnaps hclock =>
    cases naps with
    | nil =>
      obtain ⟨w', hstep, -⟩ := l.step_finished j (l.before + j) t w (l.attempt j).outcome
      rw [napping, List.foldr_nil, hstep]
      simp [rank, callAt, frame, Program.sleeps]
    | cons ms naps =>
      rw [napping, List.foldr_cons, step_sleeps]
      simp only [rank, callAt, frame, Program.sleeps]
      omega
  | @sleeps j slept naps timer hnaps hdue hstart hclock =>
    have hd : w.isDue timer = true := hr
    rw [step_asleep, if_pos hd]
    simp [rank, callAt, frame]
  | @returns j hclock =>
    cases ho : (l.attempt j).outcome with
    | ok | panicked reason => simp [rank, callAt, frame, Call.step, Call.leave]
    | failed e =>
      cases hretry : e.retryable with
      | false =>
        rw [step_unretryable hretry]
        simp [rank, callAt, frame]
      | true =>
        rcases lt_or_eq_most hagain with hm | hm
        · rw [step_backsOff hretry hm]
          simp [rank, callAt, frame]
        · rw [step_exhausted hretry hm]
          simp [rank, callAt, frame]
  | @waits j timer e ho hretry hm hdue hstop hclock =>
    cases hc : w.isCancelled l.context with
    | true =>
      rw [step_aborted hc]
      simp [rank, callAt, frame]
    | false =>
      have hd : w.isDue timer = true := by simpa [callAt, frame, Call.isReady, hc] using hr
      have hturns := turnsFrom_eq hm
      rw [turnsOf] at hturns
      rw [step_retried hc hd]
      show l.turnsFrom (j + 1 + 1) + 2 * (l.attempt (j + 1)).naps.length + 4 < l.turnsFrom (j + 1) + 1
      omega
  | ended hends hstop => simp [callAt, Call.isReady, Call.outcome?] at hr

end RetryLoop

def Task.isSet : Task → Bool
  | .alarm _ _ rung => !rung
  | _ => false

namespace State
variable {s : State} {t : Nat}

def unrung (s : State) : Nat := s.tasks.countP Task.isSet

theorem countP_set_lt {tasks : List Task} {k k' : Task} (h : tasks[t]? = some k) (hk : k.isSet = true)
    (hk' : k'.isSet = false) : (tasks.set t k').countP Task.isSet < tasks.countP Task.isSet := by
  obtain ⟨hl, rfl⟩ := List.getElem?_eq_some_iff.mp h
  rw [List.countP_set hl, hk, hk']
  have : 0 < tasks.countP Task.isSet := List.countP_pos_iff.mpr ⟨_, List.getElem_mem hl, hk⟩
  simpa using this

theorem countP_set_eq {tasks : List Task} {k k' : Task} (h : tasks[t]? = some k) (hk : k.isSet = false)
    (hk' : k'.isSet = false) : (tasks.set t k').countP Task.isSet = tasks.countP Task.isSet := by
  obtain ⟨hl, rfl⟩ := List.getElem?_eq_some_iff.mp h
  rw [List.countP_set hl, hk, hk']
  simp

theorem turn_rings {timer : Timer} {token : Token} {rung : Bool} {b : Branch} (hk : s.tasks[t]? = some (.alarm timer token rung))
    (hr : s.isReady t = true) : (s.turn t b).unrung < s.unrung := by
  have hl := (List.getElem?_eq_some_iff.mp hk).1
  have hrings : (!rung && s.world.isDue timer) = true := by rwa [isReady, hk] at hr
  have hturn : (s.turn t b).tasks = s.tasks.set t (.alarm timer token true) := by
    simp only [turn, micro, hk, hrings, if_true]
    rfl
  rw [unrung, unrung, hturn]
  rw [Bool.and_eq_true] at hrings
  exact countP_set_lt hk hrings.1 rfl

end State

namespace RetryLoop
variable {l : RetryLoop} {cut : Option Cut} {earlier : List Visit} {s : State} {c : Call} {k : Counters} {n t : Nat}

/-- A system in which there is less left to do for a call in the loop and the alarms around it. -/
def Nearer (l : RetryLoop) (t : Nat) (earlier : List Visit) (s : State) (c : Call) : Prop :=
  ∃ os s', (∀ o ∈ os, State.Op.OfTime o) ∧ s.replay os = some s' ∧
    ∃ cut' c' k' n', l.Holds t cut' earlier s' c' k' n' ∧ l.rank c' + s'.unrung < l.rank c + s.unrung

/-- A turn brings the call nearer to its end, or an alarm rings. -/
theorem Holds.turn_lt {u : Nat} {b : Branch} (h : l.Holds t cut earlier s c k n) (hu : s.isReady u = true)
    (ha : s.active = none ∨ s.active = some u) : ∃ c', (s.turn u b).tasks[t]? = some (.call c') ∧
      l.rank c' + (s.turn u b).unrung < l.rank c + s.unrung := by
  have hl := (List.getElem?_eq_some_iff.mp h.task).1
  by_cases hn : u = t
  · subst hn
    have hrank : l.rank (c.step u s.world).2 < l.rank c := h.on.rank_lt (by rwa [State.isReady, h.task] at hu)
    have hunrung : (s.turn u b).unrung = s.unrung := by
      rw [State.turn_call h.task]
      exact State.countP_set_eq h.task rfl rfl
    refine ⟨(c.step u s.world).2, ?_, by omega⟩
    rw [State.turn_call h.task]
    exact List.getElem?_set_self hl
  · obtain ⟨x, hx⟩ : ∃ x, s.tasks[u]? = some x := by
      cases hx : s.tasks[u]? with
      | none => simp [State.isReady, hx] at hu
      | some x => exact ⟨x, rfl⟩
    obtain ⟨timer, token, rung, rfl⟩ := h.around u x hx hn
    have hs : s.Aside t (s.turn u b) :=
      State.aside_of_time (o := .turn u b) h.around hl (h.active.imp id (·.1)) ha trivial fun b hb => hn (by cases hb; rfl)
    have hunrung := State.turn_rings (b := b) hx hu
    exact ⟨c, hs.task.trans h.task, by omega⟩

theorem Holds.serve (h : l.Holds t cut earlier s c k n) {u : Nat} (hu : s.isReady u = true)
    (ha : s.active = none ∨ s.active = some u) : l.Nearer t earlier s c := by
  refine ⟨[.turn u .shutdown], s.turn u .shutdown, by simp [State.Op.OfTime], ?_, ?_⟩
  · simp [State.replay, State.Allows, ha, State.apply]
  · obtain ⟨c', k', n', h'⟩ := h.step (o := .turn u .shutdown) trivial ha
    obtain ⟨c'', htask, hlt⟩ := h.turn_lt (b := .shutdown) hu ha
    obtain rfl : c'' = c' := by simpa using htask.symm.trans h'.task
    exact ⟨_, c'', k', n', h', hlt⟩

/-- Where nobody can go on, the time passes until somebody can. -/
theorem Holds.waitOut (h : l.Holds t cut earlier s c k n) (hfree : s.active = none) (hs : ∀ u, s.isReady u = false)
    (ho : c.outcome? = none) : l.Nearer t earlier s c := by
  obtain ⟨timer, htimer, -⟩ := h.on.timer (by simpa [State.isReady, h.task, Task.isReady] using hs t) ho
  have hmem : timer ∈ s.timers := List.mem_filterMap.mpr ⟨_, List.mem_of_getElem? h.task, htimer⟩
  obtain ⟨first, hfirst, hmin⟩ := Finset.exists_min_image s.timers.toFinset (·.due) ⟨timer, List.mem_toFinset.mpr hmem⟩
  obtain ⟨x, hx, hxt⟩ := List.mem_filterMap.mp (List.mem_toFinset.mp hfirst)
  obtain ⟨u, hu⟩ := List.mem_iff_getElem?.mp hx
  have hlate : s.world.clock < first.due := by
    refine Nat.lt_of_not_le fun hle => ?_
    have hready := Task.isReady_of_due (s := s) hxt (by simpa [World.isDue] using hle)
    have hnot := hs u
    simp [State.isReady, hu, hready] at hnot
  have ha : s.Allows (.tick (first.due - s.world.clock)) := by
    refine ⟨hfree, by simp [State.isSettled, hs], fun other hother => ?_⟩
    have := hmin other (List.mem_toFinset.mpr hother)
    omega
  obtain ⟨c₁, k₁, n₁, h₁⟩ := h.step (o := .tick (first.due - s.world.clock)) trivial ha
  obtain rfl : c₁ = c := by
    have htask := h₁.task
    rw [show (s.apply (.tick _)).tasks[t]? = some (.call c) from h.task] at htask
    cases htask
    rfl
  have hnow : (s.apply (.tick (first.due - s.world.clock))).isReady u = true := by
    rw [State.isReady, show (s.apply (.tick _)).tasks[u]? = some x from hu]
    refine Task.isReady_of_due hxt ?_
    show decide (first.due ≤ s.world.clock + (first.due - s.world.clock)) = true
    rw [decide_eq_true_eq]
    omega
  obtain ⟨os, s', hos, hr, hnearer⟩ := h₁.serve hnow (.inl hfree)
  refine ⟨.tick (first.due - s.world.clock) :: os, s', ?_, ?_, hnearer⟩
  · intro o hmem
    rcases List.mem_cons.mp hmem with rfl | hmem
    · trivial
    · exact hos o hmem
  · rw [State.replay, if_pos ha]
    exact hr

theorem Holds.advance (h : l.Holds t cut earlier s c k n) (ho : c.outcome? = none) : l.Nearer t earlier s c := by
  rcases h.active with hfree | ⟨hactive, hwait⟩
  · by_cases hs : ∃ u, s.isReady u = true
    · obtain ⟨u, hu⟩ := hs
      exact h.serve hu (.inl hfree)
    · exact h.waitOut hfree (fun u => Bool.eq_false_iff.mpr fun hu => hs ⟨u, hu⟩) ho
  · refine h.serve (u := t) ?_ (.inr hactive)
    rw [State.isReady, h.task]
    exact Call.isReady_of_not_atWait hwait ho

theorem Holds.finishes (h : l.Holds t cut earlier s c k n) : ∃ os s', (∀ o ∈ os, State.Op.OfTime o) ∧
    s.replay os = some s' ∧ ((s'.tasks[t]?).bind Task.outcome?).isSome = true := by
  induction hm : l.rank c + s.unrung using Nat.strong_induction_on generalizing s cut c k n with
  | _ m ih =>
    cases ho : c.outcome? with
    | some o => exact ⟨[], s, by simp, rfl, by simp [h.task, Task.outcome?, ho]⟩
    | none =>
      obtain ⟨os, s₁, hos, hr, cut₁, c₁, k₁, n₁, h₁, hlt⟩ := h.advance ho
      obtain ⟨os', s', hos', hr', hend⟩ := ih _ (hm ▸ hlt) h₁ rfl
      refine ⟨os ++ os', s', fun o hmem => ?_, ?_, hend⟩
      · exact (List.mem_append.mp hmem).elim (hos o) (hos' o)
      · rw [State.replay_append hr, hr']

/-- Where nothing can move any more and the last wait would be over, the call has ended. -/
theorem Holds.over (h : l.Holds t cut earlier s c k n) (hs : s.isSettled = true) (hl : l.startOf l.most ≤ s.world.clock) :
    ((s.tasks[t]?).bind Task.outcome?).isSome = true := by
  have hlen := (List.getElem?_eq_some_iff.mp h.task).1
  have hready : c.isReady s.world = false := by
    have := List.all_eq_true.mp hs t (List.mem_range.mpr hlen)
    simpa [State.isReady, h.task, Task.isReady] using this
  cases ho : c.outcome? with
  | some o => simp [h.task, Task.outcome?, ho]
  | none =>
    obtain ⟨timer, htimer, hdue⟩ := h.on.timer hready ho
    have hd : s.world.isDue timer = true := decide_eq_true (hdue.trans hl)
    rw [Call.isReady_of_due htimer hd] at hready
    cases hready

theorem Holds.ended {o : Outcome} (h : l.Holds t cut earlier s c k n) (ho : (s.tasks[t]?).bind Task.outcome? = some o) :
    ∃ j exhausted aborted, (∀ i < j, l.Again cut i) ∧ l.Ends cut j o exhausted aborted ∧
      s.world.visits = ((List.range (j + 1)).map l.visit).reverse ++ earlier ∧
      s.world.counters[0]? = some (l.counted.plus ⟨j + 1, j, exhausted, aborted⟩) := by
  replace ho : c.outcome? = some o := by simpa [h.task, Task.outcome?] using ho
  obtain ⟨hat, htold, hagain, -, -⟩ := h.on
  cases hat with
  | begins _ | calls _ | acts _ _ | sleeps _ _ _ _ | returns _ | waits _ _ _ _ _ _ => simp [callAt, Call.outcome?] at ho
  | ended hends _ =>
    cases ho
    exact ⟨_, _, _, fun i hi => hagain i (Nat.succ_lt_succ hi), hends, htold.visits, htold.counters⟩

/-- The retry loop. Whatever a handler does in its attempts and however long each of them takes, and whenever the
    context is cancelled, if it ever is: the loop can come to an end, and it has ended when nothing moves any more and
    the last wait would be over. Then it ends with the first attempt after which there is no other one. The handler
    has been called once for each attempt up to this one, with the same context and message, at the time when the
    wait after the one before was over, and exactly this has been counted. -/
theorem takes_course {d : Draft} {s₀ : State} {os : List State.Op} (h : l.Begins d s₀) (hk : ∀ o ∈ os, State.Op.OfTime o)
    (hr : (l.put d s₀).replay os = some s) :
    let outcome? (s : State) := (s.tasks[s₀.tasks.length]?).bind Task.outcome?
    (∃ os' s', (∀ o ∈ os', State.Op.OfTime o) ∧ s.replay os' = some s' ∧ (outcome? s').isSome = true) ∧
    (s.isSettled = true → l.startOf l.most ≤ s.world.clock → (outcome? s).isSome = true) ∧
    ∀ o, outcome? s = some o → ∃ j exhausted aborted,
      (∀ i < j, l.Again (l.cutOf (l.put d s₀) os) i) ∧ l.Ends (l.cutOf (l.put d s₀) os) j o exhausted aborted ∧
      s.world.visits = ((List.range (j + 1)).map l.visit).reverse ++ s₀.world.visits ∧
      s.world.counters[0]? = some (l.counted.plus ⟨j + 1, j, exhausted, aborted⟩) := by
  intro outcome?
  obtain ⟨c, k, n, hs⟩ := h.holds.replay hk hr
  rw [moment_or_cutOf] at hs
  exact ⟨hs.finishes, hs.over, fun o => hs.ended⟩

theorem eq_some_getD {α : Type} {x : Option α} {a : α} (h : x.isSome = true) : x = some (x.getD a) := by
  cases x with
  | none => cases h
  | some _ => rfl

/-- A failure that may pass. -/
def busy : Error := .custom ⟨"busy", .internal, "BUSY", true⟩ []

/-- A handler that is busy the first two times, first after a nap. -/
def busyTwice (p : RetryPolicy) : RetryLoop where
  policy := p
  name := "copy"
  attempts n := match n with
    | 0 => ⟨[50], .failed busy⟩
    | 1 => ⟨[], .failed busy⟩
    | _ => ⟨[], .ok⟩
  context := { token := 0 }
  message := ⟨"a", "", [1], ∅⟩
  start := 0
  before := 0
  counted := {}

/-- A system with nothing in it but the counters of one stage. -/
def idle : State := { world := { World.start ⟨fun _ => .mask, 0⟩ (some 4) with counters := [{}], calls := [0] } }

/-- The context is cancelled in the wait after the second attempt. -/
def interrupting : List State.Op :=
  .token :: List.replicate 3 (.turn 0 .shutdown) ++ [.tick 50] ++ List.replicate 3 (.turn 0 .shutdown) ++ [.tick 100] ++
    List.replicate 4 (.turn 0 .shutdown) ++ [.tick 30, .cancel 0, .turn 0 .shutdown]

def interrupted : State :=
  (((busyTwice .doubling).put ⟨some "a", [1], ∅⟩ idle).replay interrupting).getD idle

theorem takes_course_of_two : (busyTwice .doubling).Begins ⟨some "a", [1], ∅⟩ idle ∧
    ((busyTwice .doubling).put ⟨some "a", [1], ∅⟩ idle).replay interrupting = some interrupted ∧
    interrupted.world.visits.map (·.time) = [150, 0] ∧ interrupted.world.counters[0]? = some ⟨2, 1, 0, 1⟩ ∧
    (busyTwice .doubling).Again (some ⟨180, 2⟩) 0 ∧
    ∃ o exhausted aborted, (busyTwice .doubling).Ends (some ⟨180, 2⟩) 1 o exhausted aborted := by
  have hb : (busyTwice .doubling).Begins ⟨some "a", [1], ∅⟩ idle := ⟨rfl, by simp [idle], rfl, rfl, rfl, rfl⟩
  have hr : ((busyTwice .doubling).put ⟨some "a", [1], ∅⟩ idle).replay interrupting = some interrupted :=
    eq_some_getD (by decide +kernel)
  have hcut : (busyTwice .doubling).cutOf ((busyTwice .doubling).put ⟨some "a", [1], ∅⟩ idle) interrupting =
      some ⟨180, 2⟩ := by decide +kernel
  obtain ⟨-, -, hended⟩ := takes_course hb (by decide) hr
  obtain ⟨o, ho⟩ := Option.isSome_iff_exists.mp
    (show (interrupted.tasks[idle.tasks.length]?.bind Task.outcome?).isSome = true by decide +kernel)
  obtain ⟨j, exhausted, aborted, hagain, hends, hvisits, -⟩ := hended o ho
  obtain rfl : j = 1 := by
    have htwo : interrupted.world.visits.length = 2 := by decide +kernel
    rw [hvisits] at htwo
    simpa [show idle.world.visits = [] from rfl] using htwo
  rw [hcut] at hagain hends
  exact ⟨hb, hr, by decide +kernel, by decide +kernel, hagain 0 Nat.one_pos, o, exhausted, aborted, hends⟩

/-- Longer waits than there are. -/
def patient : RetryPolicy := ⟨1000000000000, .ofNat 1, 1000000000000, 2⟩

def outwaiting : List State.Op :=
  .token :: List.replicate 3 (.turn 0 .shutdown) ++ [.tick 50] ++ List.replicate 3 (.turn 0 .shutdown) ++
    [.tick World.longestWait] ++ List.replicate 4 (.turn 0 .shutdown)

def outwaited : State := (((busyTwice patient).put ⟨some "a", [1], ∅⟩ idle).replay outwaiting).getD idle

/-- The second attempt begins before the wait that was computed for it is over. -/
theorem wait_cut_short : patient.validate = .ok () ∧ patient.delay 1 = 1000000000000 ∧
    (busyTwice patient).Begins ⟨some "a", [1], ∅⟩ idle ∧ (∀ o ∈ outwaiting, State.Op.OfTime o) ∧
    ((busyTwice patient).put ⟨some "a", [1], ∅⟩ idle).replay outwaiting = some outwaited ∧
    outwaited.world.visits.map (·.time) = [946080000050, 0] := by
  have hM : patient.multiplier.Is (1 : Nat) := show (Binary64.ofNat 1).Is _ from Binary64.ofNat_is (by decide)
  have hr : (((busyTwice patient).put ⟨some "a", [1], ∅⟩ idle).replay outwaiting).isSome = true := by decide +kernel
  refine ⟨rfl, ?_, ⟨rfl, by simp [idle], rfl, rfl, rfl, rfl⟩, by decide, eq_some_getD hr, by decide +kernel⟩
  exact RetryPolicy.delay_of_pos rfl hM (by decide) (by decide) (by decide)

end RetryLoop
end Relay
