import Mathlib.Algebra.GroupWithZero.Nat
import Relay.Pipeline.Call

/-! A retry stage by itself, around a handler that does what a sequence of attempts says. The sequence, the policy
    and the moment at which the context is cancelled decide when the handler is called, how the loop ends, and what
    it counts (`RetryLoop.Again`, `RetryLoop.Ends`). A call on its way through the loop is always at one of a few
    places, and each of its steps leads from one of them to the next (`RetryLoop.On.step`). -/

namespace Relay

/-- A call of a handler, as it is written down: its time, how many there were before, and what it was given. -/
structure Visit where
  time : Nat
  n : Nat
  context : Context
  input : Input

def Entry.visit? (e : Entry) : Option Visit :=
  match e.event with
  | .called _ n c _ i => some ⟨e.time, n, c, i⟩
  | _ => none

namespace World
variable {w w' : World} {t : Nat} {e : Event}

/-- The calls of handlers, the latest first. -/
def visits (w : World) : List Visit := w.journal.filterMap Entry.visit?

theorem visits_eq (h : w'.journal = w.journal) : w'.visits = w.visits := by rw [visits, visits, h]

theorem visits_note (h : Entry.visit? ⟨w.clock, t, e⟩ = none) : (w.note t e).visits = w.visits := by
  simp [visits, note, h]

theorem visits_called {name : String} {n : Nat} {c : Context} {cancelled : Bool} {i : Input} :
    (w.note t (.called name n c cancelled i)).visits = ⟨w.clock, n, c, i⟩ :: w.visits := rfl

end World

def Counters.plus (k d : Counters) : Counters :=
  ⟨k.attempts + d.attempts, k.retries + d.retries, k.exhausted + d.exhausted, k.aborted + d.aborted⟩

/-- What a handler does when it is called: it sleeps some times, and ends. -/
structure Attempt where
  naps : List Nat
  outcome : Outcome

/-- How long it takes to sleep these times. -/
def span (naps : List Nat) : Nat := (naps.map fun ms => min ms World.longestWait).sum

def napping (naps : List Nat) (o : Outcome) : Program := naps.foldr .sleep (.finish o)

theorem span_concat (naps : List Nat) (ms : Nat) : span (naps ++ [ms]) = span naps + min ms World.longestWait := by
  simp [span]

theorem span_append_le (naps naps' : List Nat) : span naps ≤ span (naps ++ naps') := by
  simp [span]

/-- When a context is cancelled, and how often the handler has been called by then. -/
structure Cut where
  time : Nat
  calls : Nat
deriving DecidableEq

/-- A retry stage with the message that comes to it, and the handler behind it. -/
structure RetryLoop where
  policy : RetryPolicy
  name : String
  /-- What the handler does, by how often it has been called before. -/
  attempts : Nat → Attempt
  context : Context
  message : Message
  /-- When the message comes, how often the handler has been called before, and what the stage has counted. -/
  start : Nat
  before : Nat
  counted : Counters

namespace RetryLoop
variable {l : RetryLoop} {cut : Option Cut} {j : Nat}

def handler (l : RetryLoop) : Handler where
  name := l.name
  reads := none
  play n _ _ := .started (napping (l.attempts n).naps (l.attempts n).outcome)

/-- The attempts for this message, counted from zero. -/
def attempt (l : RetryLoop) (j : Nat) : Attempt := l.attempts (l.before + j)

/-- How many attempts there are at most. -/
def most (l : RetryLoop) : Nat := max 1 l.policy.maxAttempts

/-- When an attempt begins, if there are as many: a wait after the one before it has ended. -/
def startOf (l : RetryLoop) : Nat → Nat
  | 0 => l.start
  | j + 1 => l.startOf j + span (l.attempt j).naps + min (l.policy.delay (j + 1)) World.longestWait

def stopOf (l : RetryLoop) (j : Nat) : Nat := l.startOf j + span (l.attempt j).naps

def visit (l : RetryLoop) (j : Nat) : Visit := ⟨l.startOf j, l.before + j, l.context, .message l.message⟩

/-- After this attempt there is another one: it has failed for a passing reason, it was not the last one, and the
    context is not cancelled until the wait is over and the handler is called again. -/
structure Again (l : RetryLoop) (cut : Option Cut) (j : Nat) : Prop where
  failed : ∃ e, (l.attempt j).outcome = .failed e ∧ e.retryable = true
  lt_most : j + 1 < l.most
  uncut : ∀ x, cut = some x → l.startOf (j + 1) ≤ x.time ∧ j + 1 < x.calls

/-- With this attempt the loop ends, like this, and it is given up, or called off, so many times. -/
inductive Ends (l : RetryLoop) (cut : Option Cut) (j : Nat) : Outcome → Nat → Nat → Prop where
  | succeeded : (l.attempt j).outcome = .ok → Ends l cut j .ok 0 0
  | brokeOff {reason : Option String} : (l.attempt j).outcome = .panicked reason →
      Ends l cut j (.panicked reason) 0 0
  | unretryable {e : Error} : (l.attempt j).outcome = .failed e → e.retryable = false → Ends l cut j (.failed e) 0 0
  | exhausted {e : Error} : (l.attempt j).outcome = .failed e → e.retryable = true → j + 1 = l.most →
      Ends l cut j .ok 1 0
  | aborted {e : Error} {x : Cut} : (l.attempt j).outcome = .failed e → e.retryable = true → j + 1 < l.most →
      cut = some x → x.time ≤ l.startOf (j + 1) → x.calls ≤ j + 1 → Ends l cut j (.failed e) 0 1

theorem startOf_succ (l : RetryLoop) (j : Nat) :
    l.startOf (j + 1) = l.stopOf j + min (l.policy.delay (j + 1)) World.longestWait := rfl

theorem startOf_le {i j : Nat} (h : i ≤ j) : l.startOf i ≤ l.startOf j := by
  induction h with
  | refl => exact Nat.le_refl _
  | step _ ih =>
    rw [startOf, Nat.add_assoc]
    exact Nat.le_trans ih (Nat.le_add_right _ _)

theorem lt_most_iff : j + 1 < l.most ↔ j + 1 ≤ l.policy.waits := by
  unfold most RetryPolicy.waits
  omega

/-! ### The places of a call -/

def frame (l : RetryLoop) (j : Nat) : Frame := .retry l.policy (j + 1) l.context l.message []

def callAt (l : RetryLoop) (frames : List Frame) (phase : Phase) : Call := ⟨0, some l.handler, frames, phase⟩

/-- Where a call is on its way through the loop, what has been counted for it, and how often it has called the
    handler. -/
inductive At (l : RetryLoop) (cut : Option Cut) (clock : Nat) : Call → Counters → Nat → Prop where
  | begins : clock = l.start → At l cut clock (l.callAt [] (.entering [.retry l.policy] l.context l.message)) {} 0
  | calls {j : Nat} : clock = l.startOf j →
      At l cut clock (l.callAt [l.frame j] (.entering [] l.context l.message)) ⟨j + 1, j, 0, 0⟩ j
  | acts {j : Nat} {slept naps : List Nat} : (l.attempt j).naps = slept ++ naps → clock = l.startOf j + span slept →
      At l cut clock (l.callAt [l.frame j] (.acting (l.before + j) (napping naps (l.attempt j).outcome) l.context))
        ⟨j + 1, j, 0, 0⟩ (j + 1)
  | sleeps {j : Nat} {slept naps : List Nat} {t : Timer} : (l.attempt j).naps = slept ++ naps →
      t.due = l.startOf j + span slept → l.startOf j ≤ clock → clock ≤ t.due →
      At l cut clock (l.callAt [l.frame j] (.asleep t (l.before + j) (napping naps (l.attempt j).outcome) l.context))
        ⟨j + 1, j, 0, 0⟩ (j + 1)
  | returns {j : Nat} : clock = l.stopOf j →
      At l cut clock (l.callAt [l.frame j] (.leaving (l.attempt j).outcome)) ⟨j + 1, j, 0, 0⟩ (j + 1)
  | waits {j : Nat} {t : Timer} {e : Error} : (l.attempt j).outcome = .failed e → e.retryable = true →
      j + 1 < l.most → t.due = l.startOf (j + 1) → l.stopOf j ≤ clock → clock ≤ t.due →
      At l cut clock (l.callAt [l.frame j] (.backoff t e)) ⟨j + 1, j, 0, 0⟩ (j + 1)
  | ended {j exhausted aborted : Nat} {o : Outcome} : l.Ends cut j o exhausted aborted → l.stopOf j ≤ clock →
      At l cut clock (l.callAt [] (.leaving o)) ⟨j + 1, j, exhausted, aborted⟩ (j + 1)

/-- What is counted and written down on the way. -/
structure Told (l : RetryLoop) (earlier : List Visit) (w : World) (k : Counters) (n : Nat) : Prop where
  counters : w.counters[0]? = some (l.counted.plus k)
  calls : w.calls[0]? = some (l.before + n)
  visits : w.visits = ((List.range n).map l.visit).reverse ++ earlier

namespace Told
variable {earlier : List Visit} {w w' : World} {k k' : Counters} {n t : Nat} {e : Event}

theorem of_eq (h : l.Told earlier w k n) (hk : w'.counters = w.counters) (hc : w'.calls = w.calls)
    (hj : w'.journal = w.journal) : l.Told earlier w' k n :=
  ⟨hk ▸ h.counters, hc ▸ h.calls, (World.visits_eq hj).trans h.visits⟩

theorem note (h : l.Told earlier w k n) (he : Entry.visit? ⟨w.clock, t, e⟩ = none) : l.Told earlier (w.note t e) k n :=
  ⟨h.counters, h.calls, (World.visits_note he).trans h.visits⟩

theorem count (h : l.Told earlier w k n) {f : Counters → Counters} (hf : f (l.counted.plus k) = l.counted.plus k') :
    l.Told earlier (w.count 0 f) k' n := by
  refine ⟨?_, h.calls, h.visits⟩
  simp [World.count, h.counters, hf]

end Told

/-- A call in the loop, with all that is known of it. -/
structure On (l : RetryLoop) (cut : Option Cut) (earlier : List Visit) (w : World) (c : Call) (k : Counters)
    (n : Nat) : Prop where
  place : l.At cut w.clock c k n
  told : l.Told earlier w k n
  again : ∀ i, i + 1 < k.attempts → l.Again cut i
  cancelled : w.isCancelled l.context = cut.isSome
  seen : ∀ x, cut = some x → x.time ≤ w.clock ∧ x.calls ≤ n

/-- A call that lets others come in between has called the handler for each attempt. -/
theorem At.called {clock : Nat} {c : Call} {k : Counters} {n : Nat} (h : l.At cut clock c k n)
    (hw : c.atWait = true ∨ c.outcome?.isSome = true) : n = k.attempts := by
  cases h with
  | calls _ => simp [callAt, Call.atWait, Call.outcome?] at hw
  | begins _ | acts _ _ | sleeps _ _ _ _ | returns _ | waits _ _ _ _ _ _ | ended _ _ => rfl

section Step
variable {earlier : List Visit} {w w' : World} {c : Call} {k : Counters} {n t : Nat} {o : Outcome} {e : Error}
  {timer : Timer}

theorem step_calls (hn : w.calls[0]? = some n) : (l.callAt [l.frame j] (.entering [] l.context l.message)).step t w =
    ((({ w with calls := w.calls.modify 0 (· + 1) }.note t (.entered 1)).note t
      (.called l.name n l.context (w.isCancelled l.context) (.message l.message))),
      l.callAt [l.frame j] (.acting n (napping (l.attempts n).naps (l.attempts n).outcome) l.context)) := by
  simp [Call.step, Call.invoke, Call.play, callAt, handler, Call.goto, hn]
  rfl

/-- The handler ends. That it has returned is written down, unless it breaks off. -/
theorem step_finished (l : RetryLoop) (j n t : Nat) (w : World) (o : Outcome) :
    ∃ w', (l.callAt [l.frame j] (.acting n (.finish o) l.context)).step t w = (w', l.callAt [l.frame j] (.leaving o)) ∧
      (w' = w ∨ ∃ ok, w' = w.note t (.returned l.name n ok (w.isCancelled l.context))) := by
  cases o with
  | ok => exact ⟨_, rfl, .inr ⟨_, rfl⟩⟩
  | failed e => exact ⟨_, rfl, .inr ⟨_, rfl⟩⟩
  | panicked reason => exact ⟨_, rfl, .inl rfl⟩

theorem step_sleeps {ms : Nat} {p : Program} : (l.callAt [l.frame j] (.acting n (.sleep ms p) l.context)).step t w =
    ((w.setTimer ms).2, l.callAt [l.frame j] (.asleep (w.setTimer ms).1 n p l.context)) := rfl

theorem step_asleep {p : Program} : (l.callAt [l.frame j] (.asleep timer n p l.context)).step t w =
    (w, l.callAt [l.frame j] (if w.isDue timer then .acting n p l.context else .asleep timer n p l.context)) := by
  simp only [Call.step, callAt]
  split <;> rfl

theorem step_unretryable (hr : e.retryable = false) : (l.callAt [l.frame j] (.leaving (.failed e))).step t w =
    (w.note t (.left 0), l.callAt [] (.leaving (.failed e))) := by
  simp [Call.step, callAt, frame, Call.leave, hr]

theorem step_backsOff (hr : e.retryable = true) (hm : j + 1 < l.most) :
    (l.callAt [l.frame j] (.leaving (.failed e))).step t w = ((w.setTimer (l.policy.delay (j + 1))).2,
      l.callAt [l.frame j] (.backoff (w.setTimer (l.policy.delay (j + 1))).1 e)) := by
  simp [Call.step, callAt, frame, Call.leave, Call.goto, hr, lt_most_iff.mp hm]

theorem step_exhausted (hr : e.retryable = true) (hm : j + 1 = l.most) :
    (l.callAt [l.frame j] (.leaving (.failed e))).step t w =
      (((w.count 0 fun k => { k with exhausted := k.exhausted + 1 }).note t
        (.noticed (.retriesExhausted l.message.id l.message.topic (j + 1) e))).note t (.left 0),
        l.callAt [] (.leaving .ok)) := by
  have hlast : ¬j + 1 ≤ l.policy.waits := by
    rw [← lt_most_iff]
    omega
  simp [Call.step, callAt, frame, Call.leave, hr, hlast]

theorem step_aborted (hc : w.isCancelled l.context = true) : (l.callAt [l.frame j] (.backoff timer e)).step t w =
    (((w.count 0 fun k => { k with aborted := k.aborted + 1 }).note t
      (.noticed (.retryAborted l.message.id (j + 1)))).note t (.left 0), l.callAt [] (.leaving (.failed e))) := by
  simp [Call.step, callAt, frame, Call.resume, hc]

theorem step_retried (hc : w.isCancelled l.context = false) (hd : w.isDue timer = true) :
    (l.callAt [l.frame j] (.backoff timer e)).step t w =
      (w.count 0 fun k => { k with retries := k.retries + 1, attempts := k.attempts + 1 },
        l.callAt [l.frame (j + 1)] (.entering [] l.context l.message)) := by
  simp [Call.step, callAt, frame, Call.resume, hc, hd]

theorem step_waits (hc : w.isCancelled l.context = false) (hd : w.isDue timer = false) :
    (l.callAt [l.frame j] (.backoff timer e)).step t w = (w, l.callAt [l.frame j] (.backoff timer e)) := by
  simp [Call.step, callAt, frame, Call.resume, hc, hd]

theorem Told.called (h : l.Told earlier w ⟨j + 1, j, 0, 0⟩ j) (hclock : w.clock = l.startOf j) :
    l.Told earlier ((l.callAt [l.frame j] (.entering [] l.context l.message)).step t w).1 ⟨j + 1, j, 0, 0⟩ (j + 1) := by
  rw [step_calls h.calls]
  refine ⟨h.counters, ?_, ?_⟩
  · show (w.calls.modify 0 (· + 1))[0]? = _
    simp [h.calls, Nat.add_assoc]
  · rw [World.visits_called, World.visits_note rfl, List.range_succ]
    show (⟨w.clock, _, _, _⟩ : Visit) :: w.visits = _
    rw [hclock, h.visits]
    simp [visit]

theorem lt_or_eq_most (hagain : ∀ i, i + 1 < j + 1 → l.Again cut i) : j + 1 < l.most ∨ j + 1 = l.most := by
  rcases Nat.eq_zero_or_pos j with rfl | hj
  · unfold most
    omega
  · have := (hagain (j - 1) (by omega)).lt_most
    omega

theorem On.ends {exhausted aborted : Nat} (h : l.On cut earlier w c ⟨j + 1, j, 0, 0⟩ (j + 1))
    (he : l.Ends cut j o exhausted aborted) (hstop : l.stopOf j ≤ w.clock) (hc : w'.clock = w.clock)
    (ht : w'.tokens = w.tokens) (htold : l.Told earlier w' ⟨j + 1, j, exhausted, aborted⟩ (j + 1)) :
    l.On cut earlier w' (l.callAt [] (.leaving o)) ⟨j + 1, j, exhausted, aborted⟩ (j + 1) where
  place := .ended he (hc ▸ hstop)
  told := htold
  again := h.again
  cancelled := by
    rw [World.isCancelled, ht]
    exact h.cancelled
  seen := hc ▸ h.seen

theorem On.returned (h : l.On cut earlier w (l.callAt [l.frame j] (.leaving (l.attempt j).outcome)) ⟨j + 1, j, 0, 0⟩ (j + 1))
    (hclock : w.clock = l.stopOf j) : ∃ k' n', l.On cut earlier
      ((l.callAt [l.frame j] (.leaving (l.attempt j).outcome)).step t w).1
      ((l.callAt [l.frame j] (.leaving (l.attempt j).outcome)).step t w).2 k' n' := by
  have hstop : l.stopOf j ≤ w.clock := Nat.le_of_eq hclock.symm
  cases ho : (l.attempt j).outcome with
  | ok => exact ⟨_, _, h.ends (.succeeded ho) hstop rfl rfl (h.told.note rfl)⟩
  | panicked reason => exact ⟨_, _, h.ends (.brokeOff ho) hstop rfl rfl (h.told.note rfl)⟩
  | failed e =>
    cases hr : e.retryable with
    | false =>
      rw [step_unretryable hr]
      exact ⟨_, _, h.ends (.unretryable ho hr) hstop rfl rfl (h.told.note rfl)⟩
    | true =>
      rcases lt_or_eq_most h.again with hm | hm
      · rw [step_backsOff hr hm]
        refine ⟨_, _, .waits ho hr hm ?_ hstop (Nat.le_add_right _ _), h.told.of_eq rfl rfl rfl, h.again, h.cancelled, h.seen⟩
        rw [startOf_succ, ← hclock]
        rfl
      · rw [step_exhausted hr hm]
        have hcount : l.Told earlier (w.count 0 fun k => { k with exhausted := k.exhausted + 1 }) ⟨j + 1, j, 1, 0⟩ (j + 1) :=
          h.told.count rfl
        exact ⟨_, _, h.ends (.exhausted ho hr hm) hstop rfl rfl ((hcount.note rfl).note rfl)⟩

/-- The wait after an attempt is over, or cut short: if both at once, it is cut short. -/
theorem On.waited (h : l.On cut earlier w (l.callAt [l.frame j] (.backoff timer e)) ⟨j + 1, j, 0, 0⟩ (j + 1))
    (ho : (l.attempt j).outcome = .failed e) (hr : e.retryable = true) (hm : j + 1 < l.most)
    (hdue : timer.due = l.startOf (j + 1)) (hstop : l.stopOf j ≤ w.clock) (hclock : w.clock ≤ timer.due) :
    ∃ k' n', l.On cut earlier ((l.callAt [l.frame j] (.backoff timer e)).step t w).1
      ((l.callAt [l.frame j] (.backoff timer e)).step t w).2 k' n' := by
  cases hcut : cut with
  | some x =>
    obtain ⟨htime, hcalls⟩ := h.seen x hcut
    rw [step_aborted (by rw [h.cancelled, hcut]; rfl), ← hcut]
    have hcount : l.Told earlier (w.count 0 fun k => { k with aborted := k.aborted + 1 }) ⟨j + 1, j, 0, 1⟩ (j + 1) :=
      h.told.count rfl
    exact ⟨_, _, h.ends (.aborted ho hr hm hcut (by omega) hcalls) hstop rfl rfl ((hcount.note rfl).note rfl)⟩
  | none =>
    have hc : w.isCancelled l.context = false := by rw [h.cancelled, hcut]; rfl
    rw [← hcut]
    cases hd : w.isDue timer with
    | false =>
      rw [step_waits hc hd]
      exact ⟨_, _, h⟩
    | true =>
      rw [step_retried hc hd]
      have htime : w.clock = l.startOf (j + 1) := by
        simp only [World.isDue, decide_eq_true_eq] at hd
        omega
      refine ⟨⟨j + 2, j + 1, 0, 0⟩, j + 1, .calls htime, h.told.count rfl, fun i hi => ?_, h.cancelled, h.seen⟩
      rcases Nat.lt_succ_iff_lt_or_eq.mp hi with hi | hi
      · exact h.again i hi
      · obtain rfl : i = j := by simpa using hi
        exact ⟨⟨e, ho, hr⟩, hm, fun x hx => by rw [hcut] at hx; cases hx⟩

theorem On.step (h : l.On cut earlier w c k n) : ∃ k' n', l.On cut earlier (c.step t w).1 (c.step t w).2 k' n' := by
  obtain ⟨hat, htold, hagain, hcancelled, hseen⟩ := id h
  cases hat with
  | begins hclock =>
    refine ⟨⟨1, 0, 0, 0⟩, 0, .calls hclock, (htold.note rfl).count rfl, fun i hi => ?_, hcancelled, hseen⟩
    simp at hi
  | calls hclock =>
    refine ⟨⟨n + 1, n, 0, 0⟩, n + 1, ?_, htold.called hclock, hagain, ?_, fun x hx => ?_⟩
    · rw [step_calls htold.calls]
      have hnaps : (l.attempt n).naps = [] ++ (l.attempt n).naps := rfl
      exact .acts hnaps hclock
    · rw [step_calls htold.calls]
      exact hcancelled
    · rw [step_calls htold.calls]
      exact ⟨(hseen x hx).1, Nat.le_succ_of_le (hseen x hx).2⟩
  | @acts j slept naps hnaps hclock =>
    cases naps with
    | nil =>
      obtain ⟨w', hstep, hw⟩ := l.step_finished j (l.before + j) t w (l.attempt j).outcome
      have hstop : w.clock = l.stopOf j := by rw [hclock, stopOf, hnaps, List.append_nil]
      rw [napping, List.foldr_nil, hstep]
      rcases hw with rfl | ⟨ok, rfl⟩
      · exact ⟨_, _, .returns hstop, htold, hagain, hcancelled, hseen⟩
      · exact ⟨_, _, .returns hstop, htold.note rfl, hagain, hcancelled, hseen⟩
    | cons ms naps =>
      have hnaps' : (l.attempt j).naps = (slept ++ [ms]) ++ naps := by simp [hnaps]
      refine ⟨_, _, .sleeps hnaps' ?_ ?_ ?_, htold.of_eq rfl rfl rfl, hagain, hcancelled, hseen⟩
      · show w.clock + min ms World.longestWait = _
        rw [span_concat, hclock, Nat.add_assoc]
      · show _ ≤ w.clock
        omega
      · exact Nat.le_add_right _ _
  | @sleeps j slept naps timer hnaps hdue hstart hclock =>
    rw [step_asleep]
    split
    · rename_i hd
      have htime : w.clock = l.startOf j + span slept := by
        simp only [World.isDue, decide_eq_true_eq] at hd
        omega
      exact ⟨_, _, .acts hnaps htime, htold, hagain, hcancelled, hseen⟩
    · exact ⟨_, _, h⟩
  | returns hclock => exact h.returned hclock
  | waits ho hr hm hdue hstop hclock => exact h.waited ho hr hm hdue hstop hclock
  | ended hends hstop => exact ⟨_, _, h⟩

end Step

end RetryLoop
end Relay
