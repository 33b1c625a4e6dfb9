import Mathlib.Logic.Function.Iterate
import Relay.Proofs.Isolation.Onward
import Relay.Proofs.Isolation.Solo
import Relay.Proofs.Retry.Rounds

/-! One worker, given what comes to it. Messages that its handler cannot read are left out, and what is left, with the
    times, decides what the worker does and when: its course is one function of it, so two tellings of it that have come
    to the same time have come to the same (`Sitting.Leads.unique`). -/

namespace Relay
variable (drawn : Uuid → Prop)

/-! ### What comes to a worker -/

/-- What comes to a worker while it is at work. -/
inductive Incoming where
  /-- A message is put into its queue. -/
  | message (m : Message)
  /-- The run that it is part of is cancelled. -/
  | stop
  /-- The exchange is closed. -/
  | close

def Incoming.isClose : Incoming → Bool
  | close => true
  | _ => false

/-- Whether a payload can be made into what the handler wants to be given. -/
def Handler.canRead (h : Handler) (pl : Payload) : Bool :=
  match h.reads with
  | none => true
  | some read => (read pl).toBool

theorem Handler.canRead_eq_false {h : Handler} {pl : Payload} : h.canRead pl = false ↔ h.CannotRead pl := by
  unfold canRead CannotRead
  cases h.reads with
  | none => simp
  | some read => cases hr : read pl <;> simp [hr, Except.toBool]

/-- Messages that a handler can read, up to generated identifiers. -/
noncomputable def Handler.sift (h : Handler) (ms : List Message) : List Message :=
  (ms.filter fun m => h.canRead m.payload).map (·.veil drawn)

/-- What comes to a worker, up to generated identifiers, unless it is a message that its handler cannot read. -/
noncomputable def Handler.sift? (h : Handler) : Incoming → Option Incoming
  | .message m => if h.canRead m.payload then some (.message (m.veil drawn)) else none
  | .stop => some .stop
  | .close => some .close

/-- What comes to a worker, with the times, without the messages that its handler cannot read. -/
noncomputable def Handler.sieve (h : Handler) (σ : List (Nat × Incoming)) : List (Nat × Incoming) :=
  σ.filterMap fun e => (h.sift? drawn e.2).map (e.1, ·)

/-- Messages that come at this time. -/
def Incoming.at (now : Nat) (ms : List Message) : List (Nat × Incoming) := ms.map fun m => (now, .message m)

/-- Whether it is the call of a handler. -/
def Arrival.isCall : Arrival → Bool
  | called .. => true
  | taken .. => false

/-- The calls of the handler of a task, the earliest first, up to generated identifiers. -/
noncomputable def World.called (w : World) (t : Nat) : List Arrival :=
  ((w.arrivals t).filter Arrival.isCall).map (·.veil drawn)

variable {drawn}

namespace Handler
variable {h : Handler} {σ τ : List (Nat × Incoming)} {now : Nat} {ms ms' : List Message}

theorem sift_append : h.sift drawn (ms ++ ms') = h.sift drawn ms ++ h.sift drawn ms' := by
  rw [sift, List.filter_append, List.map_append, ← sift, ← sift]

theorem sift_cons {m : Message} (hm : h.canRead m.payload = true) :
    h.sift drawn (m :: ms) = m.veil drawn :: h.sift drawn ms := by
  simp [sift, hm]

theorem sift_cons_of_cannotRead {m : Message} (hm : h.canRead m.payload = false) :
    h.sift drawn (m :: ms) = h.sift drawn ms := by
  simp [sift, hm]

theorem sieve_append : h.sieve drawn (σ ++ τ) = h.sieve drawn σ ++ h.sieve drawn τ := List.filterMap_append

theorem sieve_messages : h.sieve drawn (Incoming.at now ms) = Incoming.at now (h.sift drawn ms) := by
  induction ms with
  | nil => rfl
  | cons m ms ih =>
    rw [Incoming.at, ← Incoming.at] at ih
    cases hm : h.canRead m.payload <;> simp_all [sieve, sift?, sift, Incoming.at]

end Handler

theorem Incoming.at_append {now : Nat} {ms ms' : List Message} :
    Incoming.at now (ms ++ ms') = Incoming.at now ms ++ Incoming.at now ms' := List.map_append

theorem Call.Likened.called {tok : Token} {task task' : Nat} {w : World} {r r' : World × Call}
    (h : Call.Likened drawn tok task task' w r r') :
    r.1.called drawn task = w.called drawn task ++ r'.1.called drawn task' := by
  have hveil : ∀ a : Arrival, (a.veil drawn).isCall = a.isCall := fun a => by cases a <;> rfl
  have hswap : ∀ l : List Arrival, (l.filter Arrival.isCall).map (·.veil drawn) =
      (l.map (·.veil drawn)).filter Arrival.isCall := fun l => by
    rw [List.filter_map]
    exact congrArg _ (List.filter_congr fun a _ => (hveil a).symm)
  simp only [World.called, hswap, h.arrivals, List.filter_append]

/-! ### What the worker makes of it -/

variable (drawn)

namespace Desk

/-- The world as it is to a call of this route that may publish. -/
def outlook (d : Desk) (p : Post) (now : Nat) : World := { d.world p.place now with transport := p.transport }

/-- Whether the worker can do anything: without a call, it can come to its end where the exchange is closed. -/
def canMove (d : Desk) (place now : Nat) (closed : Bool) : Bool := d.isReady place now || closed && d.call.isNone

/-- What the worker does next, and which calls of its handler come of that. -/
noncomputable def serve (p : Post) (now : Nat) (closed : Bool) (d : Desk) : View × List Arrival :=
  match d.call with
  | none =>
    if closed || d.tokens.isCancelled d.run.token then (.ended, [])
    else
      match d.inbox with
      | [] => (.serving d, [])
      | m :: rest =>
        (.serving { d with
          inbox := rest
          call := some ((Call.start p.place p.pipeline p.route.handler d.run m).veil drawn) }, [])
  | some c =>
    match c.outcome? with
    | some (.panicked _) => (.ended, [])
    | some _ => (.serving { d with call := none }, [])
    | none =>
      let (x, c) := c.step 0 (d.outlook p now)
      (.serving { d with
        tokens := x.tokens, count := x.calls[p.place]?, call := some ((c.onward closed).veil drawn) }, x.called drawn 0)

end Desk

namespace View

def canMove (place now : Nat) (closed : Bool) : View → Bool
  | serving d => d.canMove place now closed
  | _ => false

noncomputable def serve (p : Post) (now : Nat) (closed : Bool) : View → View × List Arrival
  | serving d => d.serve drawn p now closed
  | v => (v, [])

/-- What is made of the course of a worker by what comes to it. -/
def receive : Incoming → View → View
  | .message m, serving d => serving { d with inbox := d.inbox ++ [m] }
  | .stop, serving d => serving { d with tokens := d.tokens.cancel d.run.token }
  | _, v => v

end View

/-- A worker at its desk: how far it has come and when, whether the exchange is closed, which calls of its handler
    there have been, and what is still to come to it, with the times. -/
structure Sitting where
  view : View
  clock : Nat
  closed : Bool
  calls : List Arrival
  ahead : List (Nat × Incoming)

namespace Sitting

/-- The worker does what it can, then it is given what comes now, and else time goes on. -/
noncomputable def next (p : Post) (x : Sitting) : Sitting :=
  if x.view.canMove p.place x.clock x.closed then
    { x with
      view := (x.view.serve drawn p x.clock x.closed).1
      calls := x.calls ++ (x.view.serve drawn p x.clock x.closed).2 }
  else
    match x.ahead with
    | (time, i) :: rest =>
      if time = x.clock then { x with view := x.view.receive i, closed := x.closed || i.isClose, ahead := rest }
      else { x with clock := x.clock + 1 }
    | [] => { x with clock := x.clock + 1 }

/-- What comes of it sooner or later. -/
def Leads (p : Post) (x y : Sitting) : Prop := ∃ n, y = (next drawn p)^[n] x

variable {drawn} {p : Post} {x y z : Sitting}

theorem next_of_ready (h : x.view.canMove p.place x.clock x.closed = true) : x.next drawn p =
    { x with
      view := (x.view.serve drawn p x.clock x.closed).1
      calls := x.calls ++ (x.view.serve drawn p x.clock x.closed).2 } := if_pos h

theorem next_of_ahead {i : Incoming} {rest : List (Nat × Incoming)}
    (h : x.view.canMove p.place x.clock x.closed = false) (ha : x.ahead = (x.clock, i) :: rest) :
    x.next drawn p = { x with view := x.view.receive i, closed := x.closed || i.isClose, ahead := rest } := by
  simp [next, h, ha]

theorem next_of_incoming {i : Incoming} {rest : List (Nat × Incoming)}
    (h : x.view.canMove p.place x.clock x.closed = false) (ha : x.ahead = (x.clock, i) :: rest)
    (hi : i.isClose = false) : x.next drawn p = { x with view := x.view.receive i, ahead := rest } := by
  rw [next_of_ahead h ha, hi, Bool.or_false]

theorem next_of_wait (h : x.view.canMove p.place x.clock x.closed = false) (ha : ∀ e ∈ x.ahead, x.clock < e.1) :
    x.next drawn p = { x with clock := x.clock + 1 } := by
  unfold next
  rw [h, if_neg Bool.false_ne_true]
  split
  · rename_i time i rest he
    have := ha (time, i) (he ▸ List.mem_cons_self)
    rw [if_neg (Nat.ne_of_gt this)]
  · rfl

theorem clock_le_next : x.clock ≤ (x.next drawn p).clock := by
  unfold next
  split
  · exact Nat.le_refl _
  · split
    · split
      · exact Nat.le_refl _
      · exact Nat.le_succ _
    · exact Nat.le_succ _

theorem calls_isPrefix_next : x.calls <+: (x.next drawn p).calls := by
  unfold next
  split
  · exact List.prefix_append _ _
  · split
    · split <;> exact List.prefix_refl _
    · exact List.prefix_refl _

namespace Leads

theorem refl : Leads drawn p x x := ⟨0, rfl⟩

theorem one : Leads drawn p x (x.next drawn p) := ⟨1, rfl⟩

theorem trans (h : Leads drawn p x y) (h' : Leads drawn p y z) : Leads drawn p x z := by
  obtain ⟨n, rfl⟩ := h
  obtain ⟨m, rfl⟩ := h'
  exact ⟨m + n, (Function.iterate_add_apply _ m n x).symm⟩

theorem next (h : Leads drawn p x y) : Leads drawn p x (y.next drawn p) := h.trans one

/-- What every step keeps. -/
theorem keeps {P : Sitting → Prop} (h : Leads drawn p x y) (h₀ : P x) (hP : ∀ z, P z → P (z.next drawn p)) : P y := by
  obtain ⟨n, rfl⟩ := h
  induction n with
  | zero => exact h₀
  | succ n ih => exact Function.iterate_succ_apply' (Sitting.next drawn p) n x ▸ hP _ ih

theorem clock_le (h : Leads drawn p x y) : x.clock ≤ y.clock :=
  h.keeps (P := fun z => x.clock ≤ z.clock) (Nat.le_refl _) fun _ hz => Nat.le_trans hz clock_le_next

theorem calls_isPrefix (h : Leads drawn p x y) : x.calls <+: y.calls :=
  h.keeps (P := fun z => x.calls <+: z.calls) (List.prefix_refl _) fun _ hz => hz.trans calls_isPrefix_next

/-- Of two tellings one goes on where the other one stops. -/
theorem total (h : Leads drawn p x y) (h' : Leads drawn p x z) : Leads drawn p y z ∨ Leads drawn p z y := by
  obtain ⟨n, rfl⟩ := h
  obtain ⟨m, rfl⟩ := h'
  rcases Nat.le_total n m with hle | hle
  · exact .inl ⟨m - n, by rw [← Function.iterate_add_apply, Nat.sub_add_cancel hle]⟩
  · exact .inr ⟨n - m, by rw [← Function.iterate_add_apply, Nat.sub_add_cancel hle]⟩

/-- While nothing comes and the worker can do nothing, only time goes on. -/
theorem waits {ms : Nat} (ha : ∀ e ∈ x.ahead, x.clock + ms ≤ e.1)
    (h : ∀ k, k < ms → x.view.canMove p.place (x.clock + k) x.closed = false) :
    Leads drawn p x { x with clock := x.clock + ms } := by
  induction ms with
  | zero => exact .refl
  | succ ms ih =>
    have hbefore := ih (fun e he => Nat.le_trans (Nat.add_le_add_left (Nat.le_succ ms) _) (ha e he))
      fun k hk => h k (Nat.lt_succ_of_lt hk)
    have hnext := @next_of_wait drawn p { x with clock := x.clock + ms }
      (h ms (Nat.lt_succ_self ms)) fun e he => Nat.lt_of_lt_of_le (Nat.lt_succ_self _) (ha e he)
    rw [show ({ x with clock := x.clock + (ms + 1) } : Sitting) = { x with clock := x.clock + ms + 1 } from rfl,
      ← hnext]
    exact hbefore.next

theorem later (h : Leads drawn p y z) (ha : y.ahead = []) (hy : y.view.canMove p.place y.clock y.closed = false)
    (hc : y.clock = z.clock) : z = y := by
  obtain ⟨n, rfl⟩ := h
  cases n with
  | zero => rfl
  | succ n =>
    have hnext := @next_of_wait drawn p y hy (by simp [ha])
    have hlater : Leads drawn p (y.next drawn p) ((Sitting.next drawn p)^[n + 1] y) := ⟨n, rfl⟩
    have := hlater.clock_le
    rw [hnext] at this
    exact absurd (hc ▸ this) (Nat.not_succ_le_self _)

/-- Two tellings that have come to the same time, when nothing is left to be done, agree. -/
theorem unique (hy : Leads drawn p x y) (hz : Leads drawn p x z) (hc : y.clock = z.clock) (hya : y.ahead = [])
    (hza : z.ahead = []) (hyr : y.view.canMove p.place y.clock y.closed = false)
    (hzr : z.view.canMove p.place z.clock z.closed = false) : y = z := by
  rcases hy.total hz with h | h
  · exact (h.later hya hyr hc).symm
  · exact h.later hza hzr hc.symm

end Leads
end Sitting
end Relay
