import Relay.Proofs.Isolation.Blind
import Relay.Proofs.Isolation.Posting

/-! One route on its own. Its worker depends on the tokens, on how often its handler has been called, on what
    is on its way to it, and on what is asked for from the outside, at which time; what the other routes
    do is no part of it. So its course is one function of these, and two tellings of it that have come to
    the same time have come to the same state (`Solo.Leads.unique`). -/

namespace Relay

/-- What is settled about a route before anything happens. -/
structure Post where
  place : Nat
  route : Route
  /-- The stages of the router. -/
  stages : List Stage
  /-- The topics of all routes: if one of them cannot be subscribed, none is served. -/
  topics : List String
  transport : Transport

/-- What a worker has before it, behind the veil: the messages that are on their way to it, and the call that
    it is in. -/
structure Desk where
  tokens : Tokens
  run : Context
  /-- How often the handler of the route has been called. -/
  count : Option Nat
  inbox : List Message := []
  call : Option Call := none

/-- How far the course of a route has come. -/
inductive View where
  | waiting (tokens : Tokens) (count : Option Nat)
  | serving (d : Desk)
  | ended

variable (drawn : Uuid → Prop)

/-! ### What is asked for from the outside -/

namespace State.Op

/-- What an operation makes of the tokens. -/
def onTokens : Op → Tokens → Tokens
  | token, t => t.fresh
  | derive u, t => t.derive u
  | cancel u, t => t.cancel u
  | _, t => t

/-- The messages that an operation puts out on a topic. -/
noncomputable def posts (refused : Dict) (topic : String) : Op → List Message
  | publish t batch => (Program.publish t batch (.finish .ok)).posts drawn refused topic { token := 0 }
  | send v c => (Program.send v (.finish .ok)).posts drawn refused topic c
  | _ => []

end State.Op

namespace Post

/-- Whether all routes can be subscribed. -/
def isOpen (p : Post) : Bool := p.topics.all fun topic => (p.transport.refuseSubscribe.get? topic).isNone

def pipeline (p : Post) : List Stage := p.stages ++ p.route.stages

end Post

namespace View

/-- What is made of the course of a route by what is asked for from the outside. -/
noncomputable def input (p : Post) (o : State.Op) : View → View
  | waiting tokens count =>
    match o with
    | .run c =>
      if p.isOpen then serving { tokens := tokens.derive c.token, run := { c with token := tokens.next }, count } else ended
    | o => waiting (o.onTokens tokens) count
  | serving d =>
    let tokens := match o with
      | .close => d.tokens.cancel d.run.token
      | o => o.onTokens d.tokens
    serving { d with tokens, inbox := d.inbox ++ o.posts drawn p.transport.refusePublish p.route.topic }
  | ended => ended

end View

/-! ### What the worker does -/

namespace Desk

/-- The world as it is to a call of this route, behind the veil. -/
def world (d : Desk) (place now : Nat) : World :=
  { clock := now, tokens := d.tokens, ids := .masks, calls := List.replicate place 0 ++ d.count.toList }

def isReady (d : Desk) (place now : Nat) : Bool :=
  match d.call with
  | none => d.tokens.isCancelled d.run.token || !d.inbox.isEmpty
  | some c => c.outcome?.isSome || c.isReady (d.world place now)

/-- What the worker does next, and what comes to its handler by that. -/
noncomputable def step (p : Post) (now : Nat) (d : Desk) : View × List Arrival :=
  match d.call with
  | none =>
    if d.tokens.isCancelled d.run.token then (.ended, [])
    else
      match d.inbox with
      | [] => (.serving d, [])
      | m :: rest =>
        (.serving { d with
          inbox := rest
          call := some ((Call.start p.place p.pipeline p.route.handler d.run m).veil drawn) }, [.taken now m])
  | some c =>
    match c.outcome? with
    | some (.panicked _) => (.ended, [])
    | some _ => (.serving { d with call := none }, [])
    | none =>
      let (x, c) := c.step 0 (d.world p.place now)
      (.serving { d with count := x.calls[p.place]?, call := some (c.veil drawn) }, (x.arrivals 0).map (·.veil drawn))

theorem calls_world (d : Desk) (place now : Nat) : (d.world place now).calls[place]? = d.count := by
  obtain ⟨_, _, count, _, _⟩ := d
  cases count <;> simp [world]

end Desk

namespace View

def isReady (place now : Nat) : View → Bool
  | serving d => d.isReady place now
  | _ => false

noncomputable def step (p : Post) (now : Nat) : View → View × List Arrival
  | serving d => d.step drawn p now
  | v => (v, [])

end View

/-! ### The course of a route -/

/-- A route on its own: how far it has come and when, what has come to its handler, and what will be asked for
    from the outside, with the times. -/
structure Solo where
  view : View
  clock : Nat
  arrivals : List Arrival
  script : List (Nat × State.Op)

namespace Solo

/-- The worker does what it can, then what is asked for now is done, and else time goes on. -/
noncomputable def next (p : Post) (x : Solo) : Solo :=
  if x.view.isReady p.place x.clock then
    { x with
      view := (x.view.step drawn p x.clock).1
      arrivals := x.arrivals ++ (x.view.step drawn p x.clock).2 }
  else
    match x.script with
    | (time, o) :: rest =>
      if time = x.clock then { x with view := x.view.input drawn p o, script := rest } else { x with clock := x.clock + 1 }
    | [] => { x with clock := x.clock + 1 }

/-- What comes of it sooner or later. -/
inductive Leads (p : Post) (x : Solo) : Solo → Prop where
  | refl : Leads p x x
  | next {y : Solo} : Leads p x y → Leads p x (y.next drawn p)

variable {drawn} {p : Post} {x y z : Solo}

theorem clock_le_next : x.clock ≤ (x.next drawn p).clock := by
  unfold next
  split
  · exact Nat.le_refl _
  · split
    · split
      · exact Nat.le_refl _
      · exact Nat.le_succ _
    · exact Nat.le_succ _

theorem next_of_ready (h : x.view.isReady p.place x.clock = true) : x.next drawn p =
    { x with
      view := (x.view.step drawn p x.clock).1, arrivals := x.arrivals ++ (x.view.step drawn p x.clock).2 } := if_pos h

theorem next_of_script {o : State.Op} {rest : List (Nat × State.Op)} (h : x.view.isReady p.place x.clock = false)
    (hs : x.script = (x.clock, o) :: rest) :
    x.next drawn p = { x with view := x.view.input drawn p o, script := rest } := by
  simp [next, h, hs]

theorem next_of_wait (h : x.view.isReady p.place x.clock = false) (hs : ∀ e ∈ x.script, x.clock < e.1) :
    x.next drawn p = { x with clock := x.clock + 1 } := by
  unfold next
  rw [h, if_neg Bool.false_ne_true]
  split
  · rename_i time o rest he
    have := hs (time, o) (he ▸ List.mem_cons_self)
    rw [if_neg (Nat.ne_of_gt this)]
  · rfl

namespace Leads

theorem trans (h : Leads drawn p x y) (h' : Leads drawn p y z) : Leads drawn p x z := by
  induction h' with
  | refl => exact h
  | next _ ih => exact ih.next

theorem clock_le (h : Leads drawn p x y) : x.clock ≤ y.clock := by
  induction h with
  | refl => exact Nat.le_refl _
  | next _ ih => exact Nat.le_trans ih clock_le_next

theorem arrivals_grow (h : Leads drawn p x y) : x.arrivals <+: y.arrivals := by
  induction h with
  | refl => exact List.prefix_refl _
  | next _ ih =>
    refine ih.trans ?_
    unfold Solo.next
    split
    · exact List.prefix_append _ _
    · split
      · split <;> exact List.prefix_refl _
      · exact List.prefix_refl _

theorem step_cases (h : Leads drawn p x y) : y = x ∨ Leads drawn p (x.next drawn p) y := by
  induction h with
  | refl => exact .inl rfl
  | next _ ih =>
    rcases ih with rfl | ih
    · exact .inr .refl
    · exact .inr ih.next

/-- Of two tellings one goes on where the other one stops. -/
theorem total (h : Leads drawn p x y) (h' : Leads drawn p x z) : Leads drawn p y z ∨ Leads drawn p z y := by
  induction h' with
  | refl => exact .inr h
  | next _ ih =>
    rcases ih with ih | ih
    · exact .inl ih.next
    · rcases ih.step_cases with rfl | ih
      · exact .inl (.next .refl)
      · exact .inr ih

/-- While nothing is asked for and the worker can do nothing, only time goes on. -/
theorem waits {ms : Nat} (hs : ∀ e ∈ x.script, x.clock + ms ≤ e.1)
    (h : ∀ k, k < ms → x.view.isReady p.place (x.clock + k) = false) :
    Leads drawn p x { x with clock := x.clock + ms } := by
  induction ms with
  | zero => exact .refl
  | succ ms ih =>
    have hbefore := ih (fun e he => Nat.le_trans (Nat.add_le_add_left (Nat.le_succ ms) _) (hs e he))
      fun k hk => h k (Nat.lt_succ_of_lt hk)
    have hnext := @next_of_wait drawn p { x with clock := x.clock + ms }
      (h ms (Nat.lt_succ_self ms)) fun e he => Nat.lt_of_lt_of_le (Nat.lt_succ_self _) (hs e he)
    rw [show ({ x with clock := x.clock + (ms + 1) } : Solo) = { x with clock := x.clock + ms + 1 } from rfl, ← hnext]
    exact hbefore.next

theorem later (h : Leads drawn p y z) (hs : y.script = []) (hy : y.view.isReady p.place y.clock = false)
    (hc : y.clock = z.clock) : z = y := by
  rcases h.step_cases with rfl | h
  · rfl
  · have hnext := @next_of_wait drawn p y hy (by simp [hs])
    have := h.clock_le
    rw [hnext] at this
    exact absurd this (by simp only; omega)

/-- Two tellings that have come to the same time, when nothing is left to be done, agree. -/
theorem unique (hy : Leads drawn p x y) (hz : Leads drawn p x z) (hc : y.clock = z.clock) (hys : y.script = [])
    (hzs : z.script = []) (hyr : y.view.isReady p.place y.clock = false)
    (hzr : z.view.isReady p.place z.clock = false) : y = z := by
  rcases hy.total hz with h | h
  · exact (h.later hys hyr hc).symm
  · exact h.later hzs hzr hc.symm

end Leads
end Solo
end Relay
