import Relay.Proofs.Exchange.Queues
import Relay.Proofs.Call.Moves

/-! The journal, seen as one history for each task, and what a call leaves in it. A call writes inner
    events only, and only in the name of its own task; it publishes and cancels, but takes nothing from
    a queue (`Call.Moves.touches`). -/

namespace Relay

/-! ### Histories -/

/-- Whether a notice is given by a stage while a call is under way. -/
def Notice.isInner : Notice → Bool
  | .panicRecovered .. | .retriesExhausted .. | .retryAborted .. | .handlingFailed .. => true
  | _ => false

/-- Whether an event is part of a call. -/
def Event.isInner : Event → Bool
  | .taken .. | .settled .. => false
  | .noticed n => n.isInner
  | _ => true

/-- Whether an event is one that only the way of a message through a pipeline leaves. -/
def Event.isWork : Event → Bool
  | .spanned .. => false
  | .noticed (.messageFailed ..) => true
  | .noticed n => n.isInner
  | _ => true

/-- Whether an event is the call of a handler. -/
def Event.isCall : Event → Bool
  | .called .. => true
  | _ => false

/-- Whether an event says that a worker has broken off. -/
def Event.isBreakOff : Event → Bool
  | .noticed (.workerPanicked _) => true
  | _ => false

/-- The message that an event is the taking of. -/
def Event.taken? : Event → Option Message
  | .taken _ m => some m
  | _ => none

namespace World

/-- The calls of handlers, the latest first. -/
def invocations (w : World) : List Entry := w.journal.filter (·.event.isCall)

/-- The events of a task, the earliest first. -/
def history (w : World) (t : Nat) : List Event :=
  ((w.journal.filter (·.task == t)).map (·.event)).reverse

/-- The messages that a task has taken, the earliest first. -/
def handled (w : World) (t : Nat) : List Message := (w.history t).filterMap Event.taken?

/-- The tokens, and the exchange in which the router subscribes. -/
def hub (w : World) : Hub := ⟨w.tokens, w.exchange⟩

theorem history_note_self (w : World) (t : Nat) (e : Event) : (w.note t e).history t = w.history t ++ [e] := by
  simp [history, note]

theorem history_note_of_ne {t u : Nat} (w : World) (e : Event) (h : u ≠ t) : (w.note u e).history t = w.history t := by
  simp [history, note, h]

theorem history_eq {w w' : World} (h : w'.journal = w.journal) (t : Nat) : w'.history t = w.history t := by
  simp [history, h]

/-- Messages to be only draw identifiers. -/
theorem fulfilOne_eq (w : World) (d : Draft) :
    ∃ used, (w.fulfilOne d).2 = { w with ids := { w.ids with used } } := by
  unfold fulfilOne
  split
  · exact ⟨w.ids.used, rfl⟩
  · exact ⟨_, rfl⟩

theorem fulfil_eq (w : World) (ds : List Draft) : ∃ used, (w.fulfil ds).2 = { w with ids := { w.ids with used } } := by
  induction ds generalizing w with
  | nil => exact ⟨w.ids.used, rfl⟩
  | cons d ds ih =>
    obtain ⟨used, h₁⟩ := w.fulfilOne_eq d
    obtain ⟨used', h₂⟩ := ih (w.fulfilOne d).2
    exact ⟨used', by simp only [fulfil]; rw [h₂, h₁]⟩

/-- What a task does to the world: time stands still, it takes from the subscriptions of which `reads`
    holds, and writes down events of which `writes` holds, in its own name. -/
structure Touches (reads : Nat → Prop) (writes : Event → Prop) (task : Nat) (w w' : World) : Prop where
  clock : w'.clock = w.clock
  journal : ∃ new, w'.journal = new ++ w.journal ∧ ∀ e ∈ new, e.task = task ∧ writes e.event
  hub : ∃ ops, w'.hub = w.hub.run ops ∧ ∀ o ∈ ops, ∀ i, o.reads = some i → reads i

namespace Touches
variable {reads : Nat → Prop} {writes writes' : Event → Prop} {task : Nat} {w w₁ w₂ : World}

theorem of_eq (hc : w₁.clock = w.clock) (hj : w₁.journal = w.journal) (hh : w₁.hub = w.hub) :
    Touches reads writes task w w₁ :=
  ⟨hc, ⟨[], by simp [hj]⟩, [], hh, by simp⟩

theorem refl (w : World) : Touches reads writes task w w := of_eq rfl rfl rfl

theorem trans (h₁ : Touches reads writes task w w₁) (h₂ : Touches reads writes task w₁ w₂) :
    Touches reads writes task w w₂ := by
  obtain ⟨new₁, hj₁, hn₁⟩ := h₁.journal
  obtain ⟨new₂, hj₂, hn₂⟩ := h₂.journal
  obtain ⟨ops₁, hh₁, ho₁⟩ := h₁.hub
  obtain ⟨ops₂, hh₂, ho₂⟩ := h₂.hub
  refine ⟨h₂.clock.trans h₁.clock, ⟨new₂ ++ new₁, by rw [hj₂, hj₁, List.append_assoc], fun e he => ?_⟩,
    ops₁ ++ ops₂, by rw [hh₂, hh₁, Hub.run_append], fun o ho => ?_⟩
  · exact (List.mem_append.mp he).elim (hn₂ e) (hn₁ e)
  · exact (List.mem_append.mp ho).elim (ho₁ o) (ho₂ o)

theorem mono (h : Touches reads writes task w w₁) (hw : ∀ e, writes e → writes' e) :
    Touches reads writes' task w w₁ := by
  obtain ⟨new, hj, hn⟩ := h.journal
  exact ⟨h.clock, ⟨new, hj, fun e he => ⟨(hn e he).1, hw e.event (hn e he).2⟩⟩, h.hub⟩

theorem weaken (h : Touches reads writes task w w₁) : Touches (fun _ => True) writes task w w₁ := by
  obtain ⟨ops, hh, -⟩ := h.hub
  exact ⟨h.clock, h.journal, ops, hh, fun _ _ _ _ => trivial⟩

theorem note {e : Event} (he : writes e) : Touches reads writes task w (w.note task e) :=
  ⟨rfl, ⟨[⟨w.clock, task, e⟩], rfl, by simp [he]⟩, [], rfl, by simp⟩

theorem draw : Touches reads writes task w w.draw.2 := of_eq rfl rfl rfl

theorem count {place : Nat} {f : Counters → Counters} : Touches reads writes task w (w.count place f) :=
  of_eq rfl rfl rfl

theorem setTimer {ms : Nat} : Touches reads writes task w (w.setTimer ms).2 := of_eq rfl rfl rfl

theorem ops (ops : List Hub.Op) (hc : w₁.clock = w.clock) (hj : w₁.journal = w.journal)
    (hh : w₁.hub = w.hub.run ops) (ho : ∀ o ∈ ops, ∀ i, o.reads = some i → reads i) :
    Touches reads writes task w w₁ :=
  ⟨hc, ⟨[], by simp [hj]⟩, ops, hh, ho⟩

theorem op (o : Hub.Op) (hc : w₁.clock = w.clock) (hj : w₁.journal = w.journal) (hh : w₁.hub = w.hub.step o)
    (ho : ∀ i, o.reads = some i → reads i) : Touches reads writes task w w₁ :=
  ops [o] hc hj hh fun o' ho' => by
    obtain rfl := List.mem_singleton.mp ho'
    exact ho

theorem cancel {t : Token} : Touches reads writes task w (w.cancel t) := op (.cancel t) rfl rfl rfl nofun

theorem startSpan {c : Context} {name : String} {kind : SpanKind} (he : writes (.spanned name kind)) :
    Touches reads writes task w (w.startSpan task c name kind).2 := by
  have drawn : Touches reads writes task w { w with ids := (c.startSpan w.ids).2 } := of_eq rfl rfl rfl
  exact drawn.trans (note he)

theorem fulfil {ds : List Draft} : Touches reads writes task w (w.fulfil ds).2 := by
  obtain ⟨used, h⟩ := w.fulfil_eq ds
  rw [h]
  exact of_eq rfl rfl rfl

/-- What is done to the exchange behind a port is done to the router's exchange, or elsewhere. -/
theorem setExchange {port : Port} {x : Exchange} (o : Hub.Op) (ho : o.reads = none)
    (hx : ∀ tokens, (⟨tokens, w.exchangeOf port⟩ : Hub).step o = ⟨tokens, x⟩) :
    Touches reads writes task w (w.setExchange port x) := by
  have hno : ∀ i, o.reads = some i → reads i := fun i hi => by
    rw [ho] at hi
    cases hi
  cases port with
  | router => exact op o rfl rfl (hx w.tokens).symm hno
  | plain =>
    unfold World.setExchange
    cases ha : w.aside with
    | some a => exact of_eq rfl rfl rfl
    | none =>
      have he : w.exchangeOf .plain = w.exchange := by simp [exchangeOf, ha]
      rw [he] at hx
      exact op o rfl rfl (hx w.tokens).symm hno

theorem publish {port : Port} {topic : String} {batch : List Message} {pub : Nat}
    (h : w.publish port topic batch = .ok (pub, w₁)) : Touches reads writes task w w₁ := by
  unfold World.publish at h
  split at h
  · cases h
  · cases h
    exact setExchange (.publish topic batch) rfl fun _ => rfl

/-- A task adds to its own history. -/
theorem history (h : Touches reads writes task w w₁) :
    ∃ new, w₁.history task = w.history task ++ new ∧ ∀ e ∈ new, writes e := by
  obtain ⟨new, hj, hn⟩ := h.journal
  have hown : new.filter (·.task == task) = new := List.filter_eq_self.mpr fun e he => by simp [(hn e he).1]
  refine ⟨(new.map (·.event)).reverse, ?_, fun e he => ?_⟩
  · simp only [World.history, hj, List.filter_append, hown, List.map_append, List.reverse_append]
  · obtain ⟨x, hx, rfl⟩ := List.mem_map.mp (List.mem_reverse.mp he)
    exact (hn x hx).2

/-- Nothing is added to the history of another task. -/
theorem history_of_ne {u : Nat} (h : Touches reads writes task w w₁) (hu : u ≠ task) :
    w₁.history u = w.history u := by
  obtain ⟨new, hj, hn⟩ := h.journal
  have hnone : new.filter (·.task == u) = [] :=
    List.filter_eq_nil_iff.mpr fun e he => by simpa [hn e he] using hu.symm
  simp only [World.history, hj, List.filter_append, hnone, List.nil_append]

/-- A task that does not call a handler leaves the calls as they are. -/
theorem invocations (h : Touches reads writes task w w₁) (hn : ∀ e, writes e → e.isCall = false) :
    w₁.invocations = w.invocations := by
  obtain ⟨new, hj, hw⟩ := h.journal
  have hnone : new.filter (·.event.isCall) = [] := List.filter_eq_nil_iff.mpr fun e he => by
    simp [hn e.event (hw e he).2]
  simp only [World.invocations, hj, List.filter_append, hnone, List.nil_append]

/-- A subscription that a task does not take from is only fed. -/
theorem feeds (h : Touches reads writes task w w₁) {i : Nat} {sub : Subscription} (hi : ¬reads i)
    (hs : w.exchange.subscriptions[i]? = some sub) :
    ∃ sub', w₁.exchange.subscriptions[i]? = some sub' ∧ sub.Fed sub' := by
  obtain ⟨ops, hh, ho⟩ := h.hub
  obtain ⟨sub', hs', hfed⟩ := Hub.run_feeds w.hub ho i sub hi hs
  exact ⟨sub', by rw [← hh] at hs'; exact hs', hfed⟩

end Touches
end World

/-! ### What a call does to the world -/

namespace Call
open World
variable {task : Nat} {w w' : World} {c c' : Call}

/-- What a step of a call may write down. A handler is called at the end of the pipeline only. -/
def Writes (c : Call) (e : Event) : Prop :=
  e.isInner = true ∧ (e.isCall = true → ∃ ctx m h, c.phase = .entering [] ctx m ∧ c.handler = some h)

theorem Moves.touches {reads : Nat → Prop} (h : c.Moves task w w' c') : Touches reads c.Writes task w w' := by
  have note : ∀ {w : World} {e : Event}, e.isInner = true → e.isCall = false →
      Touches reads c.Writes task w (w.note task e) :=
    fun hi hc => .note ⟨hi, fun h => by simp [hc] at h⟩
  have span : ∀ {w : World} {ctx : Context} {name : String} {kind : SpanKind},
      Touches reads c.Writes task w (w.startSpan task ctx name kind).2 := .startSpan ⟨rfl, nofun⟩
  have reached : Touches reads c.Writes task w (c.reached task w) := note rfl rfl
  have counted : Touches reads c.Writes task w { w with calls := w.calls.modify c.route (· + 1) } :=
    .of_eq rfl rfl rfl
  have arrived : Touches reads c.Writes task w (c.arrived task w) := counted.trans (note rfl rfl)
  cases h with
  | stays | unhandled | undecoded | brokeOff | awaited | woke | freed | delivered | undelivered | strayed =>
    exact .refl w
  | refused => exact arrived
  | called hp hh => exact arrived.trans (.note ⟨rfl, fun _ => ⟨_, _, _, hp, hh⟩⟩)
  | guarded | unmarked | restored | passed => exact reached
  | marked => exact reached.trans .draw
  | tried => exact reached.trans .count
  | answered => exact reached.trans (note rfl rfl)
  | dispatched => exact reached.trans span
  | returned | unwound | filtered | unretryable | propagated | left => exact note rfl rfl
  | slept | backsOff => exact .setTimer
  | cancelled => exact .cancel
  | unpublished => exact .fulfil
  | published _ hp => exact Touches.fulfil.trans (.publish hp)
  | unwritten => exact span
  | unsent => exact span.trans .draw
  | sent _ _ hp => exact (span.trans .draw).trans (.publish hp)
  | @delivers port pub => exact .setExchange (.advance pub) rfl fun _ => rfl
  | aborted | exhausted => exact (Touches.count.trans (note rfl rfl)).trans (note rfl rfl)
  | retried => exact .count
  | recovered | swallowed => exact (note rfl rfl).trans (note rfl rfl)

end Call
end Relay
