import Relay.Proofs.Broker.Shutdown
import Relay.Proofs.Causal.Detached

/-! Causal identity. Along a chain of hops every handler sees one correlation identifier, one baggage and
    one trace, those of the first sender if it had them, and nothing of the context that the router was
    started in but its token. -/

namespace Relay

/-- The context in which a call is in its handler. -/
def Call.handling? (c : Call) : Option Context :=
  match c.phase with
  | .acting _ _ ctx | .asleep _ _ _ ctx | .awaiting _ _ ctx | .sending _ _ _ _ _ ctx => some ctx
  | _ => none

theorem Call.Stands.handling {c : Call} {tok : Token} {stages : List Stage} {ctx : Context} (h : c.Stands tok stages)
    (hc : c.handling? = some ctx) : ctx.token = tok := by
  unfold Call.handling? at hc
  unfold Stands at h
  split at hc
  all_goals first
    | cases hc
      rename_i hp
      rw [hp] at h
      exact h.2
    | cases hc

/-! ### Along a chain -/

theorem Dict.erase_erase (d : Dict) (key : String) : (d.erase key).erase key = d.erase key :=
  Dict.eq_of_get?_eq fun k => by
    rw [Dict.get?_erase, Dict.get?_erase]
    split <;> rfl

/-- What the handler of a hop sees if the chain was begun in context `c` and has this identifier and trace. -/
structure Hop.Keeps (c : Context) (id : String) (traceId : HexId 32) (flags : UInt8) (d : Hop) : Prop where
  correlation : d.context.correlationId = some id
  baggage : d.context.baggage = c.baggage.erase ""
  trace : ∃ span, d.context.trace = some ⟨traceId, span, flags⟩
  marked : d.message.metadata.get? correlationKey = some id
  payload : d.sent.written = .ok d.message.payload
  value : ∀ (type : PayloadType) (x : Value), d.sent.written = type.write x → d.handler.reads = some type.read →
    (∀ bytes, type.write x = .ok bytes → type.read bytes = .ok x) → d.input = .value x

/-- This identifier and this trace are those of the sender, if it has them. -/
structure Context.Names (c : Context) (id : String) (traceId : HexId 32) (flags : UInt8) : Prop where
  nonempty : id ≠ ""
  correlation : ∀ id', c.correlationId = some id' → id' ≠ "" → id = id'
  trace : ∀ parent, c.trace = some parent → traceId = parent.traceId ∧ flags = parent.flags

/-- There are always names. -/
theorem Context.exists_names (c : Context) : ∃ id traceId flags, c.Names id traceId flags := by
  have hid : ∃ id : String, id ≠ "" ∧ ∀ id', c.correlationId = some id' → id' ≠ "" → id = id' := by
    by_cases hne : ∃ id, c.correlationId = some id ∧ id ≠ ""
    · obtain ⟨id, h, hne⟩ := hne
      exact ⟨id, hne, fun id' h' _ => Option.some.inj (h.symm.trans h')⟩
    · exact ⟨"-", by decide, fun id' h hne' => absurd ⟨id', h, hne'⟩ hne⟩
  obtain ⟨id, hne, hid⟩ := hid
  cases ht : c.trace with
  | none => exact ⟨id, Uuid.mask.traceId, 0, hne, hid, fun parent h => by rw [ht] at h; cases h⟩
  | some parent =>
    refine ⟨id, parent.traceId, parent.flags, hne, hid, fun parent' h => ?_⟩
    rw [ht] at h
    cases h
    exact ⟨rfl, rfl⟩

/-- What follows a context and has names is what the names are of. -/
theorem Context.Follows.names {c d : Context} {id : String} {traceId : HexId 32} {flags : UInt8} (hf : c.Follows d)
    (hd : d.Names id traceId flags) : c.Names id traceId flags where
  nonempty := hd.nonempty
  correlation id' h hne := hd.correlation id' (hf.correlation h hne) hne
  trace parent h := by
    obtain ⟨span, hspan⟩ := hf.trace h
    obtain ⟨rfl, rfl⟩ := hd.trace _ hspan
    exact ⟨rfl, rfl⟩

/-- A handler that reads what was written is given the value. -/
theorem Handler.Given.value {h : Handler} {m : Message} {i : Input} (hg : h.Given m i) {type : PayloadType} {x : Value}
    (hr : h.reads = some type.read) (hx : type.read m.payload = .ok x) : i = .value x := by
  rcases hg with ⟨hn, -⟩ | ⟨read, v, hread, hv, rfl⟩
  · rw [hr] at hn
    cases hn
  · rw [hr] at hread
    cases hread
    unfold unmarshal at hv
    rw [hx] at hv
    cases hv
    rfl

namespace State
variable {p : RetryPolicy} {s s' : State} {c : Context} {ds : List Hop}

theorem Conveying.chain (hs : s.Conveying p) (h : Chain c s ds s') :
    ∃ id traceId flags, c.Names id traceId flags ∧ ∀ d ∈ ds, d.Keeps c id traceId flags := by
  -- Names are chosen at the end of the chain, where nothing binds them, and brought forward hop by hop.
  induction h with
  | @nil c s =>
    obtain ⟨id, traceId, flags, hn⟩ := c.exists_names
    exact ⟨id, traceId, flags, hn, fun _ hd => nomatch hd⟩
  | @hop c s s₁ s₂ s' t u pub m₀ d ds hrun hsend hrun' hcall _ ih =>
    have hs₁ := hs.runs hrun
    have hs₂ : s₂.Conveying p := (hs₁.turns hsend.allowed).runs hrun'
    obtain ⟨hfollows, hmarked, hwritten⟩ := hs₂.hop hsend hrun' hcall
    obtain ⟨id, traceId, flags, hnames, hkeeps⟩ := ih hs₂
    refine ⟨id, traceId, flags, hfollows.names hnames, fun e he => ?_⟩
    rcases List.mem_cons.mp he with rfl | he
    · -- The names of the rest of the chain are those that this handler sees.
      obtain ⟨id', hid, hne⟩ := hfollows.identified
      obtain rfl := hnames.correlation id' hid hne
      obtain ⟨parent, hparent⟩ := hfollows.traced
      obtain ⟨rfl, rfl⟩ := hnames.trace parent hparent
      exact {
        correlation := hid
        baggage := hfollows.baggage
        trace := ⟨parent.spanId, hparent⟩
        marked := hmarked.symm.trans hid
        payload := hwritten
        value := fun type x hw hr hread => by
          obtain ⟨_, _, _, _, _, _, _, _, _, hgiven⟩ := hcall
          exact hgiven.value hr (hread _ (hw ▸ hwritten)) }
    · have hk := hkeeps e he
      exact { hk with baggage := by rw [hk.baggage, hfollows.baggage, Dict.erase_erase] }

/-! ### The start -/

/-- In a run from `start` to `s` the router has begun in context `c`. -/
def BegunIn (start : State) (c : Context) (s : State) : Prop :=
  ∃ s₀ t, Runs Op.OfBroker start s₀ ∧ s₀.tasks[t]? = some (.run (.fresh c)) ∧ s₀.router.started = false ∧
    c.token < s₀.world.tokens.next ∧ s₀.Allows (.turn t .shutdown) ∧ Runs Op.OfBroker (s₀.turn t .shutdown) s

/-- Worker `u` is in its handler, in this context. -/
def Handling (s : State) (u : Nat) (ctx : Context) : Prop :=
  ∃ w m call, s.tasks[u]? = some (.worker w) ∧ w.occupation = .busy m call ∧ call.handling? = some ctx

theorem turn_fresh {t : Nat} (ht : s.tasks[t]? = some (.run (.fresh c))) (hs : s.router.started = false) :
    (s.turn t .shutdown).world.tokens = s.world.tokens.derive c.token ∧
      (s.turn t .shutdown).RunsUnder s.world.tokens.next := by
  have hm : s.micro t .shutdown = { s with
      router := { s.router with started := true }
      world := { s.world with tokens := s.world.tokens.derive c.token } }.setTask t
        (.run (.subscribing { c with token := s.world.tokens.next } [] (List.range s.router.routes.length))) := by
    simp only [micro, ht, microRun, hs]
    rfl
  unfold turn
  rw [hm]
  exact ⟨rfl, .inl ⟨t, _, _, List.getElem?_set_self (List.getElem?_eq_some_iff.mp ht).1, rfl, rfl⟩⟩

/-- Cancelling the context of the start cancels every handler's. -/
theorem Conveying.cancels {start : State} (hs : start.Conveying p) (hx : start.world.tokens.Closed)
    (h : BegunIn start c s) (hc : s.world.isCancelled c = true) {u : Nat} {ctx : Context} (hu : s.Handling u ctx) :
    s.world.isCancelled ctx = true := by
  obtain ⟨s₀, t, h₀, ht, hst, hmade, ha, hrun⟩ := h
  have hx₀ : s₀.world.tokens.Closed :=
    h₀.keeps (P := fun s => s.world.tokens.Closed) hx fun _ h hx => h.tokens_closed hx
  obtain ⟨htokens, hunder⟩ := turn_fresh ht hst
  have hs₁ := (hs.runs h₀).turns ha
  generalize s₀.turn t .shutdown = s₁ at htokens hunder hs₁ hrun
  -- The token of the run is derived from that of the start, and stays below it.
  have hinv : s.Under s₀.world.tokens.next ∧ s.world.tokens.Closed ∧ s₀.world.tokens.next < s.world.tokens.next ∧
      s.world.tokens.below c.token s₀.world.tokens.next = true := by
    refine hrun.keeps (P := fun s => s.Under s₀.world.tokens.next ∧ s.world.tokens.Closed ∧
      s₀.world.tokens.next < s.world.tokens.next ∧ s.world.tokens.below c.token s₀.world.tokens.next = true)
      ⟨hs₁.orderly.course.under hunder, ?_⟩ fun _ h ⟨hu, hx, hl, hb⟩ =>
        ⟨hu.step h, h.tokens_closed hx, Nat.lt_of_lt_of_le hl h.next_le, (h.below hl).trans hb⟩
    rw [htokens]
    exact ⟨hx₀.derive _, Tokens.lt_next_derive, Tokens.below_derive hmade⟩
  obtain ⟨hunder, hx, hl, hb⟩ := hinv
  have hrunCancelled : s.world.tokens.isCancelled s₀.world.tokens.next = true := hx hc hl hb
  obtain ⟨w, m, call, hw, ho, hctx⟩ := hu
  have hstands := ((hs₁.runs hrun).orderly.placed.calls hw ho).1
  rw [World.isCancelled, Context.isCancelled, hstands.handling hctx, hunder.workers hw]
  exact hrunCancelled

/-- Causal identity. Along every chain of hops through a broker the handlers see one identifier, the
    sender's if it has one that is not empty, and with it in the message; the sender's baggage without the
    member that has no name; one trace, the sender's if it has one; and what was sent. Had the router been
    started in contexts with nothing but their tokens, all would have gone the same way; and cancelling the
    context that it was started in cancels that of every handler. -/
theorem causal_identity {x : World} (hn : (Broker.start (Broker.defaultStages p) x).IsNew) (hx : x.tokens.Closed) :
    (∀ {c : Context} {ds : List Hop} {s : State}, Chain c (Broker.start (Broker.defaultStages p) x) ds s →
      ∃ id traceId flags, c.Names id traceId flags ∧ ∀ d ∈ ds, d.Keeps c id traceId flags) ∧
    (∀ {os : List Op} {s : State}, (∀ o ∈ os, o.OfBroker) →
      (Broker.start (Broker.defaultStages p) x).replay os = some s →
      (Broker.start (Broker.defaultStages p) x).replay (os.map Op.bare) = some s.bare ∧ s.bare.world = s.world) ∧
    ∀ {c ctx : Context} {s : State} {u : Nat}, BegunIn (Broker.start (Broker.defaultStages p) x) c s →
      s.world.isCancelled c = true → s.Handling u ctx → s.world.isCancelled ctx = true := by
  have hs : (Broker.start (Broker.defaultStages p) x).Conveying p := .start hn
  refine ⟨fun h => hs.chain h, fun {os s} hk hr => ⟨?_, s.bare_world⟩, fun h hc hu => hs.cancels hx h hc hu⟩
  have hbare := replay_bare hs.orderly hk
  rw [hr] at hbare
  exact hbare

def doneType : PayloadType := ⟨"done", "Done", fun _ => .ok [2], fun _ => .ok (.flag false)⟩

def relayBinding : Binding where
  role := .command
  type := Broker.flag
  name := "relay"
  play := fun _ _ _ => .send (doneType.outgoing .event (.flag false)) (.finish .ok)

def tallyBinding : Binding := { role := .event, type := doneType, name := "note", play := fun _ _ _ => .finish .ok }

def sender : Context := { token := 0, correlationId := some "c", baggage := (∅ : Dict).insert "a" "b" }

/-- A broker gets a command handler that sends an event, and a handler of that event, and is sent a command. -/
def sendingOne : List Op :=
  [Op.addHandlers .command { token := 0 } [relayBinding], .addHandlers .event { token := 0 } [tallyBinding], .token,
    .run { token := 0 }] ++ List.replicate 4 (Op.turn 0 .shutdown) ++
  [.send (Broker.flag.outgoing .command (.flag true)) sender]

/-- The publication of task `t` is accepted, and worker `u` takes the message to its handler. -/
def conveying (t u : Nat) : List Op := List.replicate 4 (.turn t .shutdown) ++ List.replicate 6 (.turn u .shutdown)

def sentOne : State := (Broker.sample.replay sendingOne).getD Broker.sample

def arrivedOnce : State := ((sentOne.turn 3 .shutdown).replay (conveying 3 1)).getD sentOne

/-- The command handler has been called, and is about to send the event. -/
def relayCalled : State := arrivedOnce.turn 1 .shutdown

def arrivedTwice : State := ((relayCalled.turn 1 .shutdown).replay (conveying 1 2)).getD relayCalled

theorem chain_of_two : ∃ d e, Chain sender Broker.sample [d, e] arrivedTwice ∧ d.input = .value (.flag true) ∧
    e.input = .value (.flag false) := by
  have h₁ : Runs Op.OfBroker Broker.sample sentOne :=
    Runs.refl.replay (by decide) (show Broker.sample.replay sendingOne = some sentOne from rfl)
  have h₂ : sentOne.Sending 3 sender (Broker.flag.outgoing .command (.flag true)) 0 :=
    ⟨.inl rfl, ⟨_, _, _, rfl, rfl⟩, ⟨_, _, _, _, rfl, rfl⟩⟩
  have h₃ : Runs Op.OfBroker (sentOne.turn 3 .shutdown) arrivedOnce :=
    Runs.refl.replay (by decide) (show (sentOne.turn 3 .shutdown).replay (conveying 3 1) = some arrivedOnce from rfl)
  have h₄ : ∃ m₀ ctx m, arrivedOnce.Calling 1 0 m₀ ⟨relayBinding.handler, ctx, m, .value (.flag true)⟩ ∧
      relayCalled.Sending 1 ctx (doneType.outgoing .event (.flag false)) 1 :=
    ⟨_, _, _, ⟨_, _, _, rfl, rfl, List.mem_cons_self, rfl, rfl, rfl, .inr ⟨_, _, rfl, rfl, rfl⟩⟩,
      .inr rfl, ⟨_, _, _, rfl, rfl⟩, ⟨_, _, _, _, rfl, rfl⟩⟩
  have h₅ : Runs Op.OfBroker arrivedOnce relayCalled :=
    Runs.refl.replay (by decide) (show arrivedOnce.replay [.turn 1 .shutdown] = some relayCalled from rfl)
  have h₆ : Runs Op.OfBroker (relayCalled.turn 1 .shutdown) arrivedTwice :=
    Runs.refl.replay (by decide)
      (show (relayCalled.turn 1 .shutdown).replay (conveying 1 2) = some arrivedTwice from rfl)
  have h₇ : ∃ m₀ ctx m, arrivedTwice.Calling 2 1 m₀ ⟨tallyBinding.handler, ctx, m, .value (.flag false)⟩ :=
    ⟨_, _, _, _, _, _, rfl, rfl, List.mem_cons_self, rfl, rfl, rfl, .inr ⟨_, _, rfl, rfl, rfl⟩⟩
  obtain ⟨m₀, ctx, m, h₄, h₄'⟩ := h₄
  obtain ⟨m₀', ctx', m', h₇⟩ := h₇
  exact ⟨⟨⟨_, ctx, m, _⟩, _⟩, ⟨⟨_, ctx', m', _⟩, _⟩, .hop h₁ h₂ h₃ h₄ (.hop h₅ h₄' h₆ h₇ .nil), rfl, rfl⟩

/-- Both handlers see the identifier and the baggage of the sender, and the same trace. -/
theorem causal_identity_of_two : Broker.sample.IsNew ∧ Broker.sample.world.tokens.Closed ∧
    ∃ d e, Chain sender Broker.sample [d, e] arrivedTwice ∧ d.context.correlationId = some "c" ∧
      e.context.correlationId = some "c" ∧ e.context.baggage = sender.baggage ∧
      d.context.trace.map (·.traceId) = e.context.trace.map (·.traceId) := by
  have hn : Broker.sample.IsNew := ⟨rfl, rfl, rfl, rfl, rfl, rfl⟩
  have hx : Broker.sample.world.tokens.Closed := Tokens.closed_empty
  obtain ⟨d, e, h, -, -⟩ := chain_of_two
  obtain ⟨id, traceId, flags, hnames, hkeeps⟩ := (causal_identity hn hx).1 h
  obtain rfl := hnames.correlation "c" rfl (by decide)
  have hd := hkeeps d List.mem_cons_self
  have he := hkeeps e (List.mem_cons_of_mem _ List.mem_cons_self)
  obtain ⟨span, hspan⟩ := hd.trace
  obtain ⟨span', hspan'⟩ := he.trace
  refine ⟨hn, hx, d, e, h, hd.correlation, he.correlation, he.baggage.trans ?_, ?_⟩
  · decide
  · rw [hspan, hspan']
    rfl

end State
end Relay
