import Relay.Proofs.Broker.Chain
import Relay.Proofs.Causal.Fields
import Relay.Proofs.Router.Reception

/-! Hops. A value that is sent in a context comes to a handler as a message, and the handler sends the next
    one in the context that it is given. The stages of a broker put the context of the message in place of
    that of the worker, so each context follows the one before and nothing of the context of the start is
    left in it but its token. -/

namespace Relay

/-! ### On the way in -/

/-- A context in which a handler is called for a message: what the message says, perhaps in a new span. -/
inductive Context.Restored (tok : Token) (m : Message) : Context → Prop where
  | plain : Restored tok m (extract { token := tok } m.metadata)
  | spanned {ids : Supply} : Restored tok m ((extract { token := tok } m.metadata).startSpan ids).1

/-- What has become of message `m₀`, and of the context around it, behind the first `n` stages of a broker. -/
inductive Message.Passes (m₀ : Message) (tok : Token) : Nat → Context → Message → Prop where
  | outside {n : Nat} {ctx : Context} : n ≤ 1 → Passes m₀ tok n ctx m₀
  | identified {ctx : Context} {m : Message} : m₀.Identified m → Passes m₀ tok 2 ctx m
  | restored {n : Nat} {m : Message} : n = 3 ∨ n = 4 → m₀.Identified m →
      Passes m₀ tok n (extract { token := tok } m.metadata) m
  | spanned {ids : Supply} {m : Message} : m₀.Identified m →
      Passes m₀ tok 5 ((extract { token := tok } m.metadata).startSpan ids).1 m

namespace Message.Passes
variable {m₀ m : Message} {tok : Token} {n : Nat} {ctx : Context}

theorem same (h : m₀.Passes tok n ctx m) (hn : n ≤ 1) : m = m₀ := by
  cases h with
  | outside _ => rfl
  | identified _ | restored _ _ | spanned _ => omega

theorem marked (h : m₀.Passes tok n ctx m) (hn : 2 ≤ n) : m₀.Identified m := by
  cases h with
  | outside _ => omega
  | identified hi | restored _ hi | spanned hi => exact hi

theorem placed (h : m₀.Passes tok n ctx m) (hn : n = 3 ∨ n = 4) : ctx = extract { token := tok } m.metadata := by
  cases h with
  | restored _ _ => rfl
  | outside _ | identified _ | spanned _ => omega

theorem given (h : m₀.Passes tok n ctx m) (hn : 3 ≤ n) : Context.Restored tok m ctx := by
  cases h with
  | restored _ _ => exact .plain
  | spanned _ => exact .spanned
  | outside _ | identified _ => omega

end Message.Passes

theorem World.publish_router {w w' : World} {topic : String} {batch : List Message} {pub : Nat}
    (h : w.publish .router topic batch = .ok (pub, w')) :
    ∃ q, w'.exchange.publications[pub]? = some q ∧ q.topic = topic ∧ q.batch = batch := by
  unfold publish at h
  split at h
  · cases h
  · cases h
    exact ⟨_, List.getElem?_concat_length, rfl, rfl⟩

namespace Call
variable {p : RetryPolicy} {stages : List Stage} {tok : Token} {m₀ : Message} {task : Nat} {w w' : World} {c c' : Call}

/-- A call that is under way for message `m₀`. -/
structure Carries (tok : Token) (m₀ : Message) (c : Call) : Prop where
  entering : ∀ {rest : List Stage} {ctx : Context} {m : Message}, c.phase = .entering rest ctx m →
    m₀.Passes tok c.frames.length ctx m
  retrying : ∀ {policy : RetryPolicy} {attempt : Nat} {ctx : Context} {m : Message} {rest : List Stage},
    .retry policy attempt ctx m rest ∈ c.frames → m₀.Passes tok 4 ctx m

namespace Carries

theorem start {route : Nat} {h : Handler} {ctx : Context} : (Call.start route stages h ctx m₀).Carries tok m₀ where
  entering hp := by
    cases hp
    exact .outside (Nat.zero_le 1)
  retrying hf := nomatch hf

/-- It is no longer on its way in. -/
theorem goto {phase : Phase} (h : c.Carries tok m₀) (hp : ∀ rest ctx m, phase ≠ .entering rest ctx m) :
    (c.goto phase).Carries tok m₀ := ⟨fun he => absurd he (hp _ _ _), h.retrying⟩

theorem pop {f : Frame} {outer : List Frame} {o : Outcome} (h : c.Carries tok m₀) (hf : c.frames = f :: outer) :
    (c.pop outer o).Carries tok m₀ := ⟨nofun, fun hm => h.retrying (hf ▸ List.mem_cons_of_mem f hm)⟩

theorem push {f : Frame} {rest : List Stage} {ctx : Context} {m : Message} {n : Nat} (h : c.Carries tok m₀)
    (hn : c.frames.length = n) (hp : m₀.Passes tok (n + 1) ctx m)
    (hf : ∀ policy attempt ctx m rest, f = .retry policy attempt ctx m rest → m₀.Passes tok 4 ctx m) :
    (c.push f rest ctx m).Carries tok m₀ where
  entering he := by
    cases he
    subst hn
    exact hp
  retrying hm := by
    rcases List.mem_cons.mp hm with he | hm
    · exact hf _ _ _ _ _ he.symm
    · exact h.retrying hm

end Carries

theorem Moves.carries (h : c.Moves task w w' c') (hb : Broker.IsChain p stages) (hs : c.Stands tok stages)
    (hc : c.Carries tok m₀) : c'.Carries tok m₀ := by
  cases h with
  | stays | delivers _ _ => exact hc
  | guarded hp =>
    have hn : c.frames.length = 0 := hb.place (hs.entering hp).1
    cases (hc.entering hp).same (by omega)
    exact hc.push hn (.outside (Nat.le_refl 1)) (by simp)
  | marked hp hid =>
    have hn : c.frames.length = 1 := hb.place (hs.entering hp).1
    cases (hc.entering hp).same (by omega)
    exact hc.push hn (.identified (.new hid)) (by simp)
  | unmarked hp hid =>
    have hn : c.frames.length = 1 := hb.place (hs.entering hp).1
    cases (hc.entering hp).same (by omega)
    exact hc.push hn (.identified (.kept hid)) (by simp)
  | restored hp =>
    obtain ⟨he, ht⟩ := hs.entering hp
    have hn : c.frames.length = 2 := hb.place he
    rw [ht]
    exact hc.push hn (.restored (.inl rfl) ((hc.entering hp).marked (by omega))) (by simp)
  | tried hp =>
    have hn : c.frames.length = 3 := hb.place (hs.entering hp).1
    have hpass := hc.entering hp
    obtain rfl := hpass.placed (.inl hn)
    have hnext : m₀.Passes tok 4 _ _ := .restored (.inr rfl) (hpass.marked (by omega))
    refine hc.push hn hnext fun _ _ _ _ _ he => ?_
    cases he
    exact hnext
  | dispatched hp =>
    have hn : c.frames.length = 4 := hb.place (hs.entering hp).1
    have hpass := hc.entering hp
    obtain rfl := hpass.placed (.inr hn)
    exact hc.push hn (.spanned (hpass.marked (by omega))) (by simp)
  | passed hp _ | answered hp _ => exact absurd ((hs.entering hp).1.suffix.mem List.mem_cons_self) (hb.not_filter _)
  | retried hp hf _ _ =>
    obtain ⟨_, _, _, _, _, _, -, he⟩ := hs.backoff hp
    rw [hf] at he
    have hmem : Frame.retry _ _ _ _ _ ∈ c.frames := hf ▸ List.mem_cons_self
    have hpass := hc.retrying hmem
    refine ⟨fun hp' => ?_, fun hm => ?_⟩
    · cases hp'
      cases he with
      | retry he _ =>
        have hn := hb.place he
        show m₀.Passes tok (_ + 1) _ _
        rw [hn]
        exact hpass
    · rcases List.mem_cons.mp hm with he | hm
      · cases he
        exact hpass
      · exact hc.retrying (hf ▸ List.mem_cons_of_mem _ hm)
  | unhandled _ _ | undecoded _ _ _ _ | refused _ _ _ _ | called _ _ _ _ | returned _ _ _ | brokeOff _ _ | slept _
  | cancelled _ | awaited _ | unpublished _ _ | published _ _ | unwritten _ _ | unsent _ _ _ | sent _ _ _ | woke _ _
  | freed _ _ | delivered _ _ | undelivered _ _ | strayed _ _ | backsOff _ _ _ _ => exact hc.goto (by simp)
  | aborted _ hf _ | recovered _ hf | unwound _ hf _ | filtered _ _ hf | unretryable _ hf _ | exhausted _ hf _ _
  | propagated _ hf _ | swallowed _ hf _ | left _ hf _ _ _ => exact hc.pop hf

/-- A call that sends a value goes on with the publication of its message. -/
theorem Moves.posts {v : Outgoing} {ctx ctx' : Context} {n n' pub : Nat} {next next' : Program} {port : Port}
    {wrap : TransportError → Error} (h : c.Moves task w w' c') (hp : c.phase = .acting n (.send v next) ctx)
    (hp' : c'.phase = .sending port pub wrap n' next' ctx') : ∃ q m, w'.exchange.publications[pub]? = some q ∧
      q.topic = v.topic ∧ q.batch = [m] ∧ v.Posts ctx (m.onTopic v.topic) := by
  cases h with
  | @sent n₁ v₁ next₁ ctx₁ m pub₁ _ hp₁ hm hw =>
    rw [hp] at hp₁
    cases hp₁
    cases hp'
    obtain ⟨q, hq, htopic, hbatch⟩ := World.publish_router hw
    unfold marshal at hm
    cases hb : v.written with
    | error reason =>
      rw [hb] at hm
      cases hm
    | ok bytes =>
      rw [hb] at hm
      obtain rfl := Except.ok.inj hm
      exact ⟨q, _, hq, htopic, hbatch, _, bytes, w.ids, hb, rfl⟩
  | unwritten _ _ | unsent _ _ _ => cases hp'
  | stays =>
    rw [hp] at hp'
    cases hp'
  | unhandled hp₁ _ | undecoded hp₁ _ _ _ | refused hp₁ _ _ _ | called hp₁ _ _ _ | guarded hp₁ | marked hp₁ _
  | unmarked hp₁ _ | restored hp₁ | tried hp₁ | passed hp₁ _ | answered hp₁ _ | dispatched hp₁ | returned hp₁ _ _
  | brokeOff hp₁ _ | slept hp₁ | cancelled hp₁ | awaited hp₁ | unpublished hp₁ _ | published hp₁ _ | woke hp₁ _
  | freed hp₁ _ | delivered hp₁ _ | undelivered hp₁ _ | delivers hp₁ _ | aborted hp₁ _ _ | retried hp₁ _ _ _
  | strayed hp₁ _ | recovered hp₁ _ | unwound hp₁ _ _ | filtered hp₁ _ _ | unretryable hp₁ _ _ | backsOff hp₁ _ _ _
  | exhausted hp₁ _ _ _ | propagated hp₁ _ _ | swallowed hp₁ _ _ | left hp₁ _ _ _ _ =>
    rw [hp] at hp₁
    cases hp₁

end Call

/-! ### The way of a message through a broker -/

theorem Worker.Moves.carries {p : RetryPolicy} {t : Nat} {x x' : World} {w w' : Worker} {m : Message} {c : Call}
    (h : w.Moves t x x' w') (hb : Broker.IsChain p w.stages)
    (hc : ∀ {m : Message} {c : Call}, w.occupation = .busy m c →
      c.Stands w.context.token w.stages ∧ c.Carries w.context.token m)
    (ho' : w'.occupation = .busy m c) : c.Carries w'.context.token m := by
  cases h with
  | stays => exact (hc ho').2
  | takes _ _ _ _ =>
    cases ho'
    exact .start
  | works ho _ hm =>
    cases ho'
    obtain ⟨hs, hc⟩ := hc ho
    exact hm.carries hb hs hc
  | stops _ _ | succeeds _ _ | fails _ _ _ | breaksOff _ _ => cases ho'

/-- What a handler is called with, and the message as it is then. -/
structure Delivery where
  handler : Handler
  context : Context
  message : Message
  input : Input

/-- A value that is sent, and what comes of it at a handler. -/
structure Hop extends Delivery where
  sent : Outgoing

namespace State
variable {p : RetryPolicy} {s s' s₁ s₂ : State} {o : Op} {t u pub : Nat} {c : Context} {v : Outgoing}

/-- The calls of the workers carry the messages that the workers have taken. -/
def Carrying (s : State) : Prop :=
  ∀ {t : Nat} {w : Worker} {m : Message} {c : Call}, s.tasks[t]? = some (.worker w) → w.occupation = .busy m c →
    c.Carries w.context.token m

theorem Carrying.step (hc : s.Carrying) (hi : s.Orderly p) (h : s.Step o s') : s'.Carrying := by
  intro t w' m c hw' ho'
  rcases h.worker_from hw' with ⟨b, w, -, hw, hm⟩ | ⟨-, hw | ⟨_, _, _, _, _, _, -, -, -, -, hidle⟩⟩
  · exact hm.carries (hi.chained.stages_of_worker hi.course hw) (fun ho => ⟨(hi.placed.calls hw ho).1, hc hw ho⟩) ho'
  · exact hc hw ho'
  · rw [hidle] at ho'
    cases ho'

/-- What holds of a broker at any time, with the messages on their way through it. -/
structure Conveying (p : RetryPolicy) (s : State) : Prop where
  orderly : s.Orderly p
  carrying : s.Carrying
  faithful : s.world.exchange.Faithful

theorem Conveying.start {x : World} (hn : (Broker.start (Broker.defaultStages p) x).IsNew) :
    (Broker.start (Broker.defaultStages p) x).Conveying p :=
  ⟨.start p x, fun hw => (nomatch hw), hn.faithful⟩

theorem Conveying.runs (hs : s.Conveying p) (h : Runs Op.OfBroker s s') : s'.Conveying p :=
  h.keeps hs fun hk h hs => ⟨hs.orderly.step hk h, Carrying.step hs.carrying hs.orderly h,
    h.exchange (P := Exchange.Faithful) (fun o hx => hx.step o) hs.faithful⟩

theorem Conveying.turns {b : Branch} (hs : s.Conveying p) (ha : s.Allows (.turn t b)) : (s.turn t b).Conveying p :=
  hs.runs (.step .refl (show Op.OfBroker (.turn t b) from trivial) ha)

/-- The call that a task is in. -/
def call? (s : State) (t : Nat) : Option Call := s.tasks[t]?.bind Task.call?

/-- Task `t` sends a value in a context with its next step, which makes publication `pub`. -/
structure Sending (s : State) (t : Nat) (c : Context) (v : Outgoing) (pub : Nat) : Prop where
  allowed : s.Allows (.turn t .shutdown)
  before : ∃ call n next, s.call? t = some call ∧ call.phase = .acting n (.send v next) c
  after : ∃ call n next wrap, (s.turn t .shutdown).call? t = some call ∧
    call.phase = .sending .router pub wrap n next c

/-- Worker `u`, which has message `m₀` from publication `pub`, calls its handler next. -/
def Calling (s : State) (u pub : Nat) (m₀ : Message) (d : Delivery) : Prop :=
  ∃ w sub call, s.tasks[u]? = some (.worker w) ∧ s.world.exchange.subscriptions[w.subscription]? = some sub ∧
    (pub, m₀) ∈ sub.accepted ∧ w.occupation = .busy m₀ call ∧ call.phase = .entering [] d.context d.message ∧
    call.handler = some d.handler ∧ d.handler.Given d.message d.input

/-- A chain of hops from state `s` on: a value is sent in context `c` and comes to a handler, the next one is
    sent in the context that the handler is given, and so on. -/
inductive Chain : Context → State → List Hop → State → Prop where
  | nil {c : Context} {s : State} : Chain c s [] s
  | hop {c : Context} {s s₁ s₂ s' : State} {t u pub : Nat} {m₀ : Message} {d : Hop} {ds : List Hop} :
      Runs Op.OfBroker s s₁ → s₁.Sending t c d.sent pub → Runs Op.OfBroker (s₁.turn t .shutdown) s₂ →
      s₂.Calling u pub m₀ d.toDelivery → Chain d.context s₂ ds s' → Chain c s (d :: ds) s'

theorem Sending.publication (h : s.Sending t c v pub) :
    ∃ q m, (s.turn t .shutdown).world.exchange.publications[pub]? = some q ∧ q.topic = v.topic ∧ q.batch = [m] ∧
      v.Posts c (m.onTopic v.topic) := by
  obtain ⟨ha, ⟨call, n, next, hcall, hp⟩, call', n', next', wrap, hcall', hp'⟩ := h
  obtain ⟨k, hk, hcall⟩ := Option.bind_eq_some_iff.mp hcall
  have hstep : s.Step (.turn t .shutdown) (s.turn t .shutdown) := apply_step ha
  rcases hstep.own hk with ⟨b, k', x, r, new, active, -, hm, hs', hk'⟩ | ⟨hn, -⟩
  · rw [hs']
    rw [call?, hk', Option.bind_some] at hcall'
    cases hm with
    | stays =>
      rw [hcall] at hcall'
      cases hcall'
      rw [hp] at hp'
      cases hp'
    | @worker w w' x hm =>
      cases hm with
      | works ho _ hm =>
        rw [Task.call?, ho] at hcall
        cases hcall
        cases hcall'
        exact hm.posts hp hp'
      | stays =>
        rw [hcall] at hcall'
        cases hcall'
        rw [hp] at hp'
        cases hp'
      | takes ho _ _ _ | stops ho _ =>
        rw [Task.call?, ho] at hcall
        cases hcall
      | succeeds _ _ | fails _ _ _ | breaksOff _ _ => cases hcall'
    | call hm | errand _ hm =>
      cases hcall
      cases hcall'
      exact hm.posts hp hp'
    | unsent _ | sent _ =>
      cases hcall
      cases hcall'
      rw [hp] at hp'
      cases hp'
    | run _ | close _ | learns _ | rings _ => cases hcall
  · exact absurd rfl (hn _)

end State

theorem Context.Restored.correlation {tok : Token} {m : Message} {ctx : Context} (h : Context.Restored tok m ctx) :
    ctx.correlationId = m.metadata.get? correlationKey := by
  have hplain : (extract { token := tok } m.metadata).correlationId = m.metadata.get? correlationKey := Option.or_none
  cases h with
  | plain => exact hplain
  | spanned =>
    unfold startSpan
    split <;> exact hplain

/-- A span does not break off what is carried on. -/
theorem Context.Restored.follows {tok : Token} {m : Message} {c ctx : Context} (h : Context.Restored tok m ctx)
    (hf : c.Follows (extract { token := tok } m.metadata)) : c.Follows ctx := by
  cases h with
  | plain => exact hf
  | spanned => exact hf.startSpan

namespace State
variable {p : RetryPolicy} {s s₁ s₂ : State} {t u pub : Nat} {m₀ : Message} {c : Context} {d : Delivery} {v : Outgoing}

/-- A worker calls its handler in the context that the message says. -/
theorem Conveying.calling (hs : s.Conveying p) (h : s.Calling u pub m₀ d) : ∃ w, s.tasks[u]? = some (.worker w) ∧
    m₀.Identified d.message ∧ Context.Restored w.context.token d.message d.context := by
  obtain ⟨w, sub, call, hw, -, -, ho, hp, -, -⟩ := h
  obtain ⟨hstands, -⟩ := hs.orderly.placed.calls hw ho
  have hl := (hstands.entering hp).1.length
  have hstages := (hs.orderly.chained.stages_of_worker hs.orderly.course hw).length
  have hpasses := (hs.carrying hw ho).entering hp
  rw [List.length_nil, Nat.add_zero] at hl
  exact ⟨w, hw, hpasses.marked (by omega), hpasses.given (by omega)⟩

/-- The handler is called with what was sent, in a context that follows that of the sender. -/
theorem Conveying.hop (hs : s₂.Conveying p) (hsend : s₁.Sending t c v pub)
    (hrun : Runs Op.OfBroker (s₁.turn t .shutdown) s₂) (hcall : s₂.Calling u pub m₀ d) :
    c.Follows d.context ∧ d.context.correlationId = d.message.metadata.get? correlationKey ∧
      v.written = .ok d.message.payload := by
  obtain ⟨q, m, hq, htopic, hbatch, hposts⟩ := hsend.publication
  have hevolves : (s₁.turn t .shutdown).world.exchange.Evolves s₂.world.exchange :=
    hrun.keeps (P := fun s => (s₁.turn t .shutdown).world.exchange.Evolves s.world.exchange) (.refl _)
      fun _ h he => he.trans h.evolves
  obtain ⟨q', hq', htopic', hbatch'⟩ := hevolves.publication hq
  obtain ⟨w, -, hid, hrestored⟩ := hs.calling hcall
  obtain ⟨w', sub, call, -, hsub, haccepted, -⟩ := hcall
  -- The message is the one that was published, so it is the one that was sent.
  obtain rfl : m₀ = m.onTopic v.topic := by
    obtain ⟨q'', hq'', ht'', m', hm', he⟩ := hs.faithful.sound.published hsub _ haccepted
    rw [hq'] at hq''
    cases hq''
    rw [hbatch', hbatch, List.mem_singleton] at hm'
    subst hm'
    exact he.trans (by rw [← ht'', htopic', htopic])
  refine ⟨hrestored.follows (hposts.follows hid), hrestored.correlation, ?_⟩
  · obtain ⟨id, bytes, ids, hwritten, he⟩ := hposts
    rw [hwritten, hid.payload, he]
    rfl

end State
end Relay
