import Relay.Proofs.Broker.Accounts
import Relay.Proofs.Broker.Chain
import Relay.Proofs.Isolation.Posting
import Relay.Proofs.Isolation.Tidy
import Relay.Proofs.Router.Supply

/-! What the rest of a broker leaves alone of one worker. Whatever the other handlers do, how often the worker's own
    handler has been called, which topics are refused and where identifiers are drawn from stay as they are, and as
    long as the exchange is open no publication fails on the way (`State.Upright.step`). -/

namespace Relay

/-! ### Calls -/

theorem World.Firm.setExchange {w : World} {port : Port} {e : Exchange} (ha : w.aside = none)
    (he : e.closed = w.exchange.closed) : w.Firm (w.setExchange port e) := by
  rw [World.setExchange_eq ha]
  exact ⟨rfl, rfl, rfl, he⟩

theorem World.Firm.publish {w w' : World} {port : Port} {topic : String} {batch : List Message} {pub : Nat}
    (ha : w.aside = none) (h : w.publish port topic batch = .ok (pub, w')) : w.Firm w' := by
  unfold World.publish at h
  split at h
  · cases h
  · cases h
    refine .setExchange ha ?_
    rw [World.exchangeOf_eq ha]

theorem World.Firm.fulfil {w : World} {ds : List Draft} : w.Firm (w.fulfil ds).2 := by
  obtain ⟨used, h⟩ := w.fulfil_eq ds
  rw [h]
  exact ⟨rfl, rfl, rfl, rfl⟩

namespace World

theorem calls_setExchange {w : World} {port : Port} {e : Exchange} : (w.setExchange port e).calls = w.calls := by
  unfold setExchange
  split <;> rfl

theorem calls_publish {w w' : World} {port : Port} {topic : String} {batch : List Message} {pub : Nat}
    (h : w.publish port topic batch = .ok (pub, w')) : w'.calls = w.calls := by
  unfold publish at h
  split at h <;> cases h
  exact calls_setExchange

theorem calls_fulfil {w : World} {ds : List Draft} : (w.fulfil ds).2.calls = w.calls := by
  obtain ⟨used, h⟩ := w.fulfil_eq ds
  rw [h]

end World

theorem Exchange.closed_advance (e : Exchange) (p : Nat) : (e.advance p).closed = e.closed :=
  Hub.closed_kept ⟨{}, e⟩ (o := .advance p) fun h => by cases h

namespace Call.Moves
variable {task : Nat} {w w' : World} {c c' : Call}

/-- No call closes the exchange or has topics refused. -/
theorem firm (h : c.Moves task w w' c') (ha : w.aside = none) : w.Firm w' := by
  have hdraws := h.grows.draws
  have same : ∀ {x : World}, x.transport = w.transport → x.aside = w.aside → x.ids.draws = w.ids.draws →
      x.exchange = w.exchange → w.Firm x := fun ht hs hd he => ⟨ht, hs, hd, he ▸ rfl⟩
  cases h with
  | unpublished _ _ => exact .fulfil
  | published _ hx => exact .trans .fulfil (.publish (World.Firm.fulfil.aside.trans ha) hx)
  | @sent _ v _ ctx _ _ _ _ _ hx =>
    have hfirm : w.Firm (posted task w ctx v).2.draw.2 := same rfl rfl (Context.startSpan_draws _ _) rfl
    exact hfirm.trans (.publish (hfirm.aside.trans ha) hx)
  | @delivers port pub _ _ _ _ _ _ =>
    refine .setExchange ha ?_
    rw [World.exchangeOf_eq ha]
    exact w.exchange.closed_advance pub
  | stays | unhandled _ _ | undecoded _ _ _ _ | refused _ _ _ _ | called _ _ _ _ | guarded _ | marked _ _ | unmarked _ _
  | restored _ | tried _ | passed _ _ | answered _ _ | dispatched _ | returned _ _ _ | brokeOff _ _ | slept _
  | cancelled _ | awaited _ | unwritten _ _ | unsent _ _ _ | woke _ _ | freed _ _ | delivered _ _ | undelivered _ _
  | aborted _ _ _ | retried _ _ _ _ | strayed _ _ | recovered _ _ | unwound _ _ _ | filtered _ _ _ | unretryable _ _ _
  | backsOff _ _ _ _ | exhausted _ _ _ _ | propagated _ _ _ | swallowed _ _ _ | left _ _ _ _ _ =>
    exact same rfl rfl hdraws rfl

/-- A call is counted on its own route only, and where it comes to a handler. -/
theorem calls_eq (h : c.Moves task w w' c') {r : Nat} (hr : c.handler = none ∨ c.route ≠ r) :
    w'.calls[r]? = w.calls[r]? := by
  have arrived : ∀ {hd : Handler}, c.handler = some hd → (c.arrived task w).calls[r]? = w.calls[r]? := fun hh =>
    List.getElem?_modify_ne (· + 1) w.calls (hr.resolve_left (by simp [hh]))
  cases h with
  | refused _ hh _ _ | called _ hh _ _ => exact arrived hh
  | unpublished _ _ => rw [World.calls_fulfil]
  | published _ hx => rw [World.calls_publish hx, World.calls_fulfil]
  | sent _ _ hx =>
    rw [World.calls_publish hx]
    rfl
  | delivers _ _ => rw [World.calls_setExchange]
  | stays | unhandled _ _ | undecoded _ _ _ _ | guarded _ | marked _ _ | unmarked _ _
  | restored _ | tried _ | passed _ _ | answered _ _ | dispatched _ | returned _ _ _ | brokeOff _ _ | slept _
  | cancelled _ | awaited _ | unwritten _ _ | unsent _ _ _ | woke _ _ | freed _ _ | delivered _ _ | undelivered _ _
  | aborted _ _ _ | retried _ _ _ _ | strayed _ _ | recovered _ _ | unwound _ _ _ | filtered _ _ _ | unretryable _ _ _
  | backsOff _ _ _ _ | exhausted _ _ _ _ | propagated _ _ _ | swallowed _ _ _ | left _ _ _ _ _ => rfl

/-- No token is lost in a call. -/
theorem next_le (h : c.Moves task w w' c') : w.tokens.next ≤ w'.tokens.next := by
  have htouches : w.Touches (fun _ => False) c.Writes task w' := h.touches
  obtain ⟨ops, hhub, -⟩ := htouches.hub
  show _ ≤ w'.hub.tokens.next
  rw [hhub]
  exact Hub.run_next_le w.hub ops

end Call.Moves

/-! ### Tasks -/

theorem Worker.Moves.firm {t : Nat} {x x' : World} {w w' : Worker} (h : w.Moves t x x' w') (ha : x.aside = none) :
    x.Firm x' := by
  cases h with
  | works _ _ hm => exact hm.firm ha
  | stays | takes _ _ _ _ | stops _ _ | succeeds _ _ | fails _ _ _ | breaksOff _ _ => exact ⟨rfl, rfl, rfl, rfl⟩

theorem Task.Moves.firm {s : State} {t : Nat} {k k' : Task} {x : World} {r : Router} {new : List Task}
    (h : k.Moves s t x r new k') (ha : s.world.aside = none) : s.world.Firm x := by
  cases h with
  | stays | learns _ | sent _ => exact .refl _
  | worker hm => exact hm.firm ha
  | run hm => exact hm.firm
  | close hm => exact hm.firm
  | call hm | errand _ hm => exact hm.firm ha
  | unsent _ => exact .note
  | rings _ => exact ⟨rfl, rfl, rfl, rfl⟩

theorem State.reported_calls (s : State) (t : Nat) (e : LifecycleError) : (s.reported t e).calls = s.world.calls := by
  unfold State.reported
  split <;> rfl

theorem Supervision.Moves.calls {s : State} {t : Nat} {v v' : Supervision} {x : World} {r : Router} {new : List Task}
    (h : v.Moves s t x r new v') : x.calls = s.world.calls := by
  cases h with
  | stays | skips _ _ | serves _ _ | joins _ _ _ _ | awaits _ _ _ | begins _ _ | drains _ _ | breaksOff _ _ _ => rfl
  | rejected _ _ => exact s.reported_calls t _
  | subscribes _ _ hs =>
    unfold World.subscribe at hs
    split at hs
    · cases hs
    · split at hs <;> cases hs
      exact World.calls_setExchange
  | declined _ _ _ hx =>
    subst hx
    exact State.reported_calls _ t _
  | finishes _ hx =>
    subst hx
    split <;> rfl

theorem Closing.Moves.calls {s : State} {t : Nat} {c c' : Closing} {x : World} {r : Router} (h : c.Moves s t x r c') :
    x.calls = s.world.calls := by
  cases h with
  | stays | tells _ _ | returns _ _ _ => rfl
  | rejected _ _ | fails _ _ _ => exact s.reported_calls t _

/-! ### Counters -/

theorem Call.Moves.counters_length {task : Nat} {w w' : World} {c c' : Call} (h : c.Moves task w w' c') :
    w'.counters.length = w.counters.length := by
  have still : ∀ {x : World}, w.Still x → x.counters.length = w.counters.length := fun hx => congrArg _ hx.counters
  cases h with
  | unpublished _ _ => exact still .fulfil
  | published _ hx => exact still (World.Still.fulfil.trans (.publish hx))
  | sent _ _ hx => exact congrArg List.length (World.Still.publish hx).counters
  | delivers _ _ => exact congrArg List.length World.Still.setExchange.counters
  | tried _ | aborted _ _ _ | retried _ _ _ _ | exhausted _ _ _ _ => exact List.length_modify ..
  | stays | unhandled _ _ | undecoded _ _ _ _ | refused _ _ _ _ | called _ _ _ _ | guarded _ | marked _ _ | unmarked _ _
  | restored _ | passed _ _ | answered _ _ | dispatched _ | returned _ _ _ | brokeOff _ _ | slept _ | cancelled _
  | awaited _ | unwritten _ _ | unsent _ _ _ | woke _ _ | freed _ _ | delivered _ _ | undelivered _ _ | strayed _ _
  | recovered _ _ | unwound _ _ _ | filtered _ _ _ | unretryable _ _ _ | backsOff _ _ _ _ | propagated _ _ _
  | swallowed _ _ _ | left _ _ _ _ _ => rfl

/-- No counter is ever taken away. -/
theorem State.Step.counters_le {s s' : State} {o : Op} (h : s.Step o s') (hp : s.Programs) :
    s.world.counters.length ≤ s'.world.counters.length := by
  cases h with
  | outside _ _ h =>
    cases h with
    | registers _ _ =>
      show _ ≤ (s.world.counters ++ _).length
      rw [List.length_append]
      exact Nat.le_add_right _ _
    | refuses | abandons _ _ => exact Nat.le_refl _
    | stirs hx | begins hx _ => exact Nat.le_of_eq (congrArg List.length hx.counters).symm
  | @turn t b k k' x r new ho _ ht hm =>
    refine Nat.le_of_eq (Eq.symm ?_)
    show x.counters.length = _
    by_cases hw : ∃ w, k = .worker w
    · obtain ⟨w, rfl⟩ := hw
      cases hm with
      | stays => rfl
      | worker hm =>
        cases hm with
        | works _ _ hm => exact hm.counters_length
        | stays | takes _ _ _ _ | stops _ _ | succeeds _ _ | fails _ _ _ | breaksOff _ _ => rfl
    · have hk : ∀ w, k ≠ .worker w := fun w he => hw ⟨w, he⟩
      exact congrArg List.length (rests_of_moves hm hk fun c hc => hp.program ht hk hc).counters
  | nobody _ _ _ => exact Nat.le_refl _

/-- Only turns of its own add to what comes to the handler of a task that is there. -/
theorem State.Step.arrivals {s s' : State} {o : Op} {u : Nat} (h : s.Step o s')
    (hn : ∀ b, o ≠ .turn u b) : s'.world.arrivals u = s.world.arrivals u := by
  cases h with
  | outside _ _ h =>
    cases h with
    | registers _ _ | abandons _ _ => exact World.arrivals_congr rfl
    | refuses => exact World.arrivals_note rfl
    | stirs hx | begins hx _ => exact World.arrivals_congr hx.journal
  | turn ho _ _ hm =>
    obtain ⟨new, hj, hnew⟩ := hm.touches.journal
    refine World.arrivals_of_append hj fun e he ht => ?_
    rw [(hnew e he).1] at ht
    exact absurd (ht ▸ ho) (hn _)
  | nobody _ _ _ => rfl

/-! ### The exchange -/

/-- As long as the exchange is open, no publication has failed. -/
def Exchange.Obliging (e : Exchange) : Prop := e.closed = false →
  ∀ {p : Nat} {q : Publication} {r : Option TransportError}, e.publications[p]? = some q → q.progress = .ended r →
    r = none

theorem Exchange.Obliging.step {h : Hub} (o : Hub.Op) (ho : h.exchange.Obliging) : (h.step o).exchange.Obliging := by
  intro hopen p q r hq hr
  by_cases hclose : o = .close
  · subst hclose
    exact absurd hopen (by simp [Hub.step])
  · rw [Hub.closed_kept h hclose] at hopen
    rcases Hub.publication_back hq with ⟨q₀, hq₀, ht⟩ | ⟨-, topic, batch, -, rfl⟩
    · cases ht with
      | stays => exact ho hopen hq₀ hr
      | refused _ hc | cutShort _ hc =>
        rw [hopen] at hc
        cases hc
      | unheard _ _ _ | finishes _ =>
        cases hr
        rfl
      | begins _ _ _ | proceeds _ | passes _ => cases hr
    · cases hr

theorem Exchange.Obliging.returned {e : Exchange} {p : Nat} {r : Option TransportError} (ho : e.Obliging)
    (hopen : e.closed = false) (h : e.returned? p = some r) : r = none := by
  obtain ⟨q, hq, hp⟩ := Exchange.ended_of_returned h
  exact ho hopen hq hp

/-- The exchange is closed, and a publication has not begun or has been told that. -/
def Exchange.Declines (e : Exchange) (p : Nat) : Prop :=
  e.closed = true ∧ ∃ q, e.publications[p]? = some q ∧ (q.progress = .fresh ∨ q.progress = .ended (some .closed))

theorem Exchange.Declines.step {h : Hub} {p : Nat} (hd : h.exchange.Declines p) (o : Hub.Op) :
    (h.step o).exchange.Declines p := by
  obtain ⟨hc, q, hq, hp⟩ := hd
  obtain ⟨q', hq', ht⟩ := Hub.turn hq o
  refine ⟨(Hub.step_evolves h o).closed hc, q', hq', ?_⟩
  cases ht with
  | stays => exact hp
  | refused _ _ => exact .inr rfl
  | unheard _ hopen _ | begins _ hopen _ =>
    rw [hc] at hopen
    cases hopen
  | finishes h | proceeds h | cutShort h _ | passes h =>
    rw [h] at hp
    rcases hp with hp | hp <;> cases hp

theorem Exchange.Declines.returned {e : Exchange} {p : Nat} {r : Option TransportError} (hd : e.Declines p)
    (h : e.returned? p = some r) : r = some .closed := by
  obtain ⟨-, q, hq, hp⟩ := hd
  obtain ⟨q', hq', hr⟩ := Exchange.ended_of_returned h
  rw [hq] at hq'
  cases hq'
  rw [hr] at hp
  rcases hp with hp | hp <;> cases hp
  rfl

/-- What a call begins to publish while the exchange is closed is turned away. -/
theorem Call.Moves.declines {task : Nat} {w w' : World} {c c' : Call} {port : Port} {pub n : Nat}
    {wrap : TransportError → Error} {q : Program} {ctx : Context} (h : c.Moves task w w' c') (hu : c.Unsent)
    (ha : w.aside = none) (hp : c'.phase = .sending port pub wrap n q ctx) (hc : w'.exchange.closed = true) :
    w'.exchange.Declines pub := by
  have begun : ∀ {x : World} {port : Port} {topic : String} {batch : List Message}, x.aside = none →
      x.publish port topic batch = .ok (pub, w') → w'.exchange.Declines pub := fun {x port topic batch} hx h => by
    refine ⟨hc, { topic, batch }, ?_, .inl rfl⟩
    unfold World.publish at h
    split at h <;> cases h
    rw [World.setExchange_eq hx, World.exchangeOf_eq hx]
    exact List.getElem?_concat_length
  cases h with
  | stays | delivers _ _ => exact absurd hp (hu _ _ _ _ _ _)
  | published _ hx =>
    cases hp
    exact begun (World.Firm.fulfil.aside.trans ha) hx
  | sent _ _ hx =>
    cases hp
    exact begun (x := (posted task w _ _).2.draw.2) ha hx
  | unhandled _ _ | undecoded _ _ _ _ | refused _ _ _ _ | called _ _ _ _ | guarded _ | marked _ _ | unmarked _ _
  | restored _ | tried _ | passed _ _ | answered _ _ | dispatched _ | returned _ _ _ | brokeOff _ _ | slept _
  | cancelled _ | awaited _ | unpublished _ _ | unwritten _ _ | unsent _ _ _ | woke _ _ | freed _ _ | delivered _ _
  | undelivered _ _ | aborted _ _ _ | retried _ _ _ _ | strayed _ _ | recovered _ _ | unwound _ _ _ | filtered _ _ _
  | unretryable _ _ _ | backsOff _ _ _ _ | exhausted _ _ _ _ | propagated _ _ _ | swallowed _ _ _
  | left _ _ _ _ _ => cases hp

/-! ### What is done from the outside -/

namespace State
variable {s s' : State} {o : Op} {u : Nat} {policy : RetryPolicy}

/-- A step that is not the turn of a task has no topics refused, and does not count calls once the router has been
    started; time passes by a tick only. -/
theorem apply_firm (hn : ∀ t b, o ≠ .turn t b) (hk : o.OfBroker) (hc : o ≠ .closeExchange) (ha : s.world.aside = none) :
    s.world.Firm (s.apply o).world ∧ (s.router.started = true → (s.apply o).world.calls = s.world.calls) ∧
      ((∀ ms, o ≠ .tick ms) → (s.apply o).world.clock = s.world.clock) := by
  have same : ∀ {x : World}, x.transport = s.world.transport → x.aside = s.world.aside →
      x.ids.draws = s.world.ids.draws → x.exchange.closed = s.world.exchange.closed → x.calls = s.world.calls →
      x.clock = s.world.clock →
      s.world.Firm x ∧ (s.router.started = true → x.calls = s.world.calls) ∧
        ((∀ ms, o ≠ .tick ms) → x.clock = s.world.clock) :=
    fun ht hs hd he hc hclock => ⟨⟨ht, hs, hd, he⟩, fun _ => hc, fun _ => hclock⟩
  cases o with
  | turn t b => exact absurd rfl (hn t b)
  | closeExchange => exact absurd rfl hc
  | call _ _ _ _ | addStage _ => exact hk.elim
  | addRoutes rs =>
    cases hr : s.router.addRoutes rs with
    | ok r =>
      rw [apply, hr]
      refine ⟨⟨rfl, rfl, rfl, rfl⟩, fun hst => ?_, fun _ => rfl⟩
      rw [(addRoutes_ok hr).1] at hst
      cases hst
    | error e =>
      rw [apply, hr]
      exact same rfl rfl rfl rfl rfl rfl
  | addHandlers role c bs =>
    rcases s.addHandlers_cases role c bs with ⟨r, hr, h⟩ | ⟨e, -, h | ⟨id, h⟩⟩
    · rw [apply, h]
      refine ⟨⟨rfl, rfl, rfl, rfl⟩, fun hst => ?_, fun _ => rfl⟩
      rw [(admit_grows hr).1] at hst
      cases hst
    · rw [apply, h]
      exact same rfl rfl rfl rfl rfl rfl
    · rw [apply, h]
      exact same rfl rfl rfl rfl rfl rfl
  | tick ms => exact ⟨⟨rfl, rfl, rfl, rfl⟩, fun _ => rfl, fun h => absurd rfl (h ms)⟩
  | token | derive _ | cancel _ | run _ | close | awaitStart | publish _ _ | alarm _ _ =>
    exact same rfl rfl rfl rfl rfl rfl
  | abandon t =>
    dsimp only [apply]
    split <;> exact same rfl rfl rfl rfl rfl rfl
  | send v c =>
    dsimp only [apply]
    split <;> exact same rfl rfl rfl rfl rfl rfl
  | subscribe t topic =>
    dsimp only [apply]
    split
    · rename_i sub x hx
      unfold World.subscribe at hx
      split at hx
      · cases hx
      · split at hx
        · cases hx
        · rename_i e he
          cases hx
          obtain ⟨-, -, rfl⟩ := Hub.subscribe_cases he
          rw [World.exchangeOf_eq ha, World.setExchange_eq ha]
          exact same rfl rfl rfl rfl rfl rfl
    · exact same rfl rfl rfl rfl rfl rfl
  | poll sub =>
    dsimp only [apply, withExchange, plainExchange]
    rw [World.exchangeOf_eq ha, World.setExchange_eq ha]
    exact same rfl rfl rfl (Hub.closed_kept s.world.hub (o := .poll sub) fun h => by cases h) rfl rfl
  | drop sub =>
    dsimp only [apply, withExchange, plainExchange]
    rw [World.exchangeOf_eq ha, World.setExchange_eq ha]
    exact same rfl rfl rfl rfl rfl rfl

theorem closeExchange_world (ha : s.world.aside = none) :
    (s.apply .closeExchange).world = { s.world with exchange := s.world.exchange.close } := by
  dsimp only [apply, withExchange, plainExchange]
  rw [World.exchangeOf_eq ha, World.setExchange_eq ha]

/-! ### Brokers at work -/

/-- A broker as far as one of its workers relies on it. -/
structure Upright (drawn : Uuid → Prop) (transport : Transport) (policy : RetryPolicy) (s : State) : Prop where
  orderly : s.Orderly policy
  routed : ∀ {v : Nat} {w : Worker} {m : Message} {c : Call}, s.tasks[v]? = some (.worker w) →
    w.occupation = .busy m c → c.route = w.route
  aside : s.world.aside = none
  transport : s.world.transport = transport
  hidden : s.world.ids.Hidden drawn
  obliging : s.world.exchange.Obliging
  counts : Broker.retryPlace < s.world.counters.length

namespace Upright
variable {drawn : Uuid → Prop} {transport : Transport}

theorem start {ids : Supply} {capacity : Option Nat} (hd : ids.Hidden drawn) :
    (Broker.start (Broker.defaultStages policy) (.start ids capacity transport)).Upright drawn transport policy where
  orderly := .start policy _
  routed hw := by cases hw
  aside := rfl
  transport := rfl
  hidden := hd
  obliging _ _ _ _ hq := by cases hq
  counts := Nat.lt_succ_self _

theorem firm (hs : s.Upright drawn transport policy) (hk : o.OfBroker) (hc : o ≠ .closeExchange) (ha : s.Allows o) :
    s.world.Firm (s.apply o).world := by
  by_cases hn : ∃ t b, o = .turn t b
  · obtain ⟨t', b, rfl⟩ := hn
    have h := apply_step ha
    generalize s.apply (.turn t' b) = s' at h
    cases h with
    | outside hn _ _ => exact absurd rfl (hn t' b)
    | turn _ _ _ hm => exact hm.firm hs.aside
    | nobody _ _ _ => exact .refl _
  · exact (apply_firm (fun t b he => hn ⟨t, b, he⟩) hk hc hs.aside).1

/-- The calls of a worker are counted in its own turns only. -/
theorem calls (hs : s.Upright drawn transport policy) (hk : o.OfBroker) (ha : s.Allows o) {w : Worker}
    (hw : s.tasks[u]? = some (.worker w)) (hn : ∀ b, o ≠ .turn u b) :
    (s.apply o).world.calls[w.route]? = s.world.calls[w.route]? := by
  obtain ⟨t, base, run, hserving⟩ := hs.orderly.course.serving_of_worker hw
  by_cases hturn : ∃ t b, o = .turn t b
  · obtain ⟨t', b, rfl⟩ := hturn
    have hne : t' ≠ u := fun he => hn b (by rw [he])
    have h := apply_step ha
    generalize s.apply (.turn t' b) = s' at h
    cases h with
    | outside hn _ _ => exact absurd rfl (hn t' b)
    | nobody _ _ _ => rfl
    | turn ho _ hj hm =>
      cases ho
      cases hm with
      | stays | learns _ | unsent _ | sent _ | rings _ => rfl
      | run hm => exact congrArg (·[w.route]?) hm.calls
      | close hm => exact congrArg (·[w.route]?) hm.calls
      | call hm => exact hm.calls_eq (.inl (hs.orderly.placed.programs hj).handler)
      | errand _ hm => exact hm.calls_eq (.inl (hs.orderly.placed.errands hj).handler)
      | worker hm =>
        cases hm with
        | works ho' _ hm =>
          refine hm.calls_eq (.inr fun he => hne ?_)
          rw [(hserving.serves hj).1, (hserving.serves hw).1, ← he, hs.routed hj ho']
        | stays | takes _ _ _ _ | stops _ _ | succeeds _ _ | fails _ _ _ | breaksOff _ _ => rfl
  · by_cases hc : o = .closeExchange
    · rw [hc, closeExchange_world hs.aside]
    · rw [(apply_firm (fun t b he => hturn ⟨t, b, he⟩) hk hc hs.aside).2.1 hserving.started]

theorem clock (hs : s.Upright drawn transport policy) (hk : o.OfBroker) (ha : s.Allows o) (hn : ∀ ms, o ≠ .tick ms) :
    (s.apply o).world.clock = s.world.clock := by
  by_cases hturn : ∃ t b, o = .turn t b
  · obtain ⟨t', b, rfl⟩ := hturn
    have h := apply_step ha
    generalize s.apply (.turn t' b) = s' at h
    cases h with
    | outside hn _ _ => exact absurd rfl (hn t' b)
    | turn _ _ _ hm => exact hm.touches.clock
    | nobody _ _ _ => rfl
  · by_cases hc : o = .closeExchange
    · rw [hc, closeExchange_world hs.aside]
    · exact (apply_firm (fun t b he => hturn ⟨t, b, he⟩) hk hc hs.aside).2.2 hn

theorem step (hs : s.Upright drawn transport policy) (hk : o.OfBroker) (ha : s.Allows o) :
    (s.apply o).Upright drawn transport policy := by
  have h := apply_step ha
  obtain ⟨haside, htransport, hdraws⟩ : (s.apply o).world.aside = s.world.aside ∧
      (s.apply o).world.transport = s.world.transport ∧ (s.apply o).world.ids.draws = s.world.ids.draws := by
    by_cases hc : o = .closeExchange
    · rw [hc, closeExchange_world hs.aside]
      exact ⟨rfl, rfl, rfl⟩
    · have hfirm := hs.firm hk hc ha
      exact ⟨hfirm.aside, hfirm.transport, hfirm.draws⟩
  refine ⟨hs.orderly.step hk h, fun {v w' m c} hw' ho => ?_, haside.trans hs.aside,
    htransport.trans hs.transport, fun n => hdraws ▸ hs.hidden n,
    h.exchange (P := Exchange.Obliging) (fun o => Exchange.Obliging.step o) hs.obliging,
    Nat.lt_of_lt_of_le hs.counts (h.counters_le hs.orderly.placed.others)⟩
  rcases h.worker_from hw' with ⟨b, w, -, hw, hm⟩ | ⟨-, hw | ⟨_, _, _, _, _, _, -, -, -, -, hidle⟩⟩
  · generalize (s.apply o).world = x at hm
    cases hm with
    | stays => exact hs.routed hw ho
    | takes _ _ _ _ =>
      cases ho
      rfl
    | works ho' _ hm =>
      cases ho
      have hroute := hs.routed hw ho'
      exact hm.same.2.trans hroute
    | stops _ _ | succeeds _ _ | fails _ _ _ | breaksOff _ _ => cases ho
  · exact hs.routed hw ho
  · rw [hidle] at ho
    cases ho

theorem runs (hs : s.Upright drawn transport policy) (h : Runs Op.OfBroker s s') :
    s'.Upright drawn transport policy := by
  induction h with
  | refl => exact hs
  | step _ hk ha ih => exact ih.step hk ha

end Upright
end State
end Relay
