import Relay.Proofs.Broker.Chain
import Relay.Proofs.Poison.Sitting
import Relay.Proofs.Survival.Unwinding

/-! Messages that a handler cannot read. A call for one goes through the stages without a wait, up to where the payload
    is read, and out again: the dispatch stage gives notice of the failure, and that is all that comes of it
    (`State.Unread.refused`). -/

namespace Relay

theorem CodecError.toError_retryable (e : CodecError) : e.toError.retryable = false := rfl

theorem Handler.unmarshal_of_canRead {h : Handler} {m : Message} (hm : h.canRead m.payload = false) :
    ∃ read e, h.reads = some read ∧ unmarshal read m = .error e := by
  obtain ⟨read, fault, hr, hf⟩ := canRead_eq_false.mp hm
  exact ⟨read, _, hr, by rw [unmarshal, hf]⟩

theorem Handler.not_given {h : Handler} {m : Message} {i : Input} (hm : h.canRead m.payload = false) :
    ¬h.Given m i := by
  obtain ⟨read, e, hr, he⟩ := unmarshal_of_canRead hm
  rintro (⟨hn, -⟩ | ⟨read', v, hr', hv, -⟩)
  · rw [hr] at hn
    cases hn
  · rw [hr] at hr'
    cases hr'
    rw [he] at hv
    cases hv

namespace Call
variable {h : Handler} {task : Nat} {tok : Token} {stages : List Stage} {w w' : World} {c c' : Call}

/-- A call for a message that the handler cannot read: it is on its way in with the message, or on its way out with
    what has come of that. -/
def Refuses (h : Handler) (c : Call) : Prop :=
  match c.phase with
  | .entering _ _ m => h.canRead m.payload = false
  | .leaving .ok => True
  | .leaving (.failed e) => e.retryable = false
  | _ => False

namespace Refuses

theorem entering {rest : List Stage} {ctx : Context} {m : Message} (hr : c.Refuses h)
    (hp : c.phase = .entering rest ctx m) : h.canRead m.payload = false := by
  rwa [Refuses, hp] at hr

theorem leaving {o : Outcome} (hr : c.Refuses h) (hp : c.phase = .leaving o) :
    o = .ok ∨ ∃ e, o = .failed e ∧ e.retryable = false := by
  rw [Refuses, hp] at hr
  cases o with
  | ok => exact .inl rfl
  | failed e => exact .inr ⟨e, rfl, hr⟩
  | panicked _ => exact hr.elim

theorem unsent (hr : c.Refuses h) : c.Unsent := fun port pub wrap n p ctx hp => by
  rw [Refuses, hp] at hr
  exact hr

/-- Such a call never waits, calls no handler and publishes nothing. -/
theorem moves (hr : c.Refuses h) (hs : c.Stands tok stages) (hn : ∀ f, .filter f ∉ stages) (hh : c.handler = some h)
    (hm : c.Moves task w w' c') : c'.Refuses h ∧ w.Spared task w' ∧ w'.exchange = w.exchange ∧ w'.clock = w.clock := by
  have out : ∀ {o : Outcome}, c.phase = .leaving o → ∀ {x : World}, w.Spared task x → x.exchange = w.exchange →
      x.clock = w.clock → ∀ {outer : List Frame}, (c.pop outer o).Refuses h ∧ w.Spared task x ∧
        x.exchange = w.exchange ∧ x.clock = w.clock := fun hp x hx he hc outer => by
    refine ⟨?_, hx, he, hc⟩
    rcases hr.leaving hp with rfl | ⟨e, rfl, hret⟩
    · trivial
    · exact hret
  have other : ∀ {p : Phase}, c.phase = p → (∀ rest ctx m, p ≠ .entering rest ctx m) → (∀ o, p ≠ .leaving o) → False :=
    fun {p} hp hin hout => by
      rw [Refuses, hp] at hr
      cases p with
      | entering rest ctx m => exact hin _ _ _ rfl
      | leaving o => exact hout _ rfl
      | acting _ _ _ | asleep _ _ _ _ | awaiting _ _ _ | sending _ _ _ _ _ _ | backoff _ _ => exact hr
  cases hm with
  | stays => exact ⟨hr, .refl, rfl, rfl⟩
  | unhandled _ hnone =>
    rw [hh] at hnone
    cases hnone
  | @undecoded _ _ _ _ e hp _ _ _ => exact ⟨e.toError_retryable, .refl, rfl, rfl⟩
  | refused hp hh' hg _ | called hp hh' hg _ =>
    rw [hh] at hh'
    cases hh'
    exact absurd hg (Handler.not_given (hr.entering hp))
  | guarded hp | restored hp | unmarked hp _ => exact ⟨hr.entering hp, .note rfl, rfl, rfl⟩
  | marked hp _ =>
    have hm := hr.entering hp
    exact ⟨hm, .trans (.note rfl) .draw, rfl, rfl⟩
  | tried hp => exact ⟨hr.entering hp, .trans (.note rfl) ⟨rfl, rfl, fun _ => rfl, rfl⟩, rfl, rfl⟩
  | passed hp _ | answered hp _ => exact absurd ((hs.entering hp).1.suffix.mem List.mem_cons_self) (hn _)
  | dispatched hp => exact ⟨hr.entering hp, .trans (.note rfl) .startSpan, rfl, rfl⟩
  | returned hp _ _ | brokeOff hp _ | slept hp | cancelled hp | awaited hp | unpublished hp _ | published hp _
  | unwritten hp _ | unsent hp _ _ | sent hp _ _ | woke hp _ | freed hp _ | delivered hp _ | undelivered hp _
  | delivers hp _ | aborted hp _ _ | retried hp _ _ _ | strayed hp _ =>
    exact (other hp (fun _ _ _ h => by cases h) fun _ h => by cases h).elim
  | recovered hp _ | unwound hp _ _ => rcases hr.leaving hp with h | ⟨_, h, -⟩ <;> cases h
  | filtered hp _ hf =>
    obtain ⟨_, he⟩ := hs.leaving hp
    rw [hf] at he
    cases he
  | unretryable hp _ _ => exact out hp (.note rfl) rfl rfl
  | backsOff hp _ hret _ | exhausted hp _ hret _ | propagated hp _ hret =>
    rcases hr.leaving hp with h | ⟨_, h, hnot⟩ <;> cases h
    rw [hnot] at hret
    cases hret
  | swallowed _ _ _ => exact ⟨trivial, .trans (.note rfl) (.note rfl), rfl, rfl⟩
  | left hp _ _ _ _ => exact out hp (.note rfl) rfl rfl

end Refuses
end Call

/-! ### What it costs -/

/-- The notice that an event is, if it is one. -/
def Event.notice? : Event → Option Notice
  | .noticed n => some n
  | _ => none

/-- A task draws identifiers and gives these notices, and calls no handler. -/
structure World.Notices (u : Nat) (notices : List Notice) (w w' : World) : Prop where
  still : ∃ used journal, w' = { w with ids := { w.ids with used }, journal }
  journal : ∃ new, w'.journal = new ++ w.journal ∧ (∀ e ∈ new, e.task = u ∧ e.event.isCall = false) ∧
    new.reverse.filterMap (·.event.notice?) = notices

namespace World.Notices
variable {u : Nat} {notices notices' : List Notice} {w w₁ w₂ : World}

theorem of_ids {used : Nat} : w.Notices u [] { w with ids := { w.ids with used } } :=
  ⟨⟨used, w.journal, rfl⟩, [], rfl, (fun _ he => nomatch he), rfl⟩

theorem trans (h : w.Notices u notices w₁) (h' : w₁.Notices u notices' w₂) : w.Notices u (notices ++ notices') w₂ := by
  obtain ⟨⟨_, _, rfl⟩, new, hj, hn, hf⟩ := h
  obtain ⟨⟨used, journal, rfl⟩, new', hj', hn', hf'⟩ := h'
  refine ⟨⟨used, journal, rfl⟩, new' ++ new, by rw [hj', hj, List.append_assoc], fun e he => ?_, ?_⟩
  · exact (List.mem_append.mp he).elim (hn' e) (hn e)
  · rw [List.reverse_append, List.filterMap_append, hf, hf']

theorem note {e : Event} (he : e.isCall = false) : w.Notices u e.notice?.toList (w.note u e) := by
  refine ⟨⟨w.ids.used, _, rfl⟩, [⟨w.clock, u, e⟩], rfl, fun e' he' => ?_, ?_⟩
  · obtain rfl := List.mem_singleton.mp he'
    exact ⟨rfl, he⟩
  · cases h : e.notice? <;> simp [h]

theorem noteLeaving {k : Nat} (n : Nat) (w : World) : w.Notices u [] (World.noteLeaving u k n w) := by
  induction n generalizing w with
  | zero => exact of_ids
  | succ n ih => exact .trans (.note (e := .left (n + k)) rfl) (ih _)

theorem startSpan {ctx : Context} {name : String} {kind : SpanKind} :
    w.Notices u [] (w.startSpan u ctx name kind).2 := by
  have hids : ∃ used, (ctx.startSpan w.ids).2 = { w.ids with used } := by
    unfold Context.startSpan
    split <;> exact ⟨_, rfl⟩
  obtain ⟨used, hids⟩ := hids
  have hdrawn : w.Notices u [] { w with ids := (ctx.startSpan w.ids).2 } := hids ▸ .of_ids
  exact hdrawn.trans (note (e := .spanned name kind) rfl)

end World.Notices

namespace State
variable {s s' : State} {u n : Nat} {w : Worker} {m : Message} {c : Call} {x : World} {sub : Subscription}
  {rest : List Message} {policy : RetryPolicy} {role : Role} {name : String}

/-- Worker `u` is about to take a message that its handler cannot read. -/
structure Unread (s : State) (u : Nat) (w : Worker) (sub : Subscription) (m : Message) (rest : List Message) :
    Prop where
  worker : s.tasks[u]? = some (.worker w)
  idle : w.occupation = .idle
  subscription : s.world.exchange.subscriptions[w.subscription]? = some sub
  alive : s.world.exchange.hasEnded s.world.tokens sub = false
  queue : sub.queue = m :: rest
  unread : w.handler.canRead m.payload = false
  free : s.active = none

/-- Worker `u` has dealt with message `m`, which its handler could not read: one attempt was counted and one notice
    given, and but for the message everything is as it was. -/
structure Refused (name : String) (s : State) (u : Nat) (w : Worker) (m : Message) (rest : List Message) (s' : State) :
    Prop where
  worker : s'.tasks = s.tasks.set u (.worker { w with lastError := none })
  router : s'.router = s.router
  free : s'.active = none
  counted : ∃ k, s.world.counters[Broker.retryPlace]? = some k ∧
    s'.world.counters = s.world.counters.set Broker.retryPlace { k with attempts := k.attempts + 1 }
  taken : s'.world.exchange = s.world.exchange.updateSubscription w.subscription (·.take m rest)
  still : ∃ used journal counters exchange,
    s'.world = { s.world with ids := { s.world.ids with used }, journal, counters, exchange }
  noticed : ∃ new n, s'.world.journal = new ++ s.world.journal ∧
    (∀ e ∈ new, e.task = u ∧ e.event.isCall = false) ∧ new.filterMap (·.event.notice?) = [n] ∧
    n.level.text = "ERROR" ∧ ("handler", .text name) ∈ n.data ∧ ("message_id", .text m.id) ∈ n.data ∧
    ("code", .text "DECODE_ERROR") ∈ n.data ∧ ("kind", .text "INVALID_INPUT") ∈ n.data

theorem microWorker_turn {w' : Worker} (b : Branch) (hw : s.tasks[u]? = some (.worker w))
    (hm : s.microWorker u w = { s with world := x }.setTask u (.worker w')) : s.turn u b =
      { s with
        world := x, tasks := s.tasks.set u (.worker w')
        active := if (Task.worker w').atWait then none else some u } := by
  have hu := (List.getElem?_eq_some_iff.mp hw).1
  have hmicro : s.micro u b = { s with world := x, tasks := s.tasks.set u (.worker w') } := by
    rw [micro, hw]
    exact hm
  rw [turn, hmicro]
  simp [atWait, List.getElem?_set_self hu]

theorem inCall_ends (hu : u < s.tasks.length) (hc : c.outcome? = some .ok) (b : Branch) :
    (s.inCall u w m x c).turn u b = { s with
      world := x.note u (.settled w.route m .ok)
      tasks := s.tasks.set u (.worker { w with lastError := none, occupation := .idle })
      active := none } := by
  have hw : (s.inCall u w m x c).tasks[u]? = some (.worker { w with occupation := .busy m c }) :=
    List.getElem?_set_self hu
  have hm : (s.inCall u w m x c).microWorker u { w with occupation := .busy m c } =
      { s.inCall u w m x c with world := x.note u (.settled w.route m .ok) }.setTask u
        (.worker { w with lastError := none, occupation := .idle }) := by
    simp only [microWorker, hc, settle]
    rfl
  rw [microWorker_turn b hw hm]
  simp only [inCall, List.set_set]
  rfl

/-- Into the correlation stage, which draws an identifier if there is none. -/
theorem step_correlation {ctx : Context} {stages : List Stage}
    (hp : c.phase = .entering (.correlation :: stages) ctx m) :
    ∃ used m', m'.payload = m.payload ∧ m'.id = m.id ∧ c.step u x =
      ({ x.note u (.entered c.frames.length) with ids := { x.ids with used } }, c.push .plain stages ctx m') := by
  by_cases hm : (m.metadata.get? correlationKey).getD "" = ""
  · refine ⟨x.ids.used + 1, m.withMetadata correlationKey x.draw.1.text, rfl, rfl, ?_⟩
    simp only [Call.step, hp, Call.enter, if_pos hm]
    rfl
  · refine ⟨x.ids.used, m, rfl, rfl, ?_⟩
    simp only [Call.step, hp, Call.enter, if_neg hm]
    rfl

/-- In through the stages, up to the handler. -/
theorem inCall_enters (policy : RetryPolicy) (role : Role) (name : String) (route : Nat) (h : Handler) (ctx : Context)
    (hu : u < s.tasks.length) : ∃ x' ctx' m' frames,
    World.Notices u [] (x.count Broker.retryPlace fun k => { k with attempts := k.attempts + 1 }) x' ∧
      m'.payload = m.payload ∧ m'.id = m.id ∧ (∀ f ∈ frames, f.PassesOn .ok) ∧ frames.length = 4 ∧
      ∀ {n s'},
        Alone u (s.inCall u w m x' ⟨route, some h, .dispatch role name m'.id :: frames, .entering [] ctx' m'⟩) n s' →
        Alone u (s.inCall u w m x (.start route (Broker.chain policy role name) h ctx m)) (n + 5) s' := by
  have entered : ∀ {y : World} {place : Nat}, y.Notices u [] (y.note u (.entered place)) := .note (e := .entered _) rfl
  let c₁ : Call := ⟨route, some h, [.guard m.id m.topic],
    .entering [.correlation, .propagation, .retry policy, .dispatch role name] ctx m⟩
  obtain ⟨used, m', hpayload, hid, hstep⟩ := step_correlation (u := u) (x := x.note u (.entered 0)) (c := c₁) rfl
  let ctx' := extract { token := ctx.token } m'.metadata
  let x₂ : World := { (x.note u (.entered 0)).note u (.entered 1) with ids := { x.ids with used } }
  let x₄ := ((x₂.note u (.entered 2)).note u (.entered 3)).count Broker.retryPlace fun k =>
    { k with attempts := k.attempts + 1 }
  let x₅ := (x₄.note u (.entered 4)).startSpan u ctx' name .consumer
  refine ⟨x₅.2, x₅.1, m', [.retry policy 1 ctx' m' [.dispatch role name], .plain, .plain, .guard m.id m.topic], ?_,
    hpayload, hid, by simp [Frame.PassesOn], rfl, fun {n s'} hrest => ?_⟩
  · have hin : (x.count Broker.retryPlace fun k => { k with attempts := k.attempts + 1 }).Notices u [] x₄ :=
      ((entered.trans entered).trans .of_ids).trans (entered.trans entered)
    exact (hin.trans entered).trans .startSpan
  · refine inCall_steps hu rfl (show _ = (x.note u (.entered 0), c₁) from rfl) rfl ?_
    refine inCall_steps hu rfl hstep rfl ?_
    refine inCall_steps hu rfl rfl rfl ?_
    refine inCall_steps hu rfl rfl rfl ?_
    exact inCall_steps hu rfl rfl rfl hrest

/-- From the handler that cannot read the message out of the stages. -/
theorem inCall_refuses {h : Handler} {frames : List Frame} {m' : Message} (role : Role) (name : String) (route : Nat)
    (ctx : Context) (id : String) (hu : u < s.tasks.length) (hm : h.canRead m'.payload = false)
    (hf : ∀ f ∈ frames, f.PassesOn .ok) : ∃ x' e c',
    x.Notices u [.handlingFailed role name id (CodecError.toError e)] x' ∧ c'.outcome? = some .ok ∧
      Alone u (s.inCall u w m x ⟨route, some h, .dispatch role name id :: frames, .entering [] ctx m'⟩)
        (frames.length + 2) (s.inCall u w m x' c') := by
  obtain ⟨read, e, hr, he⟩ := Handler.unmarshal_of_canRead hm
  let n : Notice := .handlingFailed role name id e.toError
  let x₁ := (x.note u (.noticed n)).note u (.left frames.length)
  have halone := inCall_passes (s := s) (w := w) (m := m) (x := x₁) (c := ⟨route, some h, frames, .leaving .ok⟩) hu rfl
    (List.append_nil frames).symm hf
  refine ⟨x₁.noteLeaving u 0 frames.length, e, ⟨route, some h, [], .leaving .ok⟩, ?_, rfl, ?_⟩
  · exact .trans (.trans (.note (e := .noticed n) rfl) (.note (e := .left frames.length) rfl)) (.noteLeaving _ _)
  · have hstep : (⟨route, some h, .dispatch role name id :: frames, .entering [] ctx m'⟩ : Call).step u x =
        (x, ⟨route, some h, .dispatch role name id :: frames, .leaving (.failed e.toError)⟩) := by
      simp only [Call.step, Call.invoke, hr, he]
      rfl
    exact inCall_steps hu rfl hstep rfl (inCall_steps hu rfl rfl rfl halone)

/-- A message that cannot be read costs one attempt and one notice. -/
theorem Unread.refused (h : s.Unread u w sub m rest) (hstages : w.stages = Broker.chain policy role name)
    (hcounts : Broker.retryPlace < s.world.counters.length) : ∃ s₁ s',
      (∀ b, s.Allows (.turn u b) ∧ s.apply (.turn u b) = s₁) ∧ Alone u s₁ 12 s' ∧ s.Refused name u w m rest s' := by
  have hu := (List.getElem?_eq_some_iff.mp h.worker).1
  -- The world without the message, and with the attempt.
  let x : World := { s.world with
    exchange := s.world.exchange.updateSubscription w.subscription (·.take m rest)
    counters := s.world.counters.modify Broker.retryPlace fun k => { k with attempts := k.attempts + 1 } }
  let x₀ := { s.world with exchange := x.exchange }.note u (.taken w.route m)
  obtain ⟨x₁, ctx, m', frames, hin, hpayload, hid, hclear, hlength, henter⟩ :=
    inCall_enters (s := s) (w := w) (m := m) (x := x₀) policy role name w.route w.handler w.context hu
  obtain ⟨x₂, e, c, hout, hended, hleave⟩ := inCall_refuses (s := s) (w := w) (m := m) (x := x₁) role name w.route
    ctx m'.id hu (hpayload ▸ h.unread) hclear
  rw [hlength] at hleave
  have htaken : x.Notices u [] (x₀.count Broker.retryPlace fun k => { k with attempts := k.attempts + 1 }) :=
    .note (e := .taken w.route m) rfl
  have hsettled : x.Notices u [.handlingFailed role name m'.id e.toError] (x₂.note u (.settled w.route m .ok)) :=
    ((htaken.trans hin).trans hout).trans (.note (e := .settled w.route m .ok) rfl)
  obtain ⟨⟨used, journal, hworld⟩, new, hjournal, hown, hnotices⟩ := hsettled
  have hbegin : ∀ b, s.turn u b =
      s.inCall u w m x₀ (.start w.route (Broker.chain policy role name) w.handler w.context m) := fun b => by
    rw [microWorker_turn b h.worker (microWorker_takes u h.idle h.subscription h.alive h.queue), ← hstages]
    rfl
  refine ⟨_, _, fun b => ⟨.inl h.free, hbegin b⟩,
    henter (hleave.trans (.step rfl (inCall_ends hu hended) .refl)), ?_⟩
  have hidle : ({ w with lastError := none, occupation := .idle } : Worker) = { w with lastError := none } := by
    rw [← h.idle]
  refine ⟨congrArg (fun w => s.tasks.set u (.worker w)) hidle, rfl, rfl,
    ⟨_, List.getElem?_eq_getElem hcounts, (congrArg World.counters hworld).trans (List.modify_eq_set_get _ hcounts)⟩,
    congrArg World.exchange hworld, ⟨used, journal, _, _, hworld⟩, new, .handlingFailed role name m'.id e.toError,
    hjournal, hown, ?_, rfl, ?_⟩
  · have := congrArg List.reverse hnotices
    rwa [← List.filterMap_reverse, List.reverse_reverse] at this
  · rw [← hid]
    exact ⟨.head _, .tail _ (.head _), .tail _ (.tail _ (.head _)), .tail _ (.tail _ (.tail _ (.head _)))⟩

end State
end Relay
