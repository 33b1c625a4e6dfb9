import Relay.Proofs.Isolation.Flight

/-! Calls that post messages for somebody outside: each asks for one publication, sees it through, and
    ends. What a subscription will get of it, up to generated identifiers, is clear from the beginning. -/

namespace Relay

/-! ### What is posted -/

/-- A message to be, with the mask for an identifier that would be drawn. -/
def Draft.message (d : Draft) : Message :=
  { id := d.id.getD Uuid.mask.text, payload := d.payload, metadata := d.metadata }

/-- The message that carries a value sent in a context, with the mask for identifiers that would be drawn. -/
def Outgoing.message? (v : Outgoing) (c : Context) : Option Message :=
  match marshal v.topic v.written .mask with
  | .ok m => some { m with metadata := inject (c.startSpan Supply.masks).1 m.metadata }
  | .error _ => none

/-- The messages that a program is about to put out on a topic, unless that is refused, as they are behind the
    veil. -/
noncomputable def Program.posts (drawn : Uuid → Prop) (refused : Dict) (topic : String) (c : Context) :
    Program → List Message
  | publish t drafts _ =>
    if refused.get? t = none ∧ t = topic then drafts.map fun d => (d.message.onTopic t).veil drawn else []
  | send v _ =>
    if refused.get? v.topic = none ∧ v.topic = topic then
      (v.message? c).toList.map fun m => (m.onTopic v.topic).veil drawn
    else []
  | _ => []

/-- What a call will still put into the queue of subscription `i`, one on this topic. -/
noncomputable def Call.flight (drawn : Uuid → Prop) (c : Call) (x : World) (topic : String) (i : Nat) : List Message :=
  match c.phase with
  | .acting _ p ctx => p.posts drawn x.transport.refusePublish topic ctx
  | .sending _ pub _ _ _ _ =>
    match x.exchange.publications[pub]? with
    | some q => (q.due topic i).map (·.veil drawn)
    | none => []
  | _ => []

namespace World
variable {drawn : Uuid → Prop} {w : World}

theorem fulfilOne_veil (h : w.ids.Hidden drawn) (d : Draft) : (w.fulfilOne d).1.veil drawn = d.message.veil drawn := by
  unfold fulfilOne Draft.message
  cases d.id with
  | some id => rfl
  | none => simp only [Message.veil, Option.getD_none, draw, Supply.head, Veil.text_hidden (h _), Veil.text_mask]

/-- The messages of drafts are what was to be expected, up to the identifiers that were drawn. -/
theorem fulfil_veil (h : w.ids.Hidden drawn) (ds : List Draft) :
    (w.fulfil ds).1.map (·.veil drawn) = ds.map (·.message.veil drawn) := by
  induction ds generalizing w with
  | nil => rfl
  | cons d ds ih =>
    obtain ⟨used, hw⟩ := w.fulfilOne_eq d
    have hrest : (w.fulfilOne d).2.ids.Hidden drawn := hw ▸ h
    rw [fulfil, List.map_cons, List.map_cons, fulfilOne_veil h, ih hrest]

end World

theorem marshal_ok (name : String) (payload : Payload) (id : Uuid) : marshal name (.ok payload) id =
    .ok { id := id.text, payload, metadata := (∅ : Dict).insert nameKey name } := rfl

/-- Whether a value can be written does not depend on the identifier of its message. -/
theorem marshal_error {name : String} {written : Except String Payload} {u u' : Uuid} {e : CodecError}
    (h : marshal name written u = .error e) : marshal name written u' = .error e := by
  cases written with
  | error reason => exact h
  | ok payload => cases h

/-- The message of a value that is sent is what was to be expected, up to the identifiers that were drawn. -/
theorem Outgoing.message?_veil {drawn : Uuid → Prop} {v : Outgoing} {u : Uuid} {ids : Supply} {m : Message}
    (hm : marshal v.topic v.written u = .ok m) (hu : Veil.Hides drawn u) (h : ids.Hidden drawn) (c : Context) :
    ∃ m', v.message? c = some m' ∧
      m'.veil drawn = ({ m with metadata := inject (c.startSpan ids).1 m.metadata } : Message).veil drawn := by
  obtain ⟨role, topic, written⟩ := v
  cases written with
  | error reason => cases hm
  | ok payload =>
    rw [marshal_ok] at hm
    obtain rfl := Except.ok.inj hm
    refine ⟨{ id := Uuid.mask.text, payload, metadata := inject (c.startSpan Supply.masks).1 ((∅ : Dict).insert nameKey topic) },
      by simp only [message?, marshal_ok], ?_⟩
    simp only [Message.veil, inject_veil, Context.startSpan_veil c h, Context.startSpan_veil c Supply.masks_hidden,
      Veil.text_hidden hu, Veil.text_mask]

/-! ### Calls that post -/

def Program.Posts : Program → Prop
  | finish _ | publish _ _ (finish _) | send _ (finish _) => True
  | _ => False

/-- A call that asks for one publication on behalf of somebody outside, if for any. -/
structure Call.Posting (c : Call) : Prop where
  handler : c.handler = none
  frames : c.frames = []
  phase : match c.phase with
    | .acting _ p _ => p.Posts
    | .sending _ _ _ _ p _ => ∃ o, p = .finish o
    | .leaving _ => True
    | _ => False

/-- What a step of such a call comes to. -/
structure Call.Delivers (drawn : Uuid → Prop) (c : Call) (w w' : World) (c' : Call) : Prop where
  posting : c'.Posting
  world : ∃ used journal exchange, w' = { w with ids := { w.ids with used }, journal, exchange }
  closed : w'.exchange.closed = w.exchange.closed
  flight : ∀ {i : Nat} {sub : Subscription}, w.exchange.subscriptions[i]? = some sub → sub.dropped = false →
    ∃ sub', w'.exchange.subscriptions[i]? = some sub' ∧ sub.Fed sub' ∧
      sub'.queue.map (·.veil drawn) ++ c'.flight drawn w' sub.topic i =
        sub.queue.map (·.veil drawn) ++ c.flight drawn w sub.topic i

namespace World
variable {w : World} {port : Port}

theorem transportOf_eq (ha : w.aside = none) : w.transportOf port = w.transport := by
  cases port <;> simp [transportOf, ha]

theorem exchangeOf_eq (ha : w.aside = none) : w.exchangeOf port = w.exchange := by
  cases port <;> simp [exchangeOf, ha]

theorem setExchange_eq {e : Exchange} (ha : w.aside = none) : w.setExchange port e = { w with exchange := e } := by
  cases port <;> simp [setExchange, ha]

end World

theorem Exchange.ended_of_returned {e : Exchange} {p : Nat} {r : Option TransportError} (h : e.returned? p = some r) :
    ∃ q, e.publications[p]? = some q ∧ q.progress = .ended r := by
  unfold returned? at h
  split at h
  · rename_i hq
    cases h
    exact ⟨_, hq, rfl⟩
  · cases h

namespace Call
variable {drawn : Uuid → Prop} {task : Nat} {w w' : World} {c c' : Call}

/-- The exchange stays as it is, and so does what is on its way. -/
theorem Delivers.idle (hc : c'.Posting) (hw : ∃ used journal, w' = { w with ids := { w.ids with used }, journal })
    (hf : ∀ topic i, c'.flight drawn w' topic i = c.flight drawn w topic i) : c.Delivers drawn w w' c' := by
  obtain ⟨used, journal, rfl⟩ := hw
  exact ⟨hc, ⟨used, journal, w.exchange, rfl⟩, rfl, fun {i sub} hs _ => ⟨sub, hs, .refl sub, by rw [hf]⟩⟩

/-- A publication begins, and the messages that were to be expected are on their way. -/
theorem Delivers.publishes {topic : String} {batch : List Message} {port : Port}
    {wrap : TransportError → Error} {n : Nat} {p : Program} {ctx : Context} (hc : c'.Posting)
    (hw : ∃ used journal,
      w' = { w with ids := { w.ids with used }, journal, exchange := (w.exchange.publish topic batch).2 })
    (hp : c'.phase = .sending port w.exchange.publications.length wrap n p ctx)
    (hf : ∀ topic' i, c.flight drawn w topic' i =
      if topic = topic' then batch.map fun m => (m.onTopic topic).veil drawn else []) :
    c.Delivers drawn w w' c' := by
  obtain ⟨used, journal, hw⟩ := hw
  refine ⟨hc, ⟨used, journal, _, hw⟩, congrArg (·.exchange.closed) hw, fun {i sub} hs _ => ?_⟩
  refine ⟨sub, by rw [hw]; exact hs, .refl sub, ?_⟩
  have hpub : w'.exchange.publications[w.exchange.publications.length]? = some { topic, batch } := by
    rw [hw]
    exact List.getElem?_concat_length
  have hflight : c'.flight drawn w' sub.topic i =
      (({ topic, batch } : Publication).due sub.topic i).map (·.veil drawn) := by
    rw [Call.flight, hp]
    dsimp only
    rw [hpub]
  rw [hf, hflight]
  by_cases ht : topic = sub.topic
  · simp [Publication.due, Publication.messages, ht]
  · simp [Publication.due, ht]

theorem world_publish {x y : World} {port : Port} {topic : String} {batch : List Message} {pub : Nat}
    (ha : x.aside = none) (h : x.publish port topic batch = .ok (pub, y)) :
    x.transport.refusePublish.get? topic = none ∧ pub = x.exchange.publications.length ∧
      y = { x with exchange := (x.exchange.publish topic batch).2 } := by
  unfold World.publish at h
  rw [World.transportOf_eq ha, World.exchangeOf_eq ha] at h
  split at h
  · cases h
  · rename_i hn
    replace h : Except.ok (x.exchange.publications.length, x.setExchange port (x.exchange.publish topic batch).2) =
      .ok (pub, y) := h
    rw [World.setExchange_eq ha] at h
    cases h
    exact ⟨hn, rfl, rfl⟩

theorem world_unpublished {x : World} {port : Port} {topic : String} {batch : List Message} {e : TransportError}
    (ha : x.aside = none) (h : x.publish port topic batch = .error e) :
    x.transport.refusePublish.get? topic ≠ none := by
  unfold World.publish at h
  rw [World.transportOf_eq ha] at h
  split at h
  · rename_i reason hr
    rw [hr]
    exact Option.some_ne_none reason
  · cases h

theorem world_posted (task : Nat) (w : World) (ctx : Context) (v : Outgoing) : ∃ used journal,
    (posted task w ctx v).2 = { w with ids := { w.ids with used }, journal } ∧
      (posted task w ctx v).1 = (ctx.startSpan w.ids).1 := by
  have hids : ∃ used, (ctx.startSpan w.ids).2 = { w.ids with used } := by
    unfold Context.startSpan
    split <;> exact ⟨_, rfl⟩
  obtain ⟨used, hids⟩ := hids
  refine ⟨used, (posted task w ctx v).2.journal, ?_, rfl⟩
  rw [← hids]
  rfl

namespace Posting

theorem goto_finish {n : Nat} {o : Outcome} {ctx : Context} (hp : c.Posting) :
    (c.goto (.acting n (.finish o) ctx)).Posting := ⟨hp.handler, hp.frames, trivial⟩

theorem goto_sending {port : Port} {pub n : Nat} {wrap : TransportError → Error} {o : Outcome} {ctx : Context}
    (hp : c.Posting) : (c.goto (.sending port pub wrap n (.finish o) ctx)).Posting := ⟨hp.handler, hp.frames, ⟨o, rfl⟩⟩

theorem acting {n : Nat} {p : Program} {ctx : Context} (hp : c.Posting) (h : c.phase = .acting n p ctx) : p.Posts := by
  have := hp.phase
  rwa [h] at this

theorem sending {port : Port} {pub n : Nat} {wrap : TransportError → Error} {p : Program} {ctx : Context}
    (hp : c.Posting) (h : c.phase = .sending port pub wrap n p ctx) : ∃ o, p = .finish o := by
  have := hp.phase
  rwa [h] at this

theorem of_publish {topic : String} {drafts : List Draft} {ctx : Context} {o : Outcome} :
    (Call.ofProgram (.publish topic drafts (.finish o)) ctx).Posting := ⟨rfl, rfl, trivial⟩

theorem of_send {v : Outgoing} {ctx : Context} {o : Outcome} :
    (Call.ofProgram (.send v (.finish o)) ctx).Posting := ⟨rfl, rfl, trivial⟩

theorem finish_of_publish {topic : String} {drafts : List Draft} {p : Program} (h : (Program.publish topic drafts p).Posts) :
    ∃ o, p = .finish o := by
  cases p with
  | finish o => exact ⟨o, rfl⟩
  | sleep _ _ | cancel _ | awaitCancel _ | publish _ _ _ | send _ _ => cases h

theorem finish_of_send {v : Outgoing} {p : Program} (h : (Program.send v p).Posts) : ∃ o, p = .finish o := by
  cases p with
  | finish o => exact ⟨o, rfl⟩
  | sleep _ _ | cancel _ | awaitCancel _ | publish _ _ _ | send _ _ => cases h

theorem publish_refused {n : Nat} {topic : String} {drafts : List Draft} {p : Program} {ctx : Context}
    {e : TransportError} (hp : c.Posting) (h : c.phase = .acting n (.publish topic drafts p) ctx)
    (he : (w.fulfil drafts).2.publish .plain topic (w.fulfil drafts).1 = .error e) (ha : w.aside = none) :
    c.Delivers drawn w (w.fulfil drafts).2 (c.goto (.acting n (.finish (.failed (.transport e))) ctx)) := by
  obtain ⟨used, hw⟩ := w.fulfil_eq drafts
  have hrefused := world_unpublished (by rw [hw]; exact ha) he
  rw [hw] at hrefused
  refine .idle hp.goto_finish ⟨used, w.journal, hw⟩ fun topic' i => ?_
  have hnot : ¬(w.transport.refusePublish.get? topic = none ∧ topic = topic') := fun hc => hrefused hc.1
  simp only [flight, h, goto, Program.posts, if_neg hnot]

theorem send_refused {n : Nat} {v : Outgoing} {p : Program} {ctx : Context} {batch : List Message} {e : TransportError}
    (hp : c.Posting) (h : c.phase = .acting n (.send v p) ctx)
    (he : (posted task w ctx v).2.draw.2.publish .router v.topic batch = .error e) (ha : w.aside = none) :
    c.Delivers drawn w (posted task w ctx v).2.draw.2
      (c.goto (.acting n (.finish (.failed (.publish (.transport e)))) ctx)) := by
  obtain ⟨used, journal, hw, -⟩ := world_posted task w ctx v
  have hrefused := world_unpublished (by rw [World.draw, hw]; exact ha) he
  rw [World.draw, hw] at hrefused
  refine .idle hp.goto_finish ⟨used + 1, journal, by rw [World.draw, hw]; rfl⟩ fun topic' i => ?_
  have hnot : ¬(w.transport.refusePublish.get? v.topic = none ∧ v.topic = topic') := fun hc => hrefused hc.1
  simp only [flight, h, goto, Program.posts, if_neg hnot]

/-- Messages that are put out are those that were to be expected of their drafts. -/
theorem publishes {n : Nat} {topic : String} {drafts : List Draft} {p : Program} {ctx : Context} {pub : Nat}
    (hp : c.Posting) (h : c.phase = .acting n (.publish topic drafts p) ctx)
    (he : (w.fulfil drafts).2.publish .plain topic (w.fulfil drafts).1 = .ok (pub, w')) (ha : w.aside = none)
    (hh : w.ids.Hidden drawn) : c.Delivers drawn w w' (c.goto (.sending .plain pub .transport n p ctx)) := by
  obtain ⟨o, rfl⟩ := finish_of_publish (hp.acting h)
  obtain ⟨used, hw⟩ := w.fulfil_eq drafts
  obtain ⟨hopen, hpub, hw'⟩ := world_publish (by rw [hw]; exact ha) he
  rw [hw] at hopen hpub hw'
  subst hpub
  refine .publishes hp.goto_sending ⟨used, w.journal, hw'⟩ rfl fun topic' i => ?_
  have hmsgs : (w.fulfil drafts).1.map (fun m => (m.onTopic topic).veil drawn) =
      drafts.map fun d => (d.message.onTopic topic).veil drawn := by
    have := congrArg (List.map fun m : Message => m.onTopic topic) (World.fulfil_veil hh drafts)
    simpa only [List.map_map, Function.comp_def, Message.veil_onTopic] using this
  rw [hmsgs, flight, h]
  simp only [Program.posts, show w.transport.refusePublish.get? topic = none from hopen, true_and]

/-- A value that is sent is the one message that was to be expected of it. -/
theorem sends {n : Nat} {v : Outgoing} {p : Program} {ctx : Context} {m : Message} {pub : Nat} (hp : c.Posting)
    (h : c.phase = .acting n (.send v p) ctx)
    (hmarshal : marshal v.topic v.written (posted task w ctx v).2.draw.1 = .ok m)
    (he : (posted task w ctx v).2.draw.2.publish .router v.topic
      [{ m with metadata := inject (posted task w ctx v).1 m.metadata }] = .ok (pub, w')) (ha : w.aside = none)
    (hh : w.ids.Hidden drawn) :
    c.Delivers drawn w w' (c.goto (.sending .router pub (fun e => .publish (.transport e)) n p ctx)) := by
  obtain ⟨o, rfl⟩ := finish_of_send (hp.acting h)
  obtain ⟨used, journal, hw, hspan⟩ := world_posted task w ctx v
  obtain ⟨hopen, hpub, hw'⟩ := world_publish (by rw [World.draw, hw]; exact ha) he
  have hu : Veil.Hides drawn (posted task w ctx v).2.draw.1 := by
    rw [hw]
    exact hh _
  obtain ⟨m', hm', hveil⟩ := Outgoing.message?_veil hmarshal hu hh ctx
  rw [World.draw, hw] at hopen hpub hw'
  subst hpub
  refine .publishes hp.goto_sending ⟨used + 1, journal, hw'⟩ rfl fun topic' i => ?_
  have hmsg : (m'.onTopic v.topic).veil drawn =
      (({ m with metadata := inject (posted task w ctx v).1 m.metadata } : Message).onTopic v.topic).veil drawn := by
    rw [Message.veil_onTopic, hveil, hspan]
    rfl
  rw [flight, h]
  simp only [Program.posts, show w.transport.refusePublish.get? v.topic = none from hopen, true_and, hm',
    Option.toList_some, List.map_cons, List.map_nil, hmsg]

/-- What a publication hands to a subscription is no longer on its way to it. -/
theorem advances {port : Port} {pub n : Nat} {wrap : TransportError → Error} {p : Program} {ctx : Context}
    (hp : c.Posting) (h : c.phase = .sending port pub wrap n p ctx) (ha : w.aside = none)
    (hf : w.exchange.Faithful) (hr : w.exchange.Roomy) (ho : w.exchange.closed = false) :
    c.Delivers drawn w (w.setExchange port ((w.exchangeOf port).advance pub)) c := by
  rw [World.exchangeOf_eq ha, World.setExchange_eq ha]
  have hadvance := Exchange.advance_cases w.exchange pub
  refine ⟨hp, ⟨w.ids.used, w.journal, _, rfl⟩, hadvance.closed, fun {i sub} hs hd => ?_⟩
  obtain ⟨sub₁, hs₁, hfed⟩ := @Exchange.Advance.feeds _ _ _ (fun _ => False) hadvance i sub id hs
  refine ⟨sub₁, hs₁, hfed, ?_⟩
  rw [flight, flight, h]
  dsimp only
  cases hq : w.exchange.publications[pub]? with
  | none =>
    have hsame : w.exchange.advance pub = w.exchange := by rw [Exchange.advance, hq]
    rw [hsame] at hs₁ ⊢
    rw [hs] at hs₁
    cases hs₁
    simp [hq]
  | some q =>
    obtain ⟨sub', q', hs', hq', hdue⟩ := hadvance.due hf hr ho hs hd hq
    rw [hs₁] at hs'
    cases hs'
    rw [hq']
    have := congrArg (List.map fun m : Message => m.veil drawn) hdue
    simpa only [List.map_append] using this

/-- A step of such a call takes nothing from what a subscription will get, and adds nothing to it. -/
theorem moves (hp : c.Posting) (hm : c.Moves task w w' c') (ha : w.aside = none) (hh : w.ids.Hidden drawn)
    (hf : w.exchange.Faithful) (hr : w.exchange.Roomy) (ho : w.exchange.closed = false) :
    c.Delivers drawn w w' c' := by
  have never : ∀ {rest : List Stage} {ctx : Context} {m : Message}, c.phase ≠ .entering rest ctx m := fun h => by
    have := hp.phase
    rw [h] at this
    exact this
  have quiet : ∀ {x : Call}, x.Posting → (∀ topic i, x.flight drawn w topic i = c.flight drawn w topic i) →
      c.Delivers drawn w w x := fun hx hflight => .idle hx ⟨w.ids.used, w.journal, rfl⟩ hflight
  have bare : ∀ {f : Frame} {outer : List Frame}, c.frames ≠ f :: outer := fun h => by
    rw [hp.frames] at h
    cases h
  cases hm with
  | stays => exact quiet hp fun _ _ => rfl
  | unhandled h _ | undecoded h _ _ _ | refused h _ _ _ | called h _ _ _ | guarded h | marked h _ | unmarked h _
  | restored h | tried h | passed h _ | answered h _ | dispatched h => exact absurd h never
  | returned _ hh _ =>
    rw [hp.handler] at hh
    cases hh
  | brokeOff h _ => exact quiet ⟨hp.handler, hp.frames, trivial⟩ fun _ _ => by simp only [flight, h, goto, Program.posts]
  | slept h | cancelled h | awaited h => exact (hp.acting h).elim
  | woke h _ | freed h _ =>
    have := hp.phase
    rw [h] at this
    exact this.elim
  | aborted h _ _ | retried h _ _ _ | strayed h _ =>
    have := hp.phase
    rw [h] at this
    exact this.elim
  | recovered _ h | unwound _ h _ | filtered _ _ h | unretryable _ h _ | backsOff _ h _ _ | exhausted _ h _ _
  | propagated _ h _ | swallowed _ h _ | left _ h _ _ _ => exact absurd h bare
  | unpublished h he => exact hp.publish_refused h he ha
  | published h he => exact hp.publishes h he ha hh
  | @unwritten n v p ctx e h he =>
    obtain ⟨used, journal, hw, -⟩ := world_posted task w ctx v
    refine .idle hp.goto_finish ⟨used, journal, hw⟩ fun topic' i => ?_
    have hmask : v.message? ctx = none := by simp only [Outgoing.message?, marshal_error he]
    simp [flight, h, goto, Program.posts, hmask]
  | unsent h _ he => exact hp.send_refused h he ha
  | sent h hmarshal he => exact hp.sends h hmarshal he ha hh
  | @delivered port pub wrap n p ctx h hret | @undelivered port pub wrap n p ctx e h hret =>
    obtain ⟨o, rfl⟩ := hp.sending h
    refine quiet hp.goto_finish fun topic i => ?_
    rw [World.exchangeOf_eq ha] at hret
    obtain ⟨q, hq, hend⟩ := Exchange.ended_of_returned hret
    rw [flight, flight, h]
    simp [hq, Publication.due, hend, goto, Program.posts]
  | delivers h _ => exact hp.advances h ha hf hr ho

/-- Such a call waits for nothing. -/
theorem at_rest (hp : c.Posting) (ha : w.aside = none) (hr : w.exchange.Roomy) (h : c.isReady w = false) :
    c.outcome?.isSome := by
  have hphase := hp.phase
  obtain ⟨route, handler, frames, phase⟩ := c
  obtain rfl : frames = [] := hp.frames
  cases phase with
  | leaving o => rfl
  | acting _ _ _ => cases h
  | sending port pub wrap n p ctx =>
    replace h : (!(w.exchangeOf port).isBlocked pub) = false := h
    rw [World.exchangeOf_eq ha, hr.not_blocked] at h
    cases h
  | entering _ _ _ | asleep _ _ _ _ | awaiting _ _ _ | backoff _ _ => exact hphase.elim

/-- Once it has ended, it stays as it is. -/
theorem rests (hp : c.Posting) (ho : c.outcome?.isSome) (hm : c.Moves task w w' c') : w' = w ∧ c' = c := by
  obtain ⟨o, hphase⟩ : ∃ o, c.phase = .leaving o := by
    unfold outcome? at ho
    split at ho
    · rename_i o hphase _
      exact ⟨o, hphase⟩
    · cases ho
  have bare : ∀ {f : Frame} {outer : List Frame}, c.frames ≠ f :: outer := fun h => by
    rw [hp.frames] at h
    cases h
  cases hm with
  | stays => exact ⟨rfl, rfl⟩
  | recovered _ h | unwound _ h _ | filtered _ _ h | unretryable _ h _ | backsOff _ h _ _ | exhausted _ h _ _
  | propagated _ h _ | swallowed _ h _ | left _ h _ _ _ => exact absurd h bare
  | unhandled h _ | undecoded h _ _ _ | refused h _ _ _ | called h _ _ _ | guarded h | marked h _ | unmarked h _
  | restored h | tried h | passed h _ | answered h _ | dispatched h | returned h _ _ | brokeOff h _ | slept h
  | cancelled h | awaited h | unpublished h _ | published h _ | unwritten h _ | unsent h _ _ | sent h _ _ | woke h _
  | freed h _ | delivered h _ | undelivered h _ | delivers h _ | aborted h _ _ | retried h _ _ _ | strayed h _ =>
    rw [hphase] at h
    cases h

theorem flight_of_ended {topic : String} {i : Nat} (ho : c.outcome?.isSome) : c.flight drawn w topic i = [] := by
  unfold outcome? at ho
  split at ho
  · rename_i o hphase _
    rw [flight, hphase]
  · cases ho

end Posting
end Call
end Relay
