import Relay.Proofs.Isolation.Follow
import Relay.Proofs.Poison.Refusal
import Relay.Proofs.Poison.Surroundings

/-! A worker at its desk, read off the state of the whole system. A message that the handler cannot read is not
    there, and a publication of its own counts as returned, so the worker's own turns take the desk one step on or leave
    it as it is (`State.Attends.turn`), and all that others can do to it is to put messages into its queue or to cancel
    its run (`State.Accords.step`). -/

namespace Relay
variable (drawn : Uuid → Prop) (p : Post)

/-- How what a worker is doing looks from its desk. -/
inductive Occupation.ShownAs (closed : Bool) (h : Handler) : Occupation → Option Call → Prop where
  | idle : ShownAs closed h .idle none
  | busy {m : Message} {c : Call} : h.canRead m.payload = true →
      ShownAs closed h (.busy m c) (some ((c.onward closed).veil drawn))
  | refusing {m : Message} {c : Call} : h.canRead m.payload = false → c.Refuses h → ShownAs closed h (.busy m c) none

/-- If the exchange is closed, what a worker publishes is turned away. -/
def Occupation.Turned (o : Occupation) (e : Exchange) : Prop :=
  ∀ {m : Message} {c : Call} {port : Port} {pub : Nat} {wrap : TransportError → Error} {n : Nat} {q : Program}
    {ctx : Context}, o = .busy m c → c.phase = .sending port pub wrap n q ctx → e.closed = true → e.Declines pub

section Occupation
variable {drawn} {closed : Bool} {h : Handler} {k : Option Call} {m : Message} {c : Call} {e : Exchange}

theorem Occupation.Turned.idle : Occupation.idle.Turned e := fun ho => by cases ho

theorem Occupation.Turned.of_unsent (hu : c.Unsent) : (Occupation.busy m c).Turned e := fun ho hp _ => by
  cases ho
  exact absurd hp (hu _ _ _ _ _ _)

theorem Occupation.ShownAs.of_idle (hk : ShownAs drawn closed h .idle k) : k = none := by
  cases hk
  rfl

theorem Occupation.ShownAs.of_busy (hk : ShownAs drawn closed h (.busy m c) k) :
    (h.canRead m.payload = true ∧ k = some ((c.onward closed).veil drawn)) ∨
      (h.canRead m.payload = false ∧ k = none ∧ c.Refuses h) := by
  cases hk with
  | busy hm => exact .inl ⟨hm, rfl⟩
  | refusing hm hr => exact .inr ⟨hm, rfl, hr⟩

end Occupation

namespace State

/-- The worker at the desk with its subscription, of which the desk is still to be given what pends. -/
structure Attends (s : State) (u : Nat) (w : Worker) (sub : Subscription) (d : Desk) (pend : List Message) : Prop where
  worker : s.tasks[u]? = some (.worker w)
  place : w.route = p.place
  handler : w.handler = p.route.handler
  stages : w.stages = p.pipeline
  run : d.run = w.context
  subscription : s.world.exchange.subscriptions[w.subscription]? = some sub
  count : d.count = s.world.calls[p.place]?
  cancelled : d.tokens.isCancelled d.run.token = s.world.isCancelled w.context
  made : d.run.token < d.tokens.next
  inbox : p.route.handler.sift drawn sub.queue = d.inbox ++ pend
  call : w.occupation.ShownAs drawn s.world.exchange.closed p.route.handler d.call
  turned : w.occupation.Turned s.world.exchange

/-- How far the worker has come, but for what pends. -/
inductive Accords (s : State) (u : Nat) : View → List Message → Prop where
  | serving {w : Worker} {sub : Subscription} {d : Desk} {pend : List Message} :
      s.Attends drawn p u w sub d pend → Accords s u (.serving d) pend
  | ended {w : Worker} {f : Option String} {pend : List Message} : s.tasks[u]? = some (.worker w) →
      w.occupation = .ended f → Accords s u .ended pend

/-- A step by which this comes to the desk, and after which the worker has come to where its course leads. -/
def LeadsOn (s : State) (u : Nat) (v : View) (pend : List Message) (σ : List (Nat × Incoming)) (s' : State) : Prop :=
  ∃ v' pend', s'.Accords drawn p u v' pend' ∧ ∀ rest, (∀ e ∈ rest, s'.world.clock ≤ e.1) → Sitting.Leads drawn p
    ⟨v, s.world.clock, s.world.exchange.closed, s.world.called drawn u, Incoming.at s.world.clock pend ++ (σ ++ rest)⟩
    ⟨v', s'.world.clock, s'.world.exchange.closed, s'.world.called drawn u,
      Incoming.at s'.world.clock pend' ++ rest⟩

/-- The messages that have come into the queue of worker `u`, the earliest first. -/
def received (s : State) (u : Nat) : List Message :=
  match s.tasks[u]? with
  | some (.worker w) =>
    match s.world.exchange.subscriptions[w.subscription]? with
    | some sub => sub.accepted.map (·.2)
    | none => []
  | _ => []

variable {drawn p} {s s' : State} {u : Nat} {w w' : Worker} {sub sub' : Subscription} {d d' : Desk}
  {v : View} {m : Message} {c : Call} {pend ms : List Message} {σ : List (Nat × Incoming)} {policy : RetryPolicy}
  {x : World} {b : Branch} {o : Op}

theorem received_of (hw : s.tasks[u]? = some (.worker w))
    (hs : s.world.exchange.subscriptions[w.subscription]? = some sub) : s.received u = sub.accepted.map (·.2) := by
  simp only [received, hw, hs]

/-! ### Steps and the course -/

theorem LeadsOn.stays (ms : List Message) (hv : s'.Accords drawn p u v (pend ++ ms))
    (hc : s'.world.clock = s.world.clock) (he : s'.world.exchange.closed = s.world.exchange.closed)
    (ha : s'.world.called drawn u = s.world.called drawn u) :
    s.LeadsOn drawn p u v pend (Incoming.at s.world.clock ms) s' := by
  refine ⟨v, pend ++ ms, hv, fun rest _ => ?_⟩
  rw [hc, he, ha, Incoming.at_append, List.append_assoc]
  exact .refl

theorem LeadsOn.goes (ms : List Message) (hr : v.canMove p.place s.world.clock s.world.exchange.closed = true)
    (hv : s'.Accords drawn p u (v.serve drawn p s.world.clock s.world.exchange.closed).1 (pend ++ ms))
    (hc : s'.world.clock = s.world.clock) (he : s'.world.exchange.closed = s.world.exchange.closed)
    (ha : s'.world.called drawn u =
      s.world.called drawn u ++ (v.serve drawn p s.world.clock s.world.exchange.closed).2) :
    s.LeadsOn drawn p u v pend (Incoming.at s.world.clock ms) s' := by
  refine ⟨_, pend ++ ms, hv, fun rest _ => ?_⟩
  have hnext := @Sitting.Leads.one drawn p ⟨v, s.world.clock, s.world.exchange.closed, s.world.called drawn u,
    Incoming.at s.world.clock pend ++ (Incoming.at s.world.clock ms ++ rest)⟩
  rw [Sitting.next_of_ready hr] at hnext
  rw [hc, he, ha, Incoming.at_append, List.append_assoc]
  exact hnext

theorem LeadsOn.receives (hr : v.canMove p.place s.world.clock s.world.exchange.closed = false)
    (h : s.LeadsOn drawn p u (v.receive (.message m)) pend σ s') : s.LeadsOn drawn p u v (m :: pend) σ s' := by
  obtain ⟨v', pend', hv, hl⟩ := h
  refine ⟨v', pend', hv, fun rest hrest => .trans ?_ (hl rest hrest)⟩
  have hnext := @Sitting.Leads.one drawn p ⟨v, s.world.clock, s.world.exchange.closed, s.world.called drawn u,
    Incoming.at s.world.clock (m :: pend) ++ (σ ++ rest)⟩
  rwa [Sitting.next_of_incoming hr rfl rfl] at hnext

/-! ### What is known of the worker -/

namespace Attends

theorem token (ha : s.Attends drawn p u w sub d pend) (hs : s.Upright drawn p.transport policy) :
    sub.token = w.context.token := by
  obtain ⟨_, _, _, hserving⟩ := hs.orderly.course.serving_of_worker ha.worker
  obtain ⟨sub', hsub, -, htoken⟩ := hserving.reads ha.worker
  rw [ha.subscription] at hsub
  cases hsub
  exact htoken

theorem hasEnded (ha : s.Attends drawn p u w sub d pend) (hs : s.Upright drawn p.transport policy) :
    s.world.exchange.hasEnded s.world.tokens sub = (s.world.exchange.closed || s.world.isCancelled w.context) := by
  rw [Exchange.hasEnded, ha.token hs]
  rfl

theorem not_filter (ha : s.Attends drawn p u w sub d pend) (hs : s.Upright drawn p.transport policy)
    (f : Filter) : .filter f ∉ w.stages :=
  hs.orderly.chained.not_filter hs.orderly.course ha.worker f

theorem busy (ha : s.Attends drawn p u w sub d pend) (hs : s.Upright drawn p.transport policy)
    (ho : w.occupation = .busy m c) :
    c.Stands w.context.token w.stages ∧ c.handler = some p.route.handler ∧ c.route = p.place := by
  obtain ⟨hstands, hhandler⟩ := hs.orderly.placed.calls ha.worker ho
  exact ⟨hstands, by rw [hhandler, ha.handler], (hs.routed ha.worker ho).trans ha.place⟩

theorem resembles (ha : s.Attends drawn p u w sub d pend) (hs : s.Upright drawn p.transport policy)
    (hr : c.route = p.place) :
    s.world.Resembles drawn w.context.token c.route (d.outlook p s.world.clock) where
  clock := rfl
  cancelled := by rw [← ha.run]; exact ha.cancelled.trans (by rw [ha.run]; rfl)
  made := by
    obtain ⟨_, _, _, hserving⟩ := hs.orderly.course.serving_of_worker ha.worker
    exact ⟨(hserving.serves ha.worker).2.1 ▸ hserving.token, ha.run ▸ ha.made⟩
  calls := by
    rw [hr]
    exact (d.calls_world p.place s.world.clock).trans ha.count
  refused port := by
    rw [World.transportOf_eq hs.aside, hs.transport, World.transportOf_eq rfl]
    rfl
  hidden := hs.hidden
  masked := rfl
  journal := rfl

/-! ### The worker's own turns -/

/-- After its own turn the worker is at the desk again. -/
theorem own (new : List (Nat × Message)) (sub' : Subscription) (d' : Desk) (ms : List Message)
    (ha : s.Attends drawn p u w sub d pend)
    (hm : s.microWorker u w = { s with world := x }.setTask u (.worker w')) (hw : w.Goes w')
    (hclosed : x.exchange.closed = s.world.exchange.closed) (hturned : w'.occupation.Turned x.exchange)
    (hsub : x.exchange.subscriptions[w.subscription]? = some sub') (hnew : sub'.accepted = sub.accepted ++ new)
    (hrun : d'.run = d.run) (hcancelled : d'.tokens.isCancelled d'.run.token = x.isCancelled w.context)
    (hmade : d'.run.token < d'.tokens.next) (hcount : d'.count = x.calls[p.place]?)
    (hinbox : p.route.handler.sift drawn sub'.queue = d'.inbox ++ ms)
    (hcall : w'.occupation.ShownAs drawn s.world.exchange.closed p.route.handler d'.call) :
    (s.apply (.turn u b)).Attends drawn p u w' sub' d' ms ∧
      (s.apply (.turn u b)).received u = s.received u ++ new.map (·.2) ∧ (s.apply (.turn u b)).world = x := by
  have happly : s.apply (.turn u b) = { s with
      world := x, tasks := s.tasks.set u (.worker w')
      active := if (Task.worker w').atWait then none else some u } := microWorker_turn b ha.worker hm
  rw [happly]
  have hu := (List.getElem?_eq_some_iff.mp ha.worker).1
  have hw' : (s.tasks.set u (.worker w'))[u]? = some (.worker w') := List.getElem?_set_self hu
  refine ⟨⟨hw', hw.route.trans ha.place, hw.handler.trans ha.handler, hw.stages.trans ha.stages,
    hrun.trans (ha.run.trans hw.context.symm), by rw [hw.subscription]; exact hsub, hcount,
    hcancelled.trans (by rw [hw.context]), hmade, hinbox, hclosed ▸ hcall, hturned⟩, ?_, rfl⟩
  rw [received_of ha.worker ha.subscription, received_of hw' (by rw [hw.subscription]; exact hsub), hnew,
    List.map_append]

/-- The worker takes a message that its handler can read, once it is on the desk. -/
theorem own_takes {rest inbox : List Message} {m' : Message} (ha : s.Attends drawn p u w sub d pend)
    (hs : s.Upright drawn p.transport policy) (hi : w.occupation = .idle) (hopen : s.world.exchange.closed = false)
    (hlive : s.world.isCancelled w.context = false) (hq : sub.queue = m :: rest)
    (hm : p.route.handler.canRead m.payload = true) (hd : d.inbox = m' :: inbox) :
    (s.apply (.turn u b)).received u = s.received u ∧
      s.LeadsOn drawn p u (.serving d) pend [] (s.apply (.turn u b)) := by
  have hcall : d.call = none := (hi ▸ ha.call).of_idle
  have hinbox := ha.inbox
  rw [hq, Handler.sift_cons hm, hd, List.cons_append] at hinbox
  obtain ⟨rfl, hrest⟩ := List.cons.inj hinbox
  let c := Call.start w.route w.stages w.handler w.context m
  have hu : c.Unsent := fun _ _ _ _ _ _ h => by cases h
  have hserve : d.serve drawn p s.world.clock s.world.exchange.closed = (.serving { d with
      inbox, call := some ((Call.start p.place p.pipeline p.route.handler d.run (m.veil drawn)).veil drawn) }, []) := by
    simp [Desk.serve, hcall, hopen, ha.cancelled, hlive, hd]
  have hstart : (Call.start p.place p.pipeline p.route.handler d.run (m.veil drawn)).veil drawn =
      (c.onward s.world.exchange.closed).veil drawn := by
    rw [Call.onward_of_unsent hu, Call.start_veil, Call.start_veil, Message.veil_veil, ha.place, ha.stages, ha.handler,
      ha.run]
  obtain ⟨hattends, hreceived, hworld⟩ := ha.own (b := b) [] (sub.take m rest)
    { d with inbox, call := some ((c.onward s.world.exchange.closed).veil drawn) } pend
    (microWorker_takes u hi ha.subscription ((ha.hasEnded hs).trans (by rw [hopen, hlive]; rfl)) hq)
    ⟨rfl, rfl, rfl, rfl, rfl, rfl, rfl, by simp [hi]⟩ rfl (Occupation.Turned.of_unsent hu)
    ((Exchange.subscription?_update ha.subscription).trans (by rw [if_pos rfl]))
    (by rw [List.append_nil]; exact Subscription.grant_accepted _) rfl ha.cancelled ha.made ha.count
    (by rw [show (sub.take m rest).queue = rest from Subscription.grant_queue _, hrest]) (.busy hm)
  refine ⟨by rw [hreceived, List.map_nil, List.append_nil],
    .goes [] ?_ ?_ (by rw [hworld]; rfl) (by rw [hworld]; rfl) ?_⟩
  · simp [View.canMove, Desk.canMove, Desk.isReady, hcall, hd]
  · rw [View.serve, hserve, hstart, List.append_nil]
    exact .serving hattends
  · rw [hworld, View.serve, hserve, World.called, World.arrivals_note_taken]
    simp [World.called, World.arrivals, Arrival.isCall]

/-- A turn after which the desk is as it was. -/
theorem own_stays (ha : s.Attends drawn p u w sub d pend) (hm : s.microWorker u w = s) :
    (s.apply (.turn u b)).received u = s.received u ∧
      s.LeadsOn drawn p u (.serving d) pend [] (s.apply (.turn u b)) := by
  obtain ⟨active, he⟩ := turn_stays b ha.worker hm
  rw [he]
  have hself : ({ s with active } : State).Attends drawn p u w sub d (pend ++ []) := by
    rw [List.append_nil]
    exact { ha with }
  exact ⟨rfl, .stays [] (.serving hself) rfl rfl rfl⟩

/-- A worker without a message ends with its run or with the exchange. -/
theorem own_ends (ha : s.Attends drawn p u w sub d pend) (hs : s.Upright drawn p.transport policy)
    (hi : w.occupation = .idle) (hend : (s.world.exchange.closed || s.world.isCancelled w.context) = true) :
    (s.apply (.turn u b)).received u = s.received u ∧
      s.LeadsOn drawn p u (.serving d) pend [] (s.apply (.turn u b)) := by
  have hcall : d.call = none := (hi ▸ ha.call).of_idle
  have happly : s.apply (.turn u b) = _ :=
    microWorker_turn b ha.worker (microWorker_stops u hi ha.subscription ((ha.hasEnded hs).trans hend))
  have hw' := List.getElem?_set_self (a := Task.worker { w with occupation := .ended w.lastError })
    (List.getElem?_eq_some_iff.mp ha.worker).1
  have hserve : d.serve drawn p s.world.clock s.world.exchange.closed = (.ended, []) := by
    simp only [Desk.serve, hcall, ha.cancelled, if_pos hend]
  have hmove : d.canMove p.place s.world.clock s.world.exchange.closed = true := by
    simp only [Desk.canMove, Desk.isReady, hcall, ha.cancelled]
    rcases Bool.or_eq_true_iff.mp hend with h | h <;> simp [h]
  rw [happly]
  refine ⟨?_, .goes [] hmove ?_ rfl rfl ?_⟩
  · rw [received_of ha.worker ha.subscription,
      received_of hw' ((Exchange.subscription?_update ha.subscription).trans (by rw [if_pos rfl]))]
    rfl
  · rw [View.serve, hserve]
    exact .ended hw' rfl
  · rw [View.serve, hserve, List.append_nil]
    rfl

/-- The worker takes a message that its handler cannot read, and nothing of that is on the desk. -/
theorem own_passes {rest : List Message} (ha : s.Attends drawn p u w sub d pend)
    (hs : s.Upright drawn p.transport policy) (hi : w.occupation = .idle)
    (hend : (s.world.exchange.closed || s.world.isCancelled w.context) = false) (hq : sub.queue = m :: rest)
    (hm : p.route.handler.canRead m.payload = false) : (s.apply (.turn u b)).received u = s.received u ∧
      s.LeadsOn drawn p u (.serving d) pend [] (s.apply (.turn u b)) := by
  have hcall : d.call = none := (hi ▸ ha.call).of_idle
  obtain ⟨hattends, hreceived, hworld⟩ := ha.own (b := b) [] (sub.take m rest) d (pend ++ [])
    (microWorker_takes u hi ha.subscription ((ha.hasEnded hs).trans hend) hq)
    ⟨rfl, rfl, rfl, rfl, rfl, rfl, rfl, by simp [hi]⟩ rfl
    (Occupation.Turned.of_unsent fun _ _ _ _ _ _ h => by cases h)
    ((Exchange.subscription?_update ha.subscription).trans (by rw [if_pos rfl]))
    (by rw [List.append_nil]; exact Subscription.grant_accepted _) rfl ha.cancelled ha.made ha.count
    (by
      have hinbox := ha.inbox
      rw [hq, Handler.sift_cons_of_cannotRead hm] at hinbox
      rw [show (sub.take m rest).queue = rest from Subscription.grant_queue _, hinbox, List.append_nil])
    (by rw [hcall]; exact .refusing hm hm)
  refine ⟨by rw [hreceived, List.map_nil, List.append_nil],
    .stays [] (.serving hattends) (by rw [hworld]; rfl) (by rw [hworld]; rfl) ?_⟩
  rw [hworld, World.called, World.arrivals_note_taken]
  simp [World.called, World.arrivals, Arrival.isCall]

/-- A worker without a message ends, or takes the next message, or waits for one. -/
theorem own_idle (ha : s.Attends drawn p u w sub d pend) (hs : s.Upright drawn p.transport policy)
    (hi : w.occupation = .idle) : (s.apply (.turn u b)).received u = s.received u ∧
      s.LeadsOn drawn p u (.serving d) pend [] (s.apply (.turn u b)) := by
  have hcall : d.call = none := (hi ▸ ha.call).of_idle
  cases hend : s.world.exchange.closed || s.world.isCancelled w.context with
  | true => exact ha.own_ends hs hi hend
  | false =>
    obtain ⟨hopen, hlive⟩ := Bool.or_eq_false_iff.mp hend
    cases hq : sub.queue with
    | nil => exact ha.own_stays (microWorker_waits u hi ha.subscription ((ha.hasEnded hs).trans hend) hq)
    | cons m rest =>
      cases hm : p.route.handler.canRead m.payload with
      | false => exact ha.own_passes hs hi hend hq hm
      | true =>
        cases hd : d.inbox with
        | cons m' inbox => exact ha.own_takes hs hi hopen hlive hq hm hd
        | nil =>
          have hinbox := ha.inbox
          rw [hq, Handler.sift_cons hm, hd, List.nil_append] at hinbox
          cases pend with
          | nil => cases hinbox
          | cons m' pend =>
            -- The desk is given the message first.
            have hgiven : s.Attends drawn p u w sub { d with inbox := d.inbox ++ [m'] } pend :=
              { ha with inbox := by rw [ha.inbox, List.append_assoc]; rfl }
            obtain ⟨hreceived, hleads⟩ := hgiven.own_takes (b := b) hs hi hopen hlive hq hm (by rw [hd]; rfl)
            refine ⟨hreceived, .receives ?_ hleads⟩
            simp [View.canMove, Desk.canMove, Desk.isReady, hcall, hopen, ha.cancelled, hlive, hd]

/-- A message that cannot be read comes to its end. -/
theorem own_refuses (ha : s.Attends drawn p u w sub d pend) (hs : s.Upright drawn p.transport policy)
    (ho : w.occupation = .busy m c) (hread : p.route.handler.canRead m.payload = false) (hd : d.call = none)
    (hr : c.Refuses p.route.handler) : (s.apply (.turn u b)).received u = s.received u ∧
      s.LeadsOn drawn p u (.serving d) pend [] (s.apply (.turn u b)) := by
  obtain ⟨hstands, hhandler, hroute⟩ := ha.busy hs ho
  have stays : ∀ {x : World} {w' : Worker}, s.microWorker u w = { s with world := x }.setTask u (.worker w') →
      w.Goes w' → s.world.Spared u x → x.exchange = s.world.exchange → x.clock = s.world.clock →
      w'.occupation.Turned x.exchange →
      w'.occupation.ShownAs drawn s.world.exchange.closed p.route.handler none →
      (s.apply (.turn u b)).received u = s.received u ∧
        s.LeadsOn drawn p u (.serving d) pend [] (s.apply (.turn u b)) := fun {x w'} hm hw hspared he hc ht hcall => by
    obtain ⟨hattends, hreceived, hworld⟩ := ha.own (b := b) [] sub d (pend ++ []) hm hw (by rw [he]) ht
      (he ▸ ha.subscription) (List.append_nil _).symm rfl
      (by rw [ha.cancelled, World.isCancelled, World.isCancelled, hspared.tokens]) ha.made
      (ha.count.trans (by rw [hspared.calls])) (by rw [List.append_nil]; exact ha.inbox) (hd ▸ hcall)
    refine ⟨by rw [hreceived, List.map_nil, List.append_nil],
      .stays [] (.serving hattends) (by rw [hworld, hc]) (by rw [hworld, he]) ?_⟩
    rw [hworld, World.called, World.called, hspared.arrivals]
  have goes : ∀ lastError o, w.Goes { w with lastError, occupation := o } := fun _ _ =>
    ⟨rfl, rfl, rfl, rfl, rfl, rfl, rfl, by simp [ho]⟩
  cases hout : c.outcome? with
  | none =>
    obtain ⟨hr', hspared, he, hc⟩ := hr.moves hstands (ha.not_filter hs) hhandler (c.step_moves u s.world)
    exact stays (by simp only [microWorker, ho, hout]) (goes w.lastError (.busy m (c.step u s.world).2)) hspared he hc
      (Occupation.Turned.of_unsent hr'.unsent) (.refusing hread hr')
  | some o =>
    have hm : s.microWorker u w = s.settle u w m o := by simp only [microWorker, ho, hout]
    have hphase : c.phase = .leaving o := by
      unfold Call.outcome? at hout
      split at hout
      · rename_i hp _
        cases hout
        exact hp
      · cases hout
    rcases hr.leaving hphase with rfl | ⟨e, rfl, -⟩
    · exact stays hm (goes _ _) (.note rfl) rfl rfl Occupation.Turned.idle .idle
    · exact stays hm (goes _ _) (.trans (.note rfl) (.note rfl)) rfl rfl Occupation.Turned.idle .idle

/-- A worker that is done with a message is ready for the next one, or has broken off. -/
theorem own_settles {o : Outcome} (ha : s.Attends drawn p u w sub d pend) (ho : w.occupation = .busy m c)
    (hd : d.call = some ((c.onward s.world.exchange.closed).veil drawn)) (hout : c.outcome? = some o) :
    (s.apply (.turn u b)).received u = s.received u ∧
      s.LeadsOn drawn p u (.serving d) pend [] (s.apply (.turn u b)) := by
  have hu : c.Unsent := fun _ _ _ _ _ _ hp => by simp [Call.outcome?, hp] at hout
  rw [Call.onward_of_unsent hu] at hd
  have hout' : (c.veil drawn).outcome? = some o := by rw [Call.outcome?_veil, hout]
  have hready : (View.serving d).canMove p.place s.world.clock s.world.exchange.closed = true := by
    simp [View.canMove, Desk.canMove, Desk.isReady, hd, hout']
  have hm : s.microWorker u w = s.settle u w m o := by simp only [microWorker, ho, hout]
  have idle : ∀ {x : World} {lastError : Option String},
      s.microWorker u w = { s with world := x }.setTask u (.worker { w with lastError, occupation := .idle }) →
      x.exchange = s.world.exchange → x.tokens = s.world.tokens → x.calls = s.world.calls →
      x.clock = s.world.clock → x.arrivals u = s.world.arrivals u →
      (View.serving d).serve drawn p s.world.clock s.world.exchange.closed = (.serving { d with call := none }, []) →
      (s.apply (.turn u b)).received u = s.received u ∧
        s.LeadsOn drawn p u (.serving d) pend [] (s.apply (.turn u b)) :=
      fun {x _} hm he ht hn hc harrivals hserve => by
    obtain ⟨hattends, hreceived, hworld⟩ := ha.own (b := b) [] sub { d with call := none } (pend ++ []) hm
      ⟨rfl, rfl, rfl, rfl, rfl, rfl, rfl, by simp [ho]⟩ (by rw [he]) Occupation.Turned.idle (he ▸ ha.subscription)
      (List.append_nil _).symm rfl (by rw [ha.cancelled, World.isCancelled, World.isCancelled, ht]) ha.made
      (ha.count.trans (by rw [hn])) (by rw [List.append_nil]; exact ha.inbox) .idle
    refine ⟨by rw [hreceived, List.map_nil, List.append_nil],
      .goes [] hready ?_ (by rw [hworld, hc]) (by rw [hworld, he]) ?_⟩
    · rw [hserve]
      exact .serving hattends
    · rw [hworld, hserve, World.called, World.called, harrivals, List.append_nil]
  cases o with
  | ok => exact idle hm rfl rfl rfl rfl (World.arrivals_note rfl) (by simp [View.serve, Desk.serve, hd, hout'])
  | failed e =>
    exact idle hm rfl rfl rfl rfl ((World.arrivals_note rfl).trans (World.arrivals_note rfl))
      (by simp [View.serve, Desk.serve, hd, hout'])
  | panicked reason =>
    have happly : s.apply (.turn u b) = _ := microWorker_turn b ha.worker hm
    have harrivals : (s.settle u w m (.panicked reason)).world.arrivals u = s.world.arrivals u :=
      @World.arrivals_of_append _ _ _ [⟨s.world.clock, u, .noticed (.workerPanicked w.name)⟩,
        ⟨s.world.clock, u, .settled w.route m (.panicked reason)⟩] rfl (by simp [Event.isArrival])
    have hw' := List.getElem?_set_self
      (a := Task.worker { w with occupation := .ended (some (w.name ++ ": worker panicked")) })
      (List.getElem?_eq_some_iff.mp ha.worker).1
    have hserve : (View.serving d).serve drawn p s.world.clock s.world.exchange.closed = (.ended, []) := by
      simp [View.serve, Desk.serve, hd, hout']
    rw [happly]
    refine ⟨?_, .goes [] hready ?_ rfl rfl ?_⟩
    · rw [received_of ha.worker ha.subscription,
        received_of hw' ((Exchange.subscription?_update ha.subscription).trans (by rw [if_pos rfl]))]
      rfl
    · rw [hserve]
      exact .ended hw' rfl
    · rw [hserve, List.append_nil]
      exact congrArg (fun l => (l.filter Arrival.isCall).map (Arrival.veil drawn)) harrivals

/-- What a step of the worker's own call makes of the subscription. -/
theorem fed {c' : Call} (ha : s.Attends drawn p u w sub d pend) (hm : c.Moves u s.world x c') : ∃ sub' new,
    x.exchange.subscriptions[w.subscription]? = some sub' ∧ sub'.accepted = sub.accepted ++ new ∧
      p.route.handler.sift drawn sub'.queue = d.inbox ++ (pend ++ p.route.handler.sift drawn (new.map (·.2))) := by
  have htouches : s.world.Touches (fun _ => False) c.Writes u x := hm.touches
  obtain ⟨sub', hsub, hfed⟩ := htouches.feeds id ha.subscription
  obtain ⟨new, hqueue, haccepted, -⟩ := hfed.fed
  exact ⟨sub', new, hsub, haccepted, by rw [hqueue, Handler.sift_append, ha.inbox, List.append_assoc]⟩

/-- A worker that waits for its own publication goes on when it has returned, and from its desk it has gone on
    already. -/
theorem own_sends {port : Port} {pub n : Nat} {wrap : TransportError → Error} {q : Program} {ctx : Context}
    (ha : s.Attends drawn p u w sub d pend) (hs : s.Upright drawn p.transport policy)
    (ho : w.occupation = .busy m c) (hread : p.route.handler.canRead m.payload = true)
    (hd : d.call = some ((c.onward s.world.exchange.closed).veil drawn))
    (hp : c.phase = .sending port pub wrap n q ctx) : ∃ new, (s.apply (.turn u b)).received u = s.received u ++ new ∧
      s.LeadsOn drawn p u (.serving d) pend (Incoming.at s.world.clock (p.route.handler.sift drawn new))
        (s.apply (.turn u b)) := by
  have hout : c.outcome? = none := by simp [Call.outcome?, hp]
  have stays : ∀ {x : World} {c' : Call}, c.step u s.world = (x, c') →
      c'.onward s.world.exchange.closed = c.onward s.world.exchange.closed →
      x.tokens = s.world.tokens → x.calls = s.world.calls → x.clock = s.world.clock → x.journal = s.world.journal →
      x.exchange.closed = s.world.exchange.closed → (Occupation.busy m c').Turned x.exchange →
      ∃ new, (s.apply (.turn u b)).received u = s.received u ++ new ∧
        s.LeadsOn drawn p u (.serving d) pend (Incoming.at s.world.clock (p.route.handler.sift drawn new))
          (s.apply (.turn u b)) := fun {x c'} hstep hc' ht hn hc hj he hturned => by
    have hmoves := c.step_moves u s.world
    rw [hstep] at hmoves
    obtain ⟨sub', new, hsub, haccepted, hinbox⟩ := ha.fed hmoves
    have hm : s.microWorker u w = { s with world := x }.setTask u (.worker { w with occupation := .busy m c' }) := by
      simp only [microWorker, ho, hout, hstep]
    obtain ⟨hattends, hreceived, hworld⟩ := ha.own (b := b) new sub' d _ hm
      ⟨rfl, rfl, rfl, rfl, rfl, rfl, rfl, by simp [ho]⟩ he hturned hsub haccepted rfl
      (by rw [ha.cancelled, World.isCancelled, World.isCancelled, ht]) ha.made (ha.count.trans (by rw [hn])) hinbox
      (by rw [hd, ← hc']; exact .busy hread)
    refine ⟨new.map (·.2), hreceived, .stays _ (.serving hattends) (by rw [hworld, hc]) (by rw [hworld, he]) ?_⟩
    rw [hworld, World.called, World.called, World.arrivals_congr hj]
  cases hret : s.world.exchange.returned? pub with
  | none =>
    refine @stays { s.world with exchange := s.world.exchange.advance pub } c ?_ rfl rfl rfl rfl rfl
      (s.world.exchange.closed_advance pub) fun he hp' hc => ?_
    · simp only [Call.step, hp, World.exchangeOf_eq hs.aside, hret, World.setExchange_eq hs.aside]
    · exact Exchange.Declines.step (h := s.world.hub)
        (ha.turned (ho.trans he) hp' (s.world.exchange.closed_advance pub ▸ hc)) (.advance pub)
  | some r =>
    let q' := if s.world.exchange.closed then .finish (.failed (wrap .closed)) else q
    have hu : (c.goto (.acting n q' ctx)).Unsent := fun _ _ _ _ _ _ h => by cases h
    refine @stays s.world (c.goto (.acting n q' ctx)) ?_ ?_ rfl rfl rfl rfl rfl
      (Occupation.Turned.of_unsent hu)
    · cases hc : s.world.exchange.closed with
      | false =>
        obtain rfl := hs.obliging.returned hc hret
        simp [Call.step, hp, World.exchangeOf_eq hs.aside, hret, q', hc]
      | true =>
        obtain rfl := (ha.turned ho hp hc).returned hret
        simp [Call.step, hp, World.exchangeOf_eq hs.aside, hret, q', hc]
    · rw [Call.onward_of_sending hp, Call.onward_of_unsent hu]

/-- A worker goes on with its call, or waits in it. -/
theorem own_works (ha : s.Attends drawn p u w sub d pend) (hs : s.Upright drawn p.transport policy)
    (hb : p.route.handler.Blind drawn) (ho : w.occupation = .busy m c)
    (hread : p.route.handler.canRead m.payload = true)
    (hd : d.call = some ((c.onward s.world.exchange.closed).veil drawn)) (hout : c.outcome? = none)
    (hu : c.Unsent) : ∃ new, (s.apply (.turn u b)).received u = s.received u ++ new ∧
      s.LeadsOn drawn p u (.serving d) pend (Incoming.at s.world.clock (p.route.handler.sift drawn new))
        (s.apply (.turn u b)) := by
  obtain ⟨hstands, hhandler, hroute⟩ := ha.busy hs ho
  have hcall : d.call = some (c.veil drawn) := by rw [hd, Call.onward_of_unsent hu]
  have hout' : (c.veil drawn).outcome? = none := by rw [Call.outcome?_veil, hout]
  have hm : s.microWorker u w = { s with world := (c.step u s.world).1 }.setTask u
      (.worker { w with occupation := .busy m (c.step u s.world).2 }) := by simp only [microWorker, ho, hout]
  have hsame : (c.veil drawn).isReady (d.world p.place s.world.clock) = c.isReady s.world :=
    Call.isReady_likened hstands hu rfl (by
      show d.tokens.isCancelled w.context.token = _
      rw [← ha.run]
      exact ha.cancelled.trans (by rw [ha.run]; rfl))
  cases hready : c.isReady s.world with
  | false =>
    rw [hstands.stuck hu hout hready] at hm
    refine ⟨[], ?_⟩
    rw [List.append_nil]
    refine ha.own_stays (hm.trans ?_)
    rw [← ho]
    exact setTask_self ha.worker
  | true =>
    have hmoves := c.step_moves u s.world
    obtain ⟨sub', new, hsub, haccepted, hinbox⟩ := ha.fed hmoves
    let y := (c.veil drawn).step 0 (d.outlook p s.world.clock)
    have hlikened : Call.Likened drawn w.context.token u 0 s.world (c.step u s.world) y :=
      Call.step_likened hstands (ha.not_filter hs) hu (fun h hh => by
        rw [hhandler] at hh
        cases hh
        exact hb) (ha.resembles hs hroute)
    have hserve : (View.serving d).serve drawn p s.world.clock s.world.exchange.closed = (.serving { d with
        tokens := y.1.tokens, count := y.1.calls[p.place]?
        call := some ((y.2.onward s.world.exchange.closed).veil drawn) }, y.1.called drawn 0) := by
      simp only [View.serve, Desk.serve, hcall, hout']
      rfl
    have hnext : d.tokens.next ≤ y.1.tokens.next :=
      ((c.veil drawn).step_moves 0 (d.outlook p s.world.clock)).next_le
    have htouches : s.world.Touches (fun _ => False) c.Writes u (c.step u s.world).1 := hmoves.touches
    have hclosed : (c.step u s.world).1.exchange.closed = s.world.exchange.closed := (hmoves.firm hs.aside).closed
    have hturned : (Occupation.busy m (c.step u s.world).2).Turned (c.step u s.world).1.exchange :=
      fun he hp hc => by
        cases he
        exact hmoves.declines hu hs.aside hp hc
    have hcalls := hlikened.calls
    rw [hmoves.same.2, hroute] at hcalls
    obtain ⟨hattends, hreceived, hworld⟩ := ha.own (b := b) new sub' { d with
        tokens := y.1.tokens, count := y.1.calls[p.place]?
        call := some ((y.2.onward s.world.exchange.closed).veil drawn) } _ hm
      ⟨rfl, rfl, rfl, rfl, rfl, rfl, rfl, by simp [ho]⟩ hclosed hturned hsub haccepted rfl
      (by rw [show ({ d with tokens := y.1.tokens } : Desk).run = w.context from ha.run]; exact hlikened.cancelled)
      (Nat.lt_of_lt_of_le ha.made hnext) hcalls hinbox (by rw [← hlikened.call]; exact .busy hread)
    refine ⟨new.map (·.2), hreceived,
      .goes _ ?_ ?_ (by rw [hworld]; exact htouches.clock) (by rw [hworld, hclosed]) ?_⟩
    · simp [View.canMove, Desk.canMove, Desk.isReady, hcall, hsame, hready]
    · rw [hserve]
      exact .serving hattends
    · rw [hworld, hserve]
      exact hlikened.called

/-- A turn of the worker takes the desk one step on, or leaves it as it is. -/
theorem turn (ha : s.Attends drawn p u w sub d pend) (hs : s.Upright drawn p.transport policy)
    (hb : p.route.handler.Blind drawn) : ∃ new, (s.apply (.turn u b)).received u = s.received u ++ new ∧
      s.LeadsOn drawn p u (.serving d) pend (Incoming.at s.world.clock (p.route.handler.sift drawn new))
        (s.apply (.turn u b)) := by
  have quiet : ((s.apply (.turn u b)).received u = s.received u ∧
      s.LeadsOn drawn p u (.serving d) pend [] (s.apply (.turn u b))) → ∃ new,
        (s.apply (.turn u b)).received u = s.received u ++ new ∧
          s.LeadsOn drawn p u (.serving d) pend (Incoming.at s.world.clock (p.route.handler.sift drawn new))
            (s.apply (.turn u b)) := fun h => ⟨[], by rw [h.1, List.append_nil], h.2⟩
  cases ho : w.occupation with
  | idle => exact quiet (ha.own_idle hs ho)
  | ended f =>
    have := ha.call
    rw [ho] at this
    cases this
  | busy m c =>
    rcases (ho ▸ ha.call).of_busy with ⟨hread, hd⟩ | ⟨hread, hd, hr⟩
    · cases hout : c.outcome? with
      | some o => exact quiet (ha.own_settles ho hd hout)
      | none =>
        by_cases hp : ∃ port pub wrap n q ctx, c.phase = .sending port pub wrap n q ctx
        · obtain ⟨port, pub, wrap, n, q, ctx, hp⟩ := hp
          exact ha.own_sends hs ho hread hd hp
        · exact ha.own_works hs hb ho hread hd hout fun port pub wrap n q ctx h => hp ⟨port, pub, wrap, n, q, ctx, h⟩
    · exact quiet (ha.own_refuses hs ho hread hd hr)

end Attends
end State
end Relay
