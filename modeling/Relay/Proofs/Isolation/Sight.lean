import Relay.Proofs.Isolation.Bypass

/-! How far the course of a route has come, read off the state of the whole system. What is on its way to the
    worker, and a run that is about to begin or to be drained, count as done as soon as they cannot fail to
    happen before time goes on. So most turns leave the course where it is (`State.Sees.bypass`), and a turn
    of the worker of the route takes it one step on, or leaves it (`State.Shows.own`). -/

namespace Relay
variable (drawn : Uuid → Prop) (p : Post)

/-- The call that a worker is in. -/
def Occupation.call? : Occupation → Option Call
  | busy _ c => some c
  | _ => none

namespace State

/-- The worker of the route, with its subscription, and what it has before it. -/
structure Shows (s : State) (u t base : Nat) (run : Context) (w : Worker) (sub : Subscription) (d : Desk) : Prop where
  serving : s.Serving t base run
  worker : s.tasks[base + p.place]? = some (.worker w)
  subscription : s.world.exchange.subscriptions[w.subscription]? = some sub
  alive : ∀ f, w.occupation ≠ .ended f
  run : d.run = run
  count : d.count = s.world.calls[p.place]?
  inbox : d.inbox = sub.queue.map (·.veil drawn) ++ s.flight drawn u sub.topic w.subscription
  call : d.call = w.occupation.call?.map (·.veil drawn)

/-- How far the course of the route has come, if only task `u` is not spent. -/
inductive Sees (s : State) (u : Nat) : View → Prop where
  | waiting : s.router.started = false → s.router.shutdown = false →
      (∀ c, s.tasks[u]? ≠ some (.run (.fresh c))) → Sees s u (.waiting s.world.tokens s.world.calls[p.place]?)
  /-- A run is about to begin. -/
  | due {c : Context} : s.router.started = false → s.router.shutdown = false → s.tasks[u]? = some (.run (.fresh c)) →
      Sees s u ((View.waiting s.world.tokens s.world.calls[p.place]?).input drawn p (.run c))
  | subscribing {run : Context} {made : List (Nat × Nat)} {rest : List Nat} : s.Subscribing u run made rest →
      s.router.shutdown = false → p.isOpen = true →
      (∀ m ∈ made, ∀ sub, s.world.exchange.subscriptions[m.2]? = some sub → sub.queue = []) →
      Sees s u (.serving { tokens := s.world.tokens, run, count := s.world.calls[p.place]? })
  /-- A route that is still to be subscribed will be refused. -/
  | doomed {run : Context} {made : List (Nat × Nat)} {rest : List Nat} {r : Nat} {topic : String} :
      s.Subscribing u run made rest → r ∈ rest → p.topics[r]? = some topic →
      p.transport.refuseSubscribe.get? topic ≠ none → Sees s u .ended
  | failed : s.Over → Sees s u .ended
  | ended {t base : Nat} {run : Context} {w : Worker} {f : Option String} : s.Serving t base run →
      s.tasks[base + p.place]? = some (.worker w) → w.occupation = .ended f → Sees s u .ended
  | serving {t base : Nat} {run : Context} {w : Worker} {sub : Subscription} {d : Desk} :
      s.Shows drawn p u t base run w sub d → d.tokens = s.world.tokens →
      (s.router.shutdown = true ∨ s.tasks[u]? = some (.close .fresh) → s.world.isCancelled run = true) →
      Sees s u (.serving d)
  /-- The run is about to be drained, and until then the worker does nothing. -/
  | stopping {t base : Nat} {run : Context} {w : Worker} {sub : Subscription} {d : Desk} {c : Closing} :
      s.Shows drawn p u t base run w sub d → d.tokens = s.world.tokens.cancel run.token →
      s.router.lifecycle = .running → s.tasks[u]? = some (.close c) → c = .fresh ∨ s.router.shutdown = true →
      ({ d with tokens := s.world.tokens } : Desk).isReady p.place s.world.clock = false → Sees s u (.serving d)

variable {drawn p} {s s' : State} {o : Op} {u t base : Nat} {run : Context} {w : Worker} {sub : Subscription} {d : Desk}
  {v : View}

/-! ### The worker of the route -/

theorem Shows.route (hs : s.Shows drawn p u t base run w sub d) : w.route = p.place :=
  (Nat.add_left_cancel (hs.serving.serves hs.worker).1).symm

theorem Shows.serves (hs : s.Shows drawn p u t base run w sub d) (ho : s.Tidy drawn p) :
    w.context = run ∧ w.handler = p.route.handler ∧ w.stages = p.pipeline ∧ sub.topic = p.route.topic ∧
      sub.token = run.token := by
  obtain ⟨-, hc, route, hserves⟩ := hs.serving.serves hs.worker
  obtain ⟨sub', hsub, htopic, htoken⟩ := hs.serving.reads hs.worker
  rw [hs.subscription] at hsub
  cases hsub
  have hlisted := hserves.listed
  rw [hs.route, ho.route] at hlisted
  cases hlisted
  refine ⟨hc, hserves.handler, ?_, htopic.trans hserves.topic, htoken.trans (congrArg _ hc)⟩
  rw [hserves.stages, Router.pipeline, ho.stages]
  rfl

theorem Shows.hasEnded (hs : s.Shows drawn p u t base run w sub d) (ho : s.Tidy drawn p) :
    s.world.exchange.hasEnded s.world.tokens sub = s.world.isCancelled run := by
  obtain ⟨-, -, -, -, htoken⟩ := hs.serves ho
  rw [Exchange.hasEnded, ho.opened, htoken]
  rfl

/-- A step after which the worker is as it was, and the same is on its way to it. -/
theorem Shows.keeps {sub' : Subscription} (hs : s.Shows drawn p u t base run w sub d) (h : s.Step o s') {u' : Nat}
    {d' : Desk} (hw : s'.tasks[base + p.place]? = some (.worker w))
    (hsub : s'.world.exchange.subscriptions[w.subscription]? = some sub')
    (hcalls : s'.world.calls[p.place]? = s.world.calls[p.place]?) (hrun : d'.run = d.run) (hcount : d'.count = d.count)
    (hcall : d'.call = d.call)
    (hinbox : d'.inbox = sub'.queue.map (·.veil drawn) ++ s'.flight drawn u' sub'.topic w.subscription) :
    s'.Shows drawn p u' t base run w sub' d' where
  serving := hs.serving.step h
  worker := hw
  subscription := hsub
  alive := hs.alive
  run := hrun.trans hs.run
  count := hcount.trans (hs.count.trans hcalls.symm)
  inbox := hinbox
  call := hcall.trans hs.call

/-! ### The end of the course -/

/-- A run that came to its end before any route had a worker stays there. -/
theorem Over.step (ho : s.Over) (h : s.Step o s') : s'.Over := by
  rcases h.keeps_or with ⟨hk, -⟩ | ⟨t, v, v', x, r, new, active, ht, hm, rfl⟩
  · refine ⟨hk.started.trans ho.started, fun hw' => ?_, fun hv => (hk.runs hv).elim ho.idle id, ?_⟩
    · obtain ⟨w, hw, -⟩ := hk.workers hw'
      exact ho.unmanned hw
    · rw [hk.lifecycle, Exchange.isOversized, h.evolves.capacity]
      exact ho.lifecycle
  · have stays : ∀ {v' : Supervision} {x : World}, v'.Idle → x.exchange = s.world.exchange →
        ({ s.moved t x s.router [] (.run v') with active } : State).Over := fun {v' x} hi hx => by
      obtain ⟨howner, hruns, hworkers⟩ := moved_run v' x s.router active ht
      refine ⟨ho.started, fun hw => ho.unmanned (hworkers.mp hw), fun {u v₀} hv => ?_, ?_⟩
      · by_cases hu : u = t
        · subst hu
          rw [howner] at hv
          cases hv
          exact hi
        · exact ho.idle (hruns hv hu)
      · show _ ∨ _ ∧ x.exchange.isOversized = true
        rw [hx]
        exact ho.lifecycle
    have hidle := ho.idle ht
    cases hm with
    | stays => exact stays hidle rfl
    | rejected _ _ =>
      refine stays trivial ?_
      obtain ⟨journal, hx⟩ := s.quiet_reported t .alreadyRunning
      rw [hx]
    | begins _ hst =>
      rw [ho.started] at hst
      cases hst
    | skips hv _ | subscribes hv _ _ | declined hv _ _ _ | breaksOff hv _ _ | serves hv _ | joins hv _ _ _ | drains hv _
    | awaits hv _ _ | finishes hv _ =>
      subst hv
      exact hidle.elim

/-- Nothing follows the end of the course. -/
theorem Sees.ended_step {f : Option String} {u' : Nat} (hs : s.Serving t base run)
    (hw : s.tasks[base + p.place]? = some (.worker w)) (hf : w.occupation = .ended f) (h : s.Step o s') :
    s'.Sees drawn p u' .ended := by
  have hs' := hs.step h
  rcases h.worker hw with ⟨b, w', -, hw', hm, -⟩ | ⟨-, hw'⟩
  · exact .ended hs' hw' (hm.goes.ended f hf)
  · exact .ended hs' hw' hf

/-! ### Turns that make no difference -/

/-- A turn that makes no difference to the route leaves its course where it is. -/
theorem Sees.bypass (hv : s.Sees drawn p u v) (ho : s.Tidy drawn p) (hb : s.Bypasses drawn p u s') (h : s.Step o s') :
    s'.Sees drawn p u v := by
  -- The task that is not spent has not become one that is about to begin.
  have before : ∀ {k : Task}, ¬k.Spent → s'.tasks[u]? = some k → s.tasks[u]? = some k := fun hk ht => by
    rcases hb.latest with he | ⟨j, hj, hspent⟩
    · rw [← he, ht]
    · rw [ht] at hj
      cases hj
      exact absurd hspent hk
  have kept : ∀ {t base : Nat} {run : Context} {w : Worker} {sub : Subscription} {d : Desk},
      s.Shows drawn p u t base run w sub d → s'.Shows drawn p u t base run w sub d := fun hs => by
    refine hs.keeps h (hb.worker hs.worker hs.route) ?_ hb.calls rfl rfl rfl ?_
    · -- No other worker reads the subscription.
      rw [hb.subscription fun ht he => ?_, hs.subscription]
      obtain rfl := hs.serving.distinct ht hs.worker he
      rw [hs.worker] at ht
      cases ht
      exact hs.route
    · rw [hs.inbox, hb.flight]
  cases hv with
  | waiting hst hsh hn =>
    rw [← hb.tokens, ← hb.calls]
    exact .waiting (hb.started.trans hst) (hb.shutdown.trans hsh) fun c ht => hn c (before (fun hk => hk c rfl) ht)
  | due hst hsh ht =>
    rw [← hb.tokens, ← hb.calls]
    exact .due (hb.started.trans hst) (hb.shutdown.trans hsh) (hb.fresh ht hst)
  | subscribing hs hsh hopen hq =>
    rw [← hb.tokens, ← hb.calls]
    refine .subscribing ((ho.course.step h).subscribing_of (hb.subscribing hs.owner)) (hb.shutdown.trans hsh) hopen
      fun m hm sub hsub => hq m hm sub ?_
    rwa [hb.subscription fun ht => absurd ht hs.unmanned] at hsub
  | doomed hs hr ht hn => exact .doomed ((ho.course.step h).subscribing_of (hb.subscribing hs.owner)) hr ht hn
  | failed hover => exact .failed (hover.step h)
  | ended hs hw hf => exact Sees.ended_step hs hw hf h
  | @serving t base run w sub d hs hd hc =>
    refine .serving (kept hs) (hd.trans hb.tokens.symm) fun hhalt => ?_
    rw [World.isCancelled, hb.tokens]
    refine hc (hhalt.imp (fun hh => hb.shutdown ▸ hh) (before fun hk => hk rfl))
  | stopping hs hd hl ht hc hr =>
    refine .stopping (kept hs) (hb.tokens ▸ hd) (hb.running hl) (hb.close ht hs.serving.started hl)
      (hc.imp id fun hh => hb.shutdown.trans hh) ?_
    rw [hb.tokens, hb.clock]
    exact hr

/-! ### Turns of the worker -/

variable {b : Branch}

/-- A turn of the worker of the route takes its course one step on. -/
def Advances (drawn : Uuid → Prop) (p : Post) (s : State) (u : Nat) (v : View) (s' : State) : Prop :=
  v.isReady p.place s.world.clock = true ∧ s'.Sees drawn p u (v.step drawn p s.world.clock).1 ∧
    (s'.arrivals p.place).map (·.veil drawn) =
      (s.arrivals p.place).map (·.veil drawn) ++ (v.step drawn p s.world.clock).2

theorem Shows.arrivals_eq (hs : s.Shows drawn p u t base run w sub d) (ho : s.Tidy drawn p) :
    s.arrivals p.place = s.world.arrivals (base + p.place) :=
  hs.serving.arrivals_eq (List.getElem?_eq_some_iff.mp ho.route).1

theorem Shows.goes {x : World} {w' : Worker} (sub' : Subscription) (new : List Arrival)
    (hs : s.Shows drawn p u t base run w sub d) (ho : s.Tidy drawn p) (ha : s.Allows (.turn (base + p.place) b))
    (hc : s.router.shutdown = true ∨ s.tasks[u]? = some (.close .fresh) → s.world.isCancelled run = true)
    (hm : s.microWorker (base + p.place) w = { s with world := x }.setTask (base + p.place) (.worker w'))
    (hr : d.isReady p.place s.world.clock = true)
    (hstep : d.step drawn p s.world.clock = (.serving { d with
      count := x.calls[p.place]?
      inbox := sub'.queue.map (·.veil drawn) ++ s.flight drawn u sub.topic w.subscription
      call := w'.occupation.call?.map (·.veil drawn) }, new))
    (hd : d.tokens = s.world.tokens) (hw : w'.subscription = w.subscription) (halive : ∀ f, w'.occupation ≠ .ended f)
    (htokens : x.tokens = s.world.tokens) (hpubs : x.exchange.publications = s.world.exchange.publications)
    (htransport : x.transport = s.world.transport)
    (hsub : x.exchange.subscriptions[w.subscription]? = some sub') (htopic : sub'.topic = sub.topic)
    (hnew : (x.arrivals (base + p.place)).map (·.veil drawn) =
      (s.world.arrivals (base + p.place)).map (·.veil drawn) ++ new) :
    s.Advances drawn p u (.serving d) (s.apply (.turn (base + p.place) b)) := by
  have h := apply_step ha
  obtain ⟨active, he⟩ := turn_worker b hs.worker hm
  rw [he] at h ⊢
  have hserving := hs.serving.step h
  refine ⟨hr, ?_, ?_⟩
  · show Sees drawn p _ u (d.step drawn p s.world.clock).1
    rw [hstep]
    have hflight : ({ s.moved (base + p.place) x s.router [] (.worker w') with active } : State).flight drawn u sub'.topic
        w'.subscription = s.flight drawn u sub.topic w.subscription := by
      rw [hw, htopic]
      exact flight_moved hs.worker hpubs htransport _ _ (.inr ⟨rfl, rfl⟩)
    have hshows : Shows drawn p { s.moved (base + p.place) x s.router [] (.worker w') with active } u t base run w' sub'
        { d with
          count := x.calls[p.place]?
          inbox := sub'.queue.map (·.veil drawn) ++ s.flight drawn u sub.topic w.subscription
          call := w'.occupation.call?.map (·.veil drawn) } :=
      ⟨hserving, set_append_self hs.worker, hw ▸ hsub, halive, hs.run, rfl, hflight ▸ rfl, rfl⟩
    refine .serving hshows (hd.trans htokens.symm) fun hhalt => ?_
    · rw [World.isCancelled, show (State.moved _ _ _ _ _ _).world.tokens = s.world.tokens from htokens]
      refine hc (hhalt.imp id fun hclose => ?_)
      rcases set_append_back hclose with ⟨-, hk⟩ | ⟨-, hk⟩ | ⟨-, hk⟩
      · cases hk
      · exact hk
      · cases hk
  · rw [hs.arrivals_eq ho, hserving.arrivals_eq (List.getElem?_eq_some_iff.mp ho.route).1]
    show (x.arrivals (base + p.place)).map (·.veil drawn) = _ ++ (d.step drawn p s.world.clock).2
    rw [hstep]
    exact hnew

theorem Shows.ends {x : World} {w' : Worker} {f : Option String} (hs : s.Shows drawn p u t base run w sub d)
    (ho : s.Tidy drawn p) (ha : s.Allows (.turn (base + p.place) b))
    (hm : s.microWorker (base + p.place) w = { s with world := x }.setTask (base + p.place) (.worker w'))
    (hr : d.isReady p.place s.world.clock = true) (hstep : d.step drawn p s.world.clock = (.ended, []))
    (hf : w'.occupation = .ended f) (hnew : x.arrivals (base + p.place) = s.world.arrivals (base + p.place)) :
    s.Advances drawn p u (.serving d) (s.apply (.turn (base + p.place) b)) := by
  have h := apply_step ha
  obtain ⟨active, he⟩ := turn_worker b hs.worker hm
  rw [he] at h ⊢
  have hserving := hs.serving.step h
  refine ⟨hr, ?_, ?_⟩
  · show Sees drawn p _ u (d.step drawn p s.world.clock).1
    rw [hstep]
    exact .ended hserving (set_append_self hs.worker) hf
  · rw [hs.arrivals_eq ho, hserving.arrivals_eq (List.getElem?_eq_some_iff.mp ho.route).1]
    show (x.arrivals (base + p.place)).map (·.veil drawn) = _ ++ (d.step drawn p s.world.clock).2
    rw [hstep, hnew, List.append_nil]

/-- A worker without a message takes the next one, or ends with the run, or stays as it is. -/
theorem Shows.own_idle (hs : s.Shows drawn p u t base run w sub d) (ho : s.Tidy drawn p) (hi : w.occupation = .idle)
    (hd : d.tokens = s.world.tokens) (hc : d.isReady p.place s.world.clock = true →
      s.router.shutdown = true ∨ s.tasks[u]? = some (.close .fresh) → s.world.isCancelled run = true)
    (ha : s.Allows (.turn (base + p.place) b)) :
    (∃ active, s.apply (.turn (base + p.place) b) = { s with active }) ∨
      s.Advances drawn p u (.serving d) (s.apply (.turn (base + p.place) b)) := by
  obtain ⟨hcontext, hhandler, hstages, htopic, -⟩ := hs.serves ho
  have hcall : d.call = none := by rw [hs.call, hi]; rfl
  have hcancel : d.tokens.isCancelled d.run.token = s.world.isCancelled run := by rw [hd, hs.run]; rfl
  have hended := hs.hasEnded ho
  cases hcancelled : s.world.isCancelled run with
  | true =>
    have hm := microWorker_stops (base + p.place) hi hs.subscription (hended.trans hcancelled)
    exact .inr (hs.ends ho ha hm (by simp [Desk.isReady, hcall, hcancel, hcancelled])
      (by simp [Desk.step, hcall, hcancel, hcancelled]) rfl rfl)
  | false =>
    cases hq : sub.queue with
    | nil => exact .inl (turn_stays b hs.worker (microWorker_waits (base + p.place) hi hs.subscription (hended.trans hcancelled) hq))
    | cons m rest =>
      have hm := microWorker_takes (base + p.place) hi hs.subscription (hended.trans hcancelled) hq
      have hinbox : d.inbox = m.veil drawn :: (rest.map (·.veil drawn) ++ s.flight drawn u sub.topic w.subscription) := by
        rw [hs.inbox, hq]
        rfl
      have hready : d.isReady p.place s.world.clock = true := by simp [Desk.isReady, hcall, hinbox]
      refine .inr (hs.goes (sub.take m rest) [.taken s.world.clock (m.veil drawn)] ho ha (hc hready) hm hready ?_ hd rfl (by simp) rfl rfl rfl ?_
        (Subscription.grant_topic _) ?_)
      · have hstart : (Call.start p.place p.pipeline p.route.handler d.run (m.veil drawn)).veil drawn =
            (Call.start w.route w.stages w.handler w.context m).veil drawn := by
          rw [Call.start_veil, Call.start_veil, Message.veil_veil, hs.route, hstages, hhandler, hcontext, hs.run]
        have hqueue : (sub.take m rest).queue = rest := Subscription.grant_queue _
        rw [Desk.step, hcall]
        dsimp only
        rw [hcancel, hcancelled, if_neg Bool.false_ne_true, hinbox]
        dsimp only
        rw [hstart, hqueue, hs.count]
        rfl
      · exact (Exchange.subscription?_update hs.subscription).trans (by rw [if_pos rfl])
      · rw [World.arrivals_note_taken, List.map_append]
        rfl

/-- A worker that is busy with a message. -/
theorem Shows.busy {m : Message} {c : Call} (hs : s.Shows drawn p u t base run w sub d) (ho : s.Tidy drawn p)
    (hb : p.Blind drawn) (hi : w.occupation = .busy m c) : d.call = some (c.veil drawn) ∧ c.route = p.place ∧
      c.Tame (Filter.Blind drawn) ∧ (∀ hd, c.handler = some hd → hd.Blind drawn) := by
  obtain ⟨htame, hhandler, hroute⟩ := (ho.tasks hs.worker).call hi
  obtain ⟨-, hpost, -, -, -⟩ := hs.serves ho
  refine ⟨by rw [hs.call, hi]; rfl, hroute.trans hs.route, ?_, fun hd he => ?_⟩
  · exact htame.mono fun f hf => hf hs.route
  · rw [hhandler, hpost] at he
    cases he
    exact hb.handler

/-- A worker that is busy settles its message once its call has ended. -/
theorem Shows.own_settles {m : Message} {c : Call} {o : Outcome} (hs : s.Shows drawn p u t base run w sub d)
    (ho : s.Tidy drawn p) (hb : p.Blind drawn) (hi : w.occupation = .busy m c) (hout : c.outcome? = some o)
    (hd : d.tokens = s.world.tokens)
    (hc : s.router.shutdown = true ∨ s.tasks[u]? = some (.close .fresh) → s.world.isCancelled run = true)
    (ha : s.Allows (.turn (base + p.place) b)) :
    s.Advances drawn p u (.serving d) (s.apply (.turn (base + p.place) b)) := by
  obtain ⟨hcall, -, -, -⟩ := hs.busy ho hb hi
  have hout' : (c.veil drawn).outcome? = some o := by rw [Call.outcome?_veil, hout]
  have hready : d.isReady p.place s.world.clock = true := by simp [Desk.isReady, hcall, hout']
  have hm : s.microWorker (base + p.place) w = s.settle (base + p.place) w m o := by simp [microWorker, hi, hout]
  have idle : ∀ {x : World} {lastError : Option String}, x = { s.world with journal := x.journal } →
      x.arrivals (base + p.place) = s.world.arrivals (base + p.place) → d.step drawn p s.world.clock =
        (.serving { d with call := none }, []) →
      s.microWorker (base + p.place) w = { s with world := x }.setTask (base + p.place)
        (.worker { w with lastError, occupation := .idle }) →
      s.Advances drawn p u (.serving d) (s.apply (.turn (base + p.place) b)) := fun {x lastError} hx hx' hstep hm => by
    refine hs.goes sub [] ho ha hc hm hready ?_ hd rfl (by simp) (by rw [hx]) (by rw [hx]) (by rw [hx])
      (by rw [hx]; exact hs.subscription) rfl (by rw [hx', List.append_nil])
    rw [hstep, hx, ← hs.inbox, ← hs.count]
    rfl
  cases o with
  | ok => exact idle rfl (World.arrivals_note rfl) (by simp [Desk.step, hcall, hout']) hm
  | failed e =>
    exact idle rfl ((World.arrivals_note rfl).trans (World.arrivals_note rfl)) (by simp [Desk.step, hcall, hout']) hm
  | panicked reason =>
    exact hs.ends ho ha hm hready (by simp [Desk.step, hcall, hout']) rfl
      ((World.arrivals_note rfl).trans ((World.arrivals_congr rfl).trans (World.arrivals_note rfl)))

/-- A worker that is busy goes on with its call, or waits in it. -/
theorem Shows.own_works {m : Message} {c : Call} (hs : s.Shows drawn p u t base run w sub d) (ho : s.Tidy drawn p)
    (hb : p.Blind drawn) (hi : w.occupation = .busy m c) (hout : c.outcome? = none) (hd : d.tokens = s.world.tokens)
    (hc : d.isReady p.place s.world.clock = true →
      s.router.shutdown = true ∨ s.tasks[u]? = some (.close .fresh) → s.world.isCancelled run = true)
    (ha : s.Allows (.turn (base + p.place) b)) :
    (∃ active, s.apply (.turn (base + p.place) b) = { s with active }) ∨
      s.Advances drawn p u (.serving d) (s.apply (.turn (base + p.place) b)) := by
  obtain ⟨hcall, hroute, htame, hblind⟩ := hs.busy ho hb hi
  have hm : s.microWorker (base + p.place) w =
      { s with world := (c.step (base + p.place) s.world).1 }.setTask (base + p.place)
        (.worker { w with occupation := .busy m (c.step (base + p.place) s.world).2 }) := by
    simp [microWorker, hi, hout]
  have hout' : (c.veil drawn).outcome? = none := by rw [Call.outcome?_veil, hout]
  have hsame : (c.veil drawn).isReady (d.world p.place s.world.clock) = c.isReady s.world :=
    Call.isReady_veil htame.unsent rfl hd
  cases hready : c.isReady s.world with
  | false =>
    refine .inl (turn_stays b hs.worker ?_)
    rw [hm, htame.stuck hout hready]
    dsimp only
    rw [← hi]
    exact setTask_self hs.worker
  | true =>
    have hmirrors : s.world.Mirrors drawn c.route (d.world p.place s.world.clock) :=
      ⟨rfl, hd, by rw [hroute, Desk.calls_world, hs.count], ho.hidden, rfl, rfl⟩
    have hstep : Call.Mirrored drawn (base + p.place) 0 s.world (c.step (base + p.place) s.world)
        ((c.veil drawn).step 0 (d.world p.place s.world.clock)) := htame.step_veil hblind hmirrors
    have hin := (htame.moves (c.step_moves (base + p.place) s.world)).2
    have hdready : d.isReady p.place s.world.clock = true := by
      simp [Desk.isReady, hcall, hsame, hready]
    refine .inr (hs.goes sub ((((c.veil drawn).step 0 (d.world p.place s.world.clock)).1.arrivals 0).map (·.veil drawn))
      ho ha (hc hdready) hm hdready ?_ hd rfl (by simp) hin.tokens (by rw [hin.exchange]) hin.firm.transport
      (by rw [hin.exchange]; exact hs.subscription) rfl hstep.arrivals)
    have hcalls := hstep.calls
    rw [(c.step_moves (base + p.place) s.world).same.2, hroute] at hcalls
    rw [Desk.step, hcall]
    dsimp only
    rw [hout', ← hs.inbox, ← hcalls]
    exact congrArg (fun c => (View.serving { d with count := _, call := some c }, _)) hstep.call.symm

/-- A turn of the worker takes the course one step on, or leaves everything as it is. -/
theorem Shows.own (hs : s.Shows drawn p u t base run w sub d) (ho : s.Tidy drawn p) (hb : p.Blind drawn)
    (hd : d.tokens = s.world.tokens) (hc : d.isReady p.place s.world.clock = true →
      s.router.shutdown = true ∨ s.tasks[u]? = some (.close .fresh) → s.world.isCancelled run = true)
    (ha : s.Allows (.turn (base + p.place) b)) :
    (∃ active, s.apply (.turn (base + p.place) b) = { s with active }) ∨
      s.Advances drawn p u (.serving d) (s.apply (.turn (base + p.place) b)) := by
  cases hi : w.occupation with
  | idle => exact hs.own_idle ho hi hd hc ha
  | busy m c =>
    cases hout : c.outcome? with
    | some o =>
      obtain ⟨hcall, -, -, -⟩ := hs.busy ho hb hi
      refine .inr (hs.own_settles ho hb hi hout hd (hc ?_) ha)
      simp [Desk.isReady, hcall, Call.outcome?_veil, hout]
    | none => exact hs.own_works ho hb hi hout hd hc ha
  | ended f => exact absurd hi (hs.alive f)

end State
end Relay
