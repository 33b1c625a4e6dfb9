import Relay.Proofs.Router.Reception

/-! The life of a router. It goes one way only, one run is all there is, nothing is registered any more once
    that has begun, and a router that has closed has no worker left that could call a handler. -/

namespace Relay

/-- The passages in the life of a router. -/
inductive Lifecycle.Next : Lifecycle → Lifecycle → Prop where
  | starts : Next .notStarted .running
  | drains : Next .running .draining
  | closes : Next .draining .closed
  | fails : Next .notStarted .closed

theorem Lifecycle.Next.ne_notStarted {l l' : Lifecycle} (h : l.Next l') : l' ≠ .notStarted := by
  cases h <;> simp

theorem Lifecycle.Next.of_closed {l : Lifecycle} : ¬Next .closed l := nofun

namespace State
variable {s s' start : State} {o : Op} {t base : Nat} {run : Context}

/-! ### One run -/

/-- A run that went ahead, and was not turned away because there had been another. -/
def Proceeds (s : State) (v : Supervision) : Prop :=
  (∀ c, v ≠ .fresh c) ∧ v ≠ .ended (s.verdict .alreadyRunning)

/-- Before the router is started no run has gone ahead; afterwards one has, and no other ever will. -/
inductive Sole (s : State) : Prop where
  | none : s.router.started = false → (∀ {u : Nat} {v : Supervision}, s.tasks[u]? = some (.run v) → ∃ c, v = .fresh c) →
      Sole s
  | one {t : Nat} {v : Supervision} : s.router.started = true → s.tasks[t]? = some (.run v) → s.Proceeds v →
      (∀ {u : Nat} {v : Supervision}, s.tasks[u]? = some (.run v) → u ≠ t →
        (∃ c, v = .fresh c) ∨ v = .ended (s.verdict .alreadyRunning)) → Sole s

theorem verdict_congr (h : s'.broker = s.broker) (e : LifecycleError) : s'.verdict e = s.verdict e := by
  simp [verdict, h]

theorem verdict_inj {e e' : LifecycleError} (h : s.verdict e = s.verdict e') : e = e' := by
  unfold verdict at h
  split at h <;> simpa using h

/-- Where a run goes that has gone ahead. -/
theorem Proceeds.moves {v v' : Supervision} {x : World} {r : Router} {new : List Task} (hp : s.Proceeds v)
    (hm : v.Moves s t x r new v') : s.Proceeds v' := by
  obtain ⟨hfresh, hended⟩ := hp
  cases hm with
  | stays => exact ⟨hfresh, hended⟩
  | rejected hv _ | begins hv _ => exact absurd hv (hfresh _)
  | skips _ _ | subscribes _ _ _ | breaksOff _ _ _ | serves _ _ | joins _ _ _ _ | drains _ _ | awaits _ _ _ =>
    exact ⟨by simp, by simp [verdict]⟩
  | finishes _ _ => exact ⟨by simp, by simp [verdict]⟩
  | declined _ _ _ _ =>
    refine ⟨by simp, fun h => ?_⟩
    have he := verdict_inj (s := s) (by simpa using h)
    cases he

theorem Proceeds.step {v : Supervision} (hp : s.Proceeds v) (ht : s.tasks[t]? = some (.run v)) (h : s.Step o s') :
    ∃ v', s'.tasks[t]? = some (.run v') ∧ s'.Proceeds v' := by
  have kept : ∀ {v : Supervision}, s.Proceeds v → s'.Proceeds v := fun hv => by
    rwa [Proceeds, verdict_congr h.broker]
  rcases h.own ht with ⟨b, k', x, r, new, active, -, hm, rfl, hk'⟩ | ⟨-, hsame | ⟨⟨c, hc, -⟩, -⟩⟩
  · cases hm with
    | stays => exact ⟨v, hk', kept hp⟩
    | @run _ v' _ _ _ hm => exact ⟨v', hk', kept (hp.moves hm)⟩
  · exact ⟨v, hsame, kept hp⟩
  · cases hc

/-- Once the router is started, a run that begins is turned away. -/
theorem Step.turned_away {u : Nat} {v' : Supervision} (h : s.Step o s') (hst : s.router.started = true)
    (hv : ∀ {v : Supervision}, s.tasks[u]? = some (.run v) → (∃ c, v = .fresh c) ∨ v = .ended (s.verdict .alreadyRunning))
    (hv' : s'.tasks[u]? = some (.run v')) : (∃ c, v' = .fresh c) ∨ v' = .ended (s'.verdict .alreadyRunning) := by
  rw [verdict_congr h.broker]
  rcases h.run_back hv' with ⟨v, hu⟩ | hc
  · have hcase := hv hu
    rcases h.own hu with ⟨b, k', x, r, new, active, -, hm, rfl, hk'⟩ | ⟨-, hsame | ⟨⟨c, hc, -⟩, -⟩⟩
    · rw [hv'] at hk'
      cases hk'
      cases hm with
      | stays => exact hcase
      | run hm =>
        cases hm with
        | stays => exact hcase
        | rejected _ _ => exact .inr rfl
        | begins _ hf =>
          rw [hst] at hf
          cases hf
        | skips hv _ | subscribes hv _ _ | declined hv _ _ _ | breaksOff hv _ _ | serves hv _ | joins hv _ _ _
        | drains hv _ | awaits hv _ _ | finishes hv _ => rcases hcase with ⟨c, hc⟩ | hc <;> rw [hc] at hv <;> cases hv
    · rw [hv'] at hsame
      cases hsame
      exact hcase
    · cases hc
  · exact .inl hc

/-- Before the router is started, the first run that begins goes ahead. -/
theorem Sole.first (hst : s.router.started = false)
    (hfresh : ∀ {u : Nat} {v : Supervision}, s.tasks[u]? = some (.run v) → ∃ c, v = .fresh c) (h : s.Step o s') :
    s'.Sole := by
  rcases h.keeps_or with ⟨hk, hn⟩ | ⟨t, v, v', x, r, new, active, ht, hm, rfl⟩
  · -- No run has moved, and those that have begun are fresh.
    refine .none (hk.started.trans hst) fun {u v'} hv' => ?_
    rcases h.run_back hv' with ⟨v, hv⟩ | hc
    · obtain ⟨c, rfl⟩ := hfresh hv
      rcases h.own hv with ⟨b, _, _, _, _, _, ho, -⟩ | ⟨-, hsame | ⟨⟨c, hc, -⟩, -⟩⟩
      · exact absurd hv (hn u b _ ho)
      · rw [hsame] at hv'
        cases hv'
        exact ⟨c, rfl⟩
      · cases hc
    · exact hc
  · obtain ⟨c, rfl⟩ := hfresh ht
    cases hm with
    | stays =>
      refine .none hst fun hv => ?_
      rcases set_append_back hv with ⟨-, he⟩ | ⟨-, hv⟩ | ⟨-, hv⟩
      · cases he
        exact ⟨c, rfl⟩
      · exact hfresh hv
      · cases hv
    | rejected _ hst' =>
      rw [hst] at hst'
      cases hst'
    | begins _ _ =>
      refine .one rfl (set_append_self ht) ⟨by simp, by simp⟩ fun hv hu => .inl ?_
      rcases set_append_back hv with ⟨he, -⟩ | ⟨-, hv⟩ | ⟨-, hv⟩
      · exact absurd he hu
      · exact hfresh hv
      · cases hv
    | skips hv _ | subscribes hv _ _ | declined hv _ _ _ | breaksOff hv _ _ | serves hv _ | joins hv _ _ _ | drains hv _
    | awaits hv _ _ | finishes hv _ => cases hv

theorem Sole.step (hs : s.Sole) (h : s.Step o s') : s'.Sole := by
  cases hs with
  | none hst hfresh => exact .first hst hfresh h
  | one hst ht hp hothers =>
    obtain ⟨v', hv', hp'⟩ := hp.step ht h
    have hst' : s'.router.started = true := by
      rcases h.keeps_or with ⟨hk, -⟩ | ⟨_, _, _, _, _, _, _, -, hm, rfl⟩
      · exact hk.started.trans hst
      · exact (hm.under hst).1
    exact .one hst' hv' hp' fun hw' hu => h.turned_away hst (fun hw => hothers hw hu) hw'

/-! ### What can be seen of a router -/

theorem Step.proceeds (hc : s.Course) (h : s.Step o s') :
    s'.router.lifecycle = s.router.lifecycle ∨ s.router.lifecycle.Next s'.router.lifecycle := by
  rcases h.keeps_or with ⟨hk, -⟩ | ⟨t, v, v', x, r, new, active, ht, hm, rfl⟩
  · exact .inl hk.lifecycle
  · show r.lifecycle = _ ∨ _
    cases hm with
    | stays | rejected _ _ | begins _ _ | skips _ _ | subscribes _ _ _ | breaksOff _ _ _ | joins _ _ _ _
    | awaits _ _ _ => exact .inl rfl
    | declined hv _ _ _ =>
      subst hv
      have hl := (hc.subscribing_of ht).lifecycle
      rw [hl]
      exact .inr .fails
    | serves hv _ =>
      subst hv
      have hl := (hc.subscribing_of ht).lifecycle
      rw [hl]
      exact .inr .starts
    | drains hv _ =>
      subst hv
      obtain ⟨_, _, _, hs⟩ := hc.serving_of ht id nofun
      obtain ⟨-, -, hl, -⟩ := hs.watching ht
      rw [hl]
      exact .inr .drains
    | finishes hv _ =>
      subst hv
      obtain ⟨_, _, _, hs⟩ := hc.serving_of ht id nofun
      obtain ⟨-, -, hl, -⟩ := hs.draining ht
      rw [hl]
      exact .inr .closes

theorem Step.not_back (hc : s.Course) (h : s.Step o s') (hl : s.router.lifecycle ≠ .notStarted) :
    s'.router.lifecycle ≠ .notStarted := by
  rcases h.proceeds hc with he | hn
  · rwa [he]
  · exact hn.ne_notStarted

theorem Step.closed (hc : s.Course) (h : s.Step o s') (hl : s.router.lifecycle = .closed) :
    s'.router.lifecycle = .closed := by
  rcases h.proceeds hc with he | hn
  · rwa [he]
  · rw [hl] at hn
    exact absurd hn Lifecycle.Next.of_closed

/-- All workers of a router that has closed have ended. -/
theorem Course.rested (hc : s.Course) (hl : s.router.lifecycle = .closed) {w : Worker}
    (hw : s.tasks[t]? = some (.worker w)) : ∃ f, w.occupation = .ended f := by
  obtain ⟨t₀, base, run, hs⟩ := hc.serving_of_worker hw
  cases hs.oversees with
  | watching _ h _ | draining _ h _ _ =>
    rw [hl] at h
    cases h
  | ended _ _ _ ha =>
    rcases ha.others hw with hu | hf
    · cases hu
    · exact hf

/-- A route has its worker, and as long as the worker is there its subscription is, under the topic of the
    route. -/
def InPlace (s : State) (r : Nat) (route : Route) : Prop :=
  ∃ (t : Nat) (w : Worker) (sub : Subscription), s.tasks[t]? = some (.worker w) ∧ w.route = r ∧ w.Serves s.router route ∧
    s.world.exchange.subscriptions[w.subscription]? = some sub ∧ sub.topic = route.topic ∧
    ((∀ f, w.occupation ≠ .ended f) → sub.dropped = false ∧ (s.world.exchange.closed = false →
      ∃ l, s.world.exchange.registry.lookup route.topic = some l ∧ w.subscription ∈ l))

theorem Course.inPlace (hc : s.Course) (hd : s.Delivers) (hx : s.world.exchange.Listed)
    (hl : s.router.lifecycle = .running) {r : Nat} {route : Route} (hr : s.router.routes[r]? = some route) :
    s.InPlace r route := by
  obtain ⟨t, base, run, hs⟩ := hc.serving_of_running hl
  obtain ⟨w, hw, rfl⟩ := hs.manned r (List.getElem?_eq_some_iff.mp hr).1
  obtain ⟨-, -, route', hserves⟩ := hs.serves hw
  obtain ⟨sub, hsub, htopic, -⟩ := hs.reads hw
  have hroute := hserves.listed
  rw [hr] at hroute
  cases hroute
  have htopic' : sub.topic = route.topic := htopic.trans hserves.topic
  refine ⟨_, w, sub, hw, rfl, hserves, hsub, htopic', fun hlive => ?_⟩
  have hdropped : sub.dropped = false := Bool.eq_false_iff.mpr fun hd' => by
    obtain ⟨f, hf⟩ := (hd.accounts hw hsub).dropped hd'
    exact hlive f hf
  refine ⟨hdropped, fun hopen => ?_⟩
  rw [← htopic']
  exact hx.present hopen hsub hdropped

/-- What holds of a router and of all around it at any time. -/
structure Lives (s : State) : Prop where
  course : s.Course
  delivers : s.Delivers
  exchange : s.world.exchange.Faithful
  programs : s.Programs
  sole : s.Sole
  aware : ∀ {t : Nat}, s.tasks[t]? = some (.awaitStart true) → s.router.lifecycle ≠ .notStarted
  returned : ∀ {t : Nat} {o : Outcome}, s.tasks[t]? = some (.close (.ended o)) →
    o = .panicked none ∨ o = s.verdict .notStarted ∨ s.router.lifecycle = .closed
  uncalled : (∀ {t : Nat} {w : Worker}, s.tasks[t]? ≠ some (.worker w)) → s.world.invocations = []

theorem IsNew.lives (hn : start.IsNew) : start.Lives where
  course := hn.course
  delivers := hn.delivers
  exchange := hn.faithful
  programs := ⟨by simp [hn.tasks], by simp [hn.tasks]⟩
  sole := .none hn.started (by simp [hn.tasks])
  aware := by simp [hn.tasks]
  returned := by simp [hn.tasks]
  uncalled _ := by simp [World.invocations, hn.journal]

theorem Step.aware (hc : s.Course) (h : s.Step o s')
    (hs : ∀ {t : Nat}, s.tasks[t]? = some (.awaitStart true) → s.router.lifecycle ≠ .notStarted)
    (ht : s'.tasks[t]? = some (.awaitStart true)) : s'.router.lifecycle ≠ .notStarted := by
  refine h.not_back hc ?_
  rcases h.back ht with ht | ⟨c, hc⟩ | ⟨-, hb⟩ | ⟨b, j, x, r, new, -, hj, hm⟩ | ⟨_, _, _, _, _, _, _, -, -, hm, -, hnew⟩
  · exact hs ht
  · cases hc
  · cases hb
  · cases hm with
    | stays => exact hs hj
    | learns hl => exact hl
  · obtain ⟨w, he, -⟩ := hm.new_idle (List.mem_of_getElem? hnew)
    cases he

theorem Step.returned {out : Outcome} (hc : s.Course) (h : s.Step o s')
    (hs : ∀ {t : Nat} {o : Outcome}, s.tasks[t]? = some (.close (.ended o)) →
      o = .panicked none ∨ o = s.verdict .notStarted ∨ s.router.lifecycle = .closed)
    (ht : s'.tasks[t]? = some (.close (.ended out))) :
    out = .panicked none ∨ out = s'.verdict .notStarted ∨ s'.router.lifecycle = .closed := by
  have hclosed := h.closed hc
  rw [verdict_congr h.broker]
  rcases h.close_back ht with ⟨c, hc⟩ | hfresh
  · rcases h.own hc with ⟨b, k', x, r, new, active, -, hm, rfl, hk'⟩ | ⟨-, hsame | ⟨-, hgone⟩⟩
    · rw [ht] at hk'
      cases hk'
      cases hm with
      | stays => exact (hs hc).imp id (.imp id hclosed)
      | close hm =>
        cases hm with
        | stays => exact (hs hc).imp id (.imp id hclosed)
        | rejected _ _ => exact .inr (.inl rfl)
        | returns _ hl _ | fails _ hl _ => exact .inr (.inr (hclosed hl))
    · rw [ht] at hsame
      cases hsame
      exact (hs hc).imp id (.imp id hclosed)
    · rw [ht] at hgone
      cases hgone
      exact .inl rfl
  · cases hfresh

theorem Lives.step (hs : s.Lives) (hk : o.OfRouter) (h : s.Step o s') : s'.Lives where
  course := hs.course.step h
  delivers := hs.delivers.step hs.course h
  exchange := h.exchange (P := Exchange.Faithful) (fun o hf => hf.step o) hs.exchange
  programs := hs.programs.step hk h
  sole := hs.sole.step h
  aware := h.aware hs.course hs.aware
  returned := h.returned hs.course hs.returned
  uncalled hn := by
    have hnone : ∀ {t : Nat} {w : Worker}, s.tasks[t]? ≠ some (.worker w) := fun {t w} hw => by
      rcases h.worker hw with ⟨b, w', -, hw', -⟩ | ⟨-, hw'⟩
      · exact hn hw'
      · exact hn hw'
    rw [hs.programs.invocations h fun hw => absurd hw hnone]
    exact hs.uncalled hnone

theorem Lives.runs (hs : s.Lives) (h : Runs Op.OfRouter s s') : s'.Lives :=
  h.keeps hs fun hk h hs => hs.step hk h

/-- What can be seen of a router at any time. -/
structure Observed (s : State) : Prop where
  running : s.router.lifecycle = .running → ∀ (r : Nat) (route : Route), s.router.routes[r]? = some route →
    s.InPlace r route
  closed : s.router.lifecycle = .closed → ∀ (t : Nat) (w : Worker), s.tasks[t]? = some (.worker w) →
    ∃ f, w.occupation = .ended f
  aware : ∀ t : Nat, s.tasks[t]? = some (.awaitStart true) → s.router.lifecycle ≠ .notStarted
  /-- A caller that closed the router has given up, came too early, or the router is closed. -/
  returned : ∀ (t : Nat) (o : Outcome), s.tasks[t]? = some (.close (.ended o)) →
    o = .panicked none ∨ o = s.verdict .notStarted ∨ s.router.lifecycle = .closed
  started : s.router.started = true ↔ ∃ (t : Nat) (v : Supervision), s.tasks[t]? = some (.run v) ∧ s.Proceeds v
  sole : ∀ (t t' : Nat) (v v' : Supervision), s.tasks[t]? = some (.run v) → s.tasks[t']? = some (.run v') →
    s.Proceeds v → s.Proceeds v' → t = t'

theorem Sole.started (hs : s.Sole) :
    s.router.started = true ↔ ∃ (t : Nat) (v : Supervision), s.tasks[t]? = some (.run v) ∧ s.Proceeds v := by
  cases hs with
  | none hst hfresh =>
    refine ⟨fun h => by simp [hst] at h, fun ⟨t, v, hv, hp⟩ => ?_⟩
    obtain ⟨c, rfl⟩ := hfresh hv
    exact absurd rfl (hp.1 c)
  | one hst ht hp _ => exact ⟨fun _ => ⟨_, _, ht, hp⟩, fun _ => hst⟩

theorem Sole.unique {t' : Nat} {v v' : Supervision} (hs : s.Sole) (hv : s.tasks[t]? = some (.run v))
    (hv' : s.tasks[t']? = some (.run v')) (hp : s.Proceeds v) (hp' : s.Proceeds v') : t = t' := by
  cases hs with
  | none _ hfresh =>
    obtain ⟨c, rfl⟩ := hfresh hv
    exact absurd rfl (hp.1 c)
  | @one t₀ v₀ _ _ _ hothers =>
    have howner : ∀ {u : Nat} {v : Supervision}, s.tasks[u]? = some (.run v) → s.Proceeds v → u = t₀ := by
      intro u v hv hp
      refine Decidable.byContradiction fun hu => ?_
      rcases hothers hv hu with ⟨c, hc⟩ | he
      · exact hp.1 c hc
      · exact hp.2 he
    rw [howner hv hp, howner hv' hp']

theorem Lives.observed (hs : s.Lives) : s.Observed where
  running hl _ _ hr := hs.course.inPlace hs.delivers hs.exchange.listed hl hr
  closed hl _ _ hw := hs.course.rested hl hw
  aware _ h := hs.aware h
  returned _ _ h := hs.returned h
  started := hs.sole.started
  sole _ _ _ _ := hs.sole.unique

/-! ### What a step does to the life of a router -/

/-- A step leaves the life of a router where it is, or leads on to what comes next: to running when all
    workers are there and none has moved yet, to closed when all have ended, and from the start to closed
    only if a subscription is refused, and then no handler has been called. -/
inductive Passage (s : State) (o : Op) (s' : State) : Prop where
  | same : s'.router.lifecycle = s.router.lifecycle → Passage s o s'
  | starts : s.router.lifecycle = .notStarted → s'.router.lifecycle = .running →
      (∀ (t : Nat) (w : Worker), s'.tasks[t]? = some (.worker w) → w.occupation = .idle) → Passage s o s'
  | drains : s.router.lifecycle = .running → s'.router.lifecycle = .draining → Passage s o s'
  | closes : s.router.lifecycle = .draining → s'.router.lifecycle = .closed →
      (∀ (t : Nat) (w : Worker), s.tasks[t]? = some (.worker w) → ∃ f, w.occupation = .ended f) → Passage s o s'
  | fails {t : Nat} {b : Branch} {run : Context} {made : List (Nat × Nat)} {r : Nat} {rest : List Nat} {route : Route}
      {e : TransportError} : s.router.lifecycle = .notStarted → s'.router.lifecycle = .closed → o = .turn t b →
      s.tasks[t]? = some (.run (.subscribing run made (r :: rest))) → s.router.routes[r]? = some route →
      s.world.subscribe .router run.token route.topic = .error (.refused e) →
      s'.tasks[t]? = some (.run (.ended (s.verdict (.subscribe route.topic e)))) →
      (∀ (t : Nat) (w : Worker), s'.tasks[t]? ≠ some (.worker w)) → s'.world.invocations = [] → Passage s o s'

theorem Lives.passage (hs : s.Lives) (hs' : s'.Lives) (h : s.Step o s') : s.Passage o s' := by
  rcases h.keeps_or with ⟨hk, -⟩ | ⟨t, v, v', x, r, new, active, ht, hm, rfl⟩
  · exact .same hk.lifecycle
  · have hc := hs.course
    cases hm with
    | stays | rejected _ _ | begins _ _ | skips _ _ | subscribes _ _ _ | breaksOff _ _ _ | joins _ _ _ _
    | awaits _ _ _ => exact .same rfl
    | @declined run made r rest route e _ hv hr hx _ =>
      subst hv
      have hsub := hc.subscribing_of ht
      obtain ⟨b, ho⟩ : ∃ b, o = .turn t b := by
        rcases h.own ht with ⟨b, _, _, _, _, _, ho, -⟩ | ⟨-, hsame | ⟨⟨c, hc, -⟩, -⟩⟩
        · exact ⟨b, ho⟩
        · rw [show (State.moved _ _ _ _ _ _).tasks[t]? = _ from set_append_self ht] at hsame
          cases hsame
        · cases hc
      have hunmanned : ∀ (u : Nat) (w : Worker),
          (s.tasks.set t (.run (.ended (s.verdict (.subscribe route.topic e)))) ++ [])[u]? ≠ some (.worker w) := by
        intro u w hw
        rcases set_append_back hw with ⟨-, he⟩ | ⟨-, hw⟩ | ⟨-, hw⟩
        · cases he
        · exact hsub.unmanned hw
        · cases hw
      exact .fails hsub.lifecycle rfl ho ht hr hx (set_append_self ht) hunmanned (hs'.uncalled fun {u w} => hunmanned u w)
    | serves hv hn =>
      subst hv
      have hsub := hc.subscribing_of ht
      refine .starts hsub.lifecycle rfl fun u w hw => ?_
      rcases set_append_back hw with ⟨-, he⟩ | ⟨-, hw⟩ | ⟨-, hnew⟩
      · cases he
      · exact absurd hw hsub.unmanned
      · obtain ⟨w', he, hidle⟩ := Task.Moves.new_idle (.run (.serves (t := t) rfl hn)) (List.mem_of_getElem? hnew)
        cases he
        exact hidle
    | drains hv _ =>
      subst hv
      obtain ⟨_, _, _, hserving⟩ := hc.serving_of ht id nofun
      obtain ⟨-, -, hl, -⟩ := hserving.watching ht
      exact .drains hl rfl
    | finishes hv _ =>
      subst hv
      obtain ⟨_, _, _, hserving⟩ := hc.serving_of ht id nofun
      obtain ⟨-, -, hl, -, ha⟩ := hserving.draining ht
      refine .closes hl rfl fun u w hw => ?_
      rcases ha.others hw with hu | hf
      · cases hu
      · exact hf

/-! ### Those who run, close and register -/

/-- How a router answers those who run or close it. -/
structure Answers (s : State) : Prop where
  /-- The first run goes ahead, with the routes that there are. -/
  first : ∀ (t : Nat) (b : Branch) (c : Context), s.tasks[t]? = some (.run (.fresh c)) → s.router.started = false →
    (s.apply (.turn t b)).router = { s.router with started := true } ∧
      ∃ run, (s.apply (.turn t b)).tasks[t]? =
        some (.run (.subscribing run [] (List.range s.router.routes.length)))
  /-- Another run is told that there has been one, and that is all. -/
  again : ∀ (t : Nat) (b : Branch) (c : Context), s.tasks[t]? = some (.run (.fresh c)) → s.router.started = true →
    s.apply (.turn t b) = { s.setTask t (.run (.ended (s.verdict .alreadyRunning))) with
      world := s.reported t .alreadyRunning, active := none }
  /-- So is a caller that closes the router before it has been run. -/
  early : ∀ (t : Nat) (b : Branch), s.tasks[t]? = some (.close .fresh) → s.router.started = false →
    s.apply (.turn t b) = { s.setTask t (.close (.ended (s.verdict .notStarted))) with
      world := s.reported t .notStarted, active := none }
  /-- Afterwards such a caller gets its answer only when the router is closed. -/
  late : ∀ (t : Nat) (b : Branch) (c : Closing) (o : Outcome), s.tasks[t]? = some (.close c) →
    s.router.started = true → (s.apply (.turn t b)).tasks[t]? = some (.close (.ended o)) →
    c = .ended o ∨ s.router.lifecycle = .closed

theorem turn_of_micro {b : Branch} {k : Task} {x : World} {r : Router}
    (hm : s.micro t b = { s with world := x, router := r }.setTask t k) (ht : t < s.tasks.length)
    (hk : k.atWait = true) : s.turn t b = { s.setTask t k with world := x, router := r, active := none } := by
  have hat : (s.micro t b).atWait t = true := by
    have hk' : (s.tasks.set t k)[t]? = some k := List.getElem?_set_self ht
    simp [hm, atWait, setTask, hk', hk]
  unfold turn
  dsimp only
  rw [hat, if_pos rfl, hm]
  rfl

theorem answers (s : State) : s.Answers where
  first t b c ht hst := by
    have hl := (List.getElem?_eq_some_iff.mp ht).1
    show (s.micro t b).router = _ ∧ ∃ run, (s.micro t b).tasks[t]? = _
    simp only [micro, ht, microRun, hst, setTask, Bool.false_eq_true, if_false]
    exact ⟨trivial, _, List.getElem?_set_self hl⟩
  again t b c ht hst := by
    refine turn_of_micro ?_ (List.getElem?_eq_some_iff.mp ht).1 rfl
    simp only [micro, ht, microRun, hst, report_eq, if_true]
    rfl
  early t b ht hst := by
    refine turn_of_micro ?_ (List.getElem?_eq_some_iff.mp ht).1 rfl
    simp only [micro, ht, microClose, hst, report_eq]
    rfl
  late t b c o ht hst ho := by
    have hl := (List.getElem?_eq_some_iff.mp ht).1
    replace ho : (s.micro t b).tasks[t]? = some (.close (.ended o)) := ho
    simp only [micro, ht] at ho
    cases c with
    | fresh => simp [microClose, hst, setTask, hl] at ho
    | waiting =>
      by_cases hc : s.router.lifecycle = .closed
      · exact .inr hc
      · simp [microClose, hc, ht] at ho
    | ended o' =>
      rw [show s.microClose t (.ended o') = s from rfl, ht] at ho
      cases ho
      exact .inl rfl

/-- Nothing can be registered any more, and an attempt changes nothing, but that a broker gives notice. -/
structure Sealed (s : State) : Prop where
  stage : ∀ g, s.router.addStage g = .error .alreadyRunning ∧ s.apply (.addStage g) = s
  routes : ∀ rs, s.router.addRoutes rs = .error .running ∧ s.apply (.addRoutes rs) = s
  handlers : ∀ role c bs, s.router.admit role bs = .error .running ∧
    (s.apply (.addHandlers role c bs) = s ∨ ∃ id e,
      s.apply (.addHandlers role c bs) = s.note s.tasks.length (.noticed (.addFailed role id e)))

theorem sealed_of_started (hst : s.router.started = true) : s.Sealed := by
  have hroutes : ∀ rs, s.router.addRoutes rs = .error .running := fun rs => by rw [Router.addRoutes, if_pos hst]
  refine ⟨fun g => ?_, fun rs => ⟨hroutes rs, ?_⟩, fun role c bs => ?_⟩
  · have hstage : s.router.addStage g = .error .alreadyRunning := by rw [Router.addStage, if_pos hst]
    refine ⟨hstage, ?_⟩
    show s.register (s.router.addStage g) = s
    rw [hstage]
    rfl
  · show s.register (s.router.addRoutes rs) = s
    rw [hroutes]
    rfl
  · have hrefused : s.router.admit role bs = .error .running := by
      cases role with
      | command => exact if_pos hst
      | event =>
        show (s.router.addRoutes _).map _ = _
        rw [hroutes]
        rfl
    refine ⟨hrefused, ?_⟩
    show (s.addHandlers role c bs).2 = s ∨ ∃ id e, (s.addHandlers role c bs).2 = _
    rcases s.addHandlers_cases role c bs with ⟨r, hr, -⟩ | ⟨e, -, h | ⟨id, h⟩⟩
    · rw [hrefused] at hr
      cases hr
    · exact .inl (by rw [h])
    · exact .inr ⟨id, _, by rw [h]⟩

theorem Step.frozen (h : s.Step o s') (hst : s.router.started = true) : s'.router.started = true ∧
    s'.router.stages = s.router.stages ∧ s'.router.routes = s.router.routes := by
  rcases h.keeps_or with ⟨hk, -⟩ | ⟨t, v, v', x, r, new, active, -, hm, rfl⟩
  · obtain ⟨hroutes, hstages⟩ := hk.frozen hst
    exact ⟨hk.started.trans hst, hstages, hroutes⟩
  · obtain ⟨hstages, hroutes⟩ := (Task.Moves.run hm).router
    exact ⟨(hm.under hst).1, hstages, hroutes⟩

/-- The life of a router, in every state that a new one can come to. It is as it can be observed, every
    further step takes it where it is, or one passage on, and those who run and close it are answered in
    time. Once it is started, nothing is registered and the stages and routes stay. Once it is closed, it
    stays so, and no handler is called any more. -/
theorem lifecycle (hn : start.IsNew) (h : Runs Op.OfRouter start s) :
    s.Observed ∧ s.Answers ∧
      (∀ o, o.OfRouter → s.Allows o → s.Passage o (s.apply o)) ∧
      (s.router.started = true → s.Sealed ∧ ∀ s', Runs Op.OfRouter s s' →
        s'.router.started = true ∧ s'.router.stages = s.router.stages ∧ s'.router.routes = s.router.routes) ∧
      (s.router.lifecycle = .closed → ∀ s', Runs Op.OfRouter s s' →
        s'.router.lifecycle = .closed ∧ s'.world.invocations = s.world.invocations) := by
  have hs : s.Lives := hn.lives.runs h
  refine ⟨hs.observed, s.answers, fun o hk ha => hs.passage (hs.step hk (apply_step ha)) (apply_step ha),
    fun hst => ⟨sealed_of_started hst, fun s' h' => ?_⟩, fun hl s' h' => ?_⟩
  · refine h'.keeps (P := fun s' => s'.router.started = true ∧ s'.router.stages = s.router.stages ∧
      s'.router.routes = s.router.routes) ⟨hst, rfl, rfl⟩ fun _ h ⟨hst', hstages, hroutes⟩ => ?_
    obtain ⟨hst'', hstages', hroutes'⟩ := h.frozen hst'
    exact ⟨hst'', hstages'.trans hstages, hroutes'.trans hroutes⟩
  · have hinv : s'.Lives ∧ s'.router.lifecycle = .closed ∧ s'.world.invocations = s.world.invocations :=
      h'.keeps (P := fun s' => s'.Lives ∧ s'.router.lifecycle = .closed ∧
        s'.world.invocations = s.world.invocations) ⟨hs, hl, rfl⟩ fun {s₁ o s₂} hk h ⟨hs₁, hl₁, hc₁⟩ => by
      have hcalls : s₂.world.invocations = s₁.world.invocations := hs₁.programs.invocations h fun hw ho => by
        obtain ⟨f, hf⟩ := hs₁.course.rested hl₁ hw
        rw [ho] at hf
        cases hf
      exact ⟨hs₁.step hk h, h.closed hs₁.course hl₁, hcalls.trans hc₁⟩
    exact hinv.2

/-- A router is closed too early, run, and run once more while it is at work; its worker gets a message, and
    then the exchange closes. -/
def livingOnce : List Op :=
  [Op.close, .turn 0 .shutdown,
    .addRoutes [{ name := "copy", topic := "in", handler := ⟨"copy", none, fun _ _ _ => .started (.finish .ok)⟩ }],
    .awaitStart, .token, .run { token := 0 }] ++ List.replicate 3 (Op.turn 2 .shutdown) ++
  [Op.run { token := 0 }, .turn 4 .shutdown, .turn 1 .shutdown,
    .publish "in" [⟨some "a", [1], ∅⟩]] ++ List.replicate 8 (Op.turn 5 .shutdown) ++
  List.replicate 5 (Op.turn 3 .shutdown) ++
  [Op.closeExchange, .turn 3 .shutdown, .turn 2 (.joined 3), .turn 2 .shutdown]

def livedOnce : State := (blank.replay livingOnce).getD blank

theorem lifecycle_of_one : Runs Op.OfRouter blank livedOnce ∧ livedOnce.router.lifecycle = .closed ∧
    livedOnce.world.invocations.length = 1 ∧ livedOnce.Observed ∧ livedOnce.Sealed ∧
    ∀ s', Runs Op.OfRouter livedOnce s' → s'.world.invocations = livedOnce.world.invocations := by
  have hruns : Runs Op.OfRouter blank livedOnce :=
    Runs.refl.replay (by decide) (show blank.replay livingOnce = some livedOnce from rfl)
  obtain ⟨hobserved, -, -, hstarted, hclosed⟩ := lifecycle ⟨rfl, rfl, rfl, rfl, rfl, rfl⟩ hruns
  have hl : livedOnce.router.lifecycle = .closed := rfl
  exact ⟨hruns, hl, rfl, hobserved, (hstarted rfl).1, fun s' h => (hclosed hl s' h).2⟩

end State
end Relay
