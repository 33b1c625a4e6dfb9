import Relay.Proofs.Isolation.Sight

/-! The course of a route followed through a whole run. Whatever the tasks do, in whatever order, the route
    stays on its course or goes one step on (`State.Sees.turn`); time passes only where it can do nothing
    (`State.Sees.rests`), and what is asked for from the outside becomes its input (`State.Sees.request`). So a
    run that plays a script has come to where the course leads (`State.Plays.follows`). -/

namespace Relay
variable {drawn : Uuid → Prop} {p : Post}

/-! ### Which topics can be subscribed -/

theorem World.subscribe_eq {w x : World} {t : Token} {topic : String} {sub : Nat}
    (h : w.subscribe .router t topic = .ok (sub, x)) :
    x = { w with exchange := x.exchange } ∧ w.transport.refuseSubscribe.get? topic = none := by
  unfold subscribe at h
  split at h
  · cases h
  · rename_i hn
    split at h
    · cases h
    · cases h
      exact ⟨rfl, hn⟩

theorem World.subscribe_refused {w : World} {t : Token} {topic : String} {e : TransportError}
    (hc : w.exchange.closed = false) (h : w.subscribe .router t topic = .error (.refused e)) :
    w.transport.refuseSubscribe.get? topic ≠ none := by
  unfold subscribe at h
  split at h
  · rename_i reason hr
    replace hr : w.transport.refuseSubscribe.get? topic = some reason := hr
    simp [hr]
  · split at h
    · rename_i he
      replace he : w.exchange.subscribe t topic = _ := he
      unfold Exchange.subscribe Exchange.enlist at he
      rw [hc, if_neg Bool.false_ne_true] at he
      split at he <;> simp_all
    · cases h

theorem Exchange.Roomy.not_oversized {e : Exchange} (h : e.Roomy) : e.isOversized = false := by
  simp [Exchange.isOversized, h.capacity]

/-- A call that is not ready is not so later either, until its timer is due. -/
theorem Call.isReady_later {c : Call} {x : World} {now : Nat} (h : c.isReady x = false)
    (hn : ∀ timer, c.timer? = some timer → now < timer.due) : c.isReady { x with clock := now } = false := by
  unfold Call.isReady at h ⊢
  unfold Call.timer? at hn
  cases hp : c.phase with
  | asleep timer n q ctx =>
    rw [hp] at hn
    simpa [World.isDue] using hn timer rfl
  | backoff timer e =>
    simp only [hp, Bool.or_eq_false_iff] at h hn ⊢
    exact ⟨by simpa [World.isDue] using hn timer rfl, h.2⟩
  | entering _ _ _ | acting _ _ _ | awaiting _ _ _ | sending _ _ _ _ _ _ | leaving _ =>
    simp only [hp] at h ⊢
    exact h

namespace Post

theorem open_of_mem {topic : String} (h : p.isOpen = true) (ht : topic ∈ p.topics) :
    p.transport.refuseSubscribe.get? topic = none :=
  Option.isNone_iff_eq_none.mp (List.all_eq_true.mp h topic ht)

theorem refused_of_not_open (h : p.isOpen = false) :
    ∃ (r : Nat) (topic : String), p.topics[r]? = some topic ∧ p.transport.refuseSubscribe.get? topic ≠ none := by
  obtain ⟨topic, ht, hr⟩ := List.all_eq_false.mp h
  obtain ⟨r, hr'⟩ := List.getElem?_of_mem ht
  exact ⟨r, topic, hr', fun he => hr (by simp [he])⟩

end Post

namespace State
variable {s s' : State} {o : Op} {t u base : Nat} {run : Context} {w : Worker} {sub : Subscription} {d : Desk}
  {v : View} {active : Option Nat}

theorem Tidy.topic_of {r : Nat} {route : Route} (ho : s.Tidy drawn p) (hr : s.router.routes[r]? = some route) :
    p.topics[r]? = some route.topic := by
  rw [← ho.topics, List.getElem?_map, hr]
  rfl

theorem Shows.undropped (hs : s.Shows drawn p u t base run w sub d) (ho : s.Tidy drawn p) : sub.dropped = false := by
  refine Bool.eq_false_iff.mpr fun hd => ?_
  obtain ⟨f, hf⟩ := (ho.delivers.accounts hs.worker hs.subscription).dropped hd
  exact hs.alive f hf

theorem Shows.retold (hs : s.Shows drawn p u t base run w sub d) (tokens : Tokens) :
    s.Shows drawn p u t base run w sub { d with tokens } :=
  ⟨hs.serving, hs.worker, hs.subscription, hs.alive, hs.run, hs.count, hs.inbox, hs.call⟩

/-! ### Turns of other tasks -/

theorem Sees.posts {k k' : Task} {c c' : Call} {x : World} (hv : s.Sees drawn p u v) (ho : s.Tidy drawn p)
    (hu : s.tasks[u]? = some k)
    (hk : k = .call c ∧ k' = .call c' ∨ ∃ e, k = .errand e c none ∧ k' = .errand e c' none)
    (hd : c.Delivers drawn s.world x c') (h : s.Step o { s.moved u x s.router [] k' with active }) :
    Sees drawn p { s.moved u x s.router [] k' with active } u v := by
  have hself : ({ s.moved u x s.router [] k' with active } : State).tasks[u]? = some k' := set_append_self hu
  have hcall : (∀ v, k ≠ .run v) ∧ (∀ c, k ≠ .close c) ∧ (∀ w, k ≠ .worker w) ∧ (∀ v, k' ≠ .run v) ∧
      (∀ c, k' ≠ .close c) ∧ ∀ topic i, k.flight drawn s.world topic i = c.flight drawn s.world topic i ∧
        k'.flight drawn x topic i = c'.flight drawn x topic i := by
    rcases hk with ⟨rfl, rfl⟩ | ⟨e, rfl, rfl⟩
    · exact ⟨by simp, by simp, by simp, by simp, by simp, fun _ _ => ⟨rfl, rfl⟩⟩
    · exact ⟨by simp, by simp, by simp, by simp, by simp, fun _ _ => ⟨rfl, rfl⟩⟩
  obtain ⟨hrun, hclose, hworker, hrun', hclose', hflight⟩ := hcall
  have elsewhere : ∀ {j : Task}, s.tasks[u]? = some j → j = k := fun hj => Option.some.inj (hj.symm.trans hu)
  obtain ⟨used, journal, exchange, rfl⟩ := hd.world
  cases hv with
  | waiting hst hsh hn =>
    refine .waiting hst hsh fun c hc => hrun' (.fresh c) ?_
    rw [hself] at hc
    exact Option.some.inj hc
  | due _ _ ht => exact absurd (elsewhere ht).symm (hrun _)
  | subscribing hs _ _ _ | doomed hs _ _ _ => exact absurd (elsewhere hs.owner).symm (hrun _)
  | failed hover => exact .failed (hover.step h)
  | ended hs hw hf => exact Sees.ended_step hs hw hf h
  | serving hs hd' hc =>
    obtain ⟨sub', hsub', hfed, hinbox⟩ := hd.flight hs.subscription (hs.undropped ho)
    refine .serving (hs.keeps h (set_append_of_ne hs.worker fun he => ?_) hsub' rfl rfl rfl rfl ?_) hd' fun hhalt => ?_
    · rw [← he] at hu
      exact hworker _ (Option.some.inj (hu.symm.trans hs.worker))
    · rw [hs.inbox, hfed.topic, flight, flight, hself, hu]
      dsimp only
      rw [(hflight _ _).1]
      exact hinbox.symm.trans (congrArg _ (hflight _ _).2.symm)
    · refine hc (hhalt.imp id fun hcl => absurd ?_ (hclose' .fresh))
      rw [hself] at hcl
      exact Option.some.inj hcl
  | stopping _ _ _ ht _ _ => exact absurd (elsewhere ht).symm (hclose _)

theorem Sees.begins {c : Context} (hv : s.Sees drawn p u v) (ho : s.Tidy drawn p)
    (hu : s.tasks[u]? = some (.run (.fresh c))) (hst : s.router.started = false)
    (h : s.Step o { s.moved u { s.world with tokens := s.world.tokens.derive c.token }
      { s.router with started := true } []
      (.run (.subscribing { c with token := s.world.tokens.next } [] (List.range s.router.routes.length))) with
        active }) :
    Sees drawn p { s.moved u { s.world with tokens := s.world.tokens.derive c.token }
      { s.router with started := true } []
      (.run (.subscribing { c with token := s.world.tokens.next } [] (List.range s.router.routes.length))) with
        active } u v := by
  cases hv with
  | waiting _ _ hn => exact absurd hu (hn c)
  | due _ hsh ht =>
    rw [hu] at ht
    cases ht
    have hs := (ho.course.step h).subscribing_of (set_append_self hu)
    cases hopen : p.isOpen with
    | true =>
      have hinput : (View.waiting s.world.tokens s.world.calls[p.place]?).input drawn p (.run c) = .serving
          { tokens := s.world.tokens.derive c.token, run := { c with token := s.world.tokens.next },
            count := s.world.calls[p.place]? } := if_pos hopen
      rw [hinput]
      exact .subscribing hs hsh hopen fun m hm => nomatch hm
    | false =>
      have hinput : (View.waiting s.world.tokens s.world.calls[p.place]?).input drawn p (.run c) = .ended :=
        if_neg (by simp [hopen])
      rw [hinput]
      obtain ⟨r, topic, hr, hn⟩ := Post.refused_of_not_open hopen
      refine .doomed hs (List.mem_range.mpr ?_) hr hn
      have hl := (List.getElem?_eq_some_iff.mp hr).1
      rwa [← ho.topics, List.length_map] at hl
  | subscribing hs _ _ _ | doomed hs _ _ _ =>
    rw [hs.started] at hst
    cases hst
  | failed hover => exact .failed (hover.step h)
  | ended hs hw hf => exact Sees.ended_step hs hw hf h
  | serving hs _ _ | stopping hs _ _ _ _ _ =>
    rw [hs.serving.started] at hst
    cases hst

/-- The worker of the route begins with nothing to do. -/
theorem Subscribing.shows {made : List (Nat × Nat)} {workers : List Task} (hs : s.Subscribing u run made [])
    (ho : s.Tidy drawn p) (hw : workers = made.filterMap fun m => s.workerFor run m.1 m.2)
    (hq : ∀ m ∈ made, ∀ sub, s.world.exchange.subscriptions[m.2]? = some sub → sub.queue = []) :
    ∃ w sub, Shows drawn p ({ s.moved u s.world { s.router with lifecycle := .running } workers
      (.run (.watching run ((List.range workers.length).map (s.tasks.length + ·)) [])) with active }) u u s.tasks.length
        run w sub { tokens := s.world.tokens, run, count := s.world.calls[p.place]? } := by
  have hserving := @Subscribing.serves s u run active made workers hs hw
  obtain ⟨w, hplace, -⟩ := hserving.manned p.place (List.getElem?_eq_some_iff.mp ho.route).1
  rcases set_append_back hplace with ⟨-, he⟩ | ⟨-, hold⟩ | ⟨-, hnew⟩
  · cases he
  · exact absurd hold hs.unmanned
  · have hmem := List.mem_of_getElem? hnew
    rw [hw] at hmem
    obtain ⟨m, hm, hf⟩ := List.mem_filterMap.mp hmem
    obtain ⟨w', he, hidle⟩ := workerFor_idle hf
    cases he
    obtain ⟨-, hi, -⟩ := workerFor_serves hf
    obtain ⟨-, sub, -, hsub, -⟩ := hs.made m hm
    have hflight : ∀ topic i, ({ s.moved u s.world { s.router with lifecycle := .running } workers
        (.run (.watching run ((List.range workers.length).map (s.tasks.length + ·)) [])) with active } : State).flight
          drawn u topic i = [] := fun topic i => by
      rw [flight, show (State.moved _ _ _ _ _ _).tasks[u]? = _ from set_append_self hs.owner]
      rfl
    refine ⟨w, sub, hserving, hplace, hi ▸ hsub, by simp [hidle], rfl, rfl, ?_, by rw [hidle]; rfl⟩
    rw [hq m hm sub hsub, hflight]
    rfl

theorem Sees.subscribes {made : List (Nat × Nat)} {rest : List Nat} {v' : Supervision} {x : World} {r : Router}
    {new : List Task} (hs : s.Subscribing u run made rest) (ho : s.Tidy drawn p) (hsh : s.router.shutdown = false)
    (hopen : p.isOpen = true)
    (hq : ∀ m ∈ made, ∀ sub, s.world.exchange.subscriptions[m.2]? = some sub → sub.queue = [])
    (hm : Supervision.Moves s u (.subscribing run made rest) x r new v')
    (h : s.Step o { s.moved u x r new (.run v') with active }) :
    Sees drawn p { s.moved u x r new (.run v') with active } u
      (.serving { tokens := s.world.tokens, run, count := s.world.calls[p.place]? }) := by
  have hself : ({ s.moved u x r new (.run v') with active } : State).tasks[u]? = some (.run v') :=
    set_append_self hs.owner
  cases hm with
  | stays => exact .subscribing ((ho.course.step h).subscribing_of hself) hsh hopen hq
  | skips hrest _ =>
    cases hrest
    exact .subscribing ((ho.course.step h).subscribing_of hself) hsh hopen hq
  | subscribes hrest _ hsub =>
    cases hrest
    obtain ⟨hi, hsubs, htokens⟩ := World.subscribe_router hsub
    obtain ⟨hx, -⟩ := World.subscribe_eq hsub
    have hcalls : x.calls = s.world.calls := by rw [hx]
    rw [← htokens, ← hcalls]
    refine .subscribing ((ho.course.step h).subscribing_of hself) hsh hopen fun m hm sub' hsub' => ?_
    replace hsub' : x.exchange.subscriptions[m.2]? = some sub' := hsub'
    rw [hsubs] at hsub'
    rcases getElem?_concat_cases hsub' with hold | ⟨he, rfl⟩
    · rcases List.mem_append.mp hm with hm | hm
      · exact hq m hm sub' hold
      · obtain rfl := List.mem_singleton.mp hm
        rw [show _ = s.world.exchange.subscriptions.length from hi, List.getElem?_eq_none (Nat.le_refl _)] at hold
        cases hold
    · rfl
  | declined hrest hr hsub _ =>
    cases hrest
    have hrefused := World.subscribe_refused ho.opened hsub
    rw [ho.transport] at hrefused
    exact absurd (Post.open_of_mem hopen (List.mem_of_getElem? (ho.topic_of hr))) hrefused
  | breaksOff _ _ hsub =>
    have hover := World.subscribe_brokeOff hsub
    rw [ho.roomy.not_oversized] at hover
    cases hover
  | serves hrest hn =>
    cases hrest
    obtain ⟨w, sub, hshows⟩ := hs.shows ho hn hq
    refine .serving hshows rfl fun hhalt => ?_
    rcases hhalt with hh | hc
    · rw [show s.router.shutdown = true from hh] at hsh
      cases hsh
    · rw [hself] at hc
      cases hc
  | rejected hf _ | begins hf _ | joins hf _ _ _ | drains hf _ | awaits hf _ _ | finishes hf _ => cases hf

/-- The run comes to nothing once a topic that is refused is among those still to be subscribed. -/
theorem Sees.fails {made : List (Nat × Nat)} {rest : List Nat} {i : Nat} {topic : String} {v' : Supervision} {x : World}
    {r : Router} {new : List Task} (hs : s.Subscribing u run made rest) (ho : s.Tidy drawn p) (hi : i ∈ rest)
    (hp : p.topics[i]? = some topic) (hn : p.transport.refuseSubscribe.get? topic ≠ none)
    (hm : Supervision.Moves s u (.subscribing run made rest) x r new v')
    (h : s.Step o { s.moved u x r new (.run v') with active }) :
    Sees drawn p { s.moved u x r new (.run v') with active } u .ended := by
  have hself : ({ s.moved u x r new (.run v') with active } : State).tasks[u]? = some (.run v') :=
    set_append_self hs.owner
  cases hm with
  | stays => exact .doomed ((ho.course.step h).subscribing_of hself) hi hp hn
  | skips hrest hnone =>
    cases hrest
    rcases List.mem_cons.mp hi with rfl | hi
    · rw [← ho.topics, List.getElem?_map, hnone] at hp
      cases hp
    · exact .doomed ((ho.course.step h).subscribing_of hself) hi hp hn
  | subscribes hrest hroute hsub =>
    cases hrest
    rcases List.mem_cons.mp hi with rfl | hi
    · rw [ho.topic_of hroute] at hp
      obtain rfl := Option.some.inj hp
      rw [← ho.transport] at hn
      exact absurd (World.subscribe_eq hsub).2 hn
    · exact .doomed ((ho.course.step h).subscribing_of hself) hi hp hn
  | declined _ _ _ _ => exact .failed (hs.fails hs.started (.inl rfl))
  | breaksOff _ _ hsub =>
    have hover := World.subscribe_brokeOff hsub
    rw [ho.roomy.not_oversized] at hover
    cases hover
  | serves hrest _ =>
    cases hrest
    cases hi
  | rejected hf _ | begins hf _ | joins hf _ _ _ | drains hf _ | awaits hf _ _ | finishes hf _ => cases hf

theorem Sees.subscribing_moves {made : List (Nat × Nat)} {rest : List Nat} {v' : Supervision} {x : World} {r : Router}
    {new : List Task} (hv : s.Sees drawn p u v) (ho : s.Tidy drawn p)
    (ht : s.tasks[t]? = some (.run (.subscribing run made rest)))
    (hm : Supervision.Moves s t (.subscribing run made rest) x r new v')
    (h : s.Step o { s.moved t x r new (.run v') with active }) :
    Sees drawn p { s.moved t x r new (.run v') with active } u v := by
  have hs := ho.course.subscribing_of ht
  -- There is one supervisor at work.
  have lone : ∀ {run' : Context} {made' : List (Nat × Nat)} {rest' : List Nat}, s.Subscribing u run' made' rest' →
      t = u ∧ run' = run ∧ made' = made ∧ rest' = rest := fun hs' => by
    obtain rfl : t = u := Decidable.byContradiction fun hne => hs'.lone ht hne
    have he := hs'.owner
    rw [ht] at he
    cases he
    exact ⟨rfl, rfl, rfl, rfl⟩
  cases hv with
  | waiting hst _ _ | due hst _ _ =>
    rw [hs.started] at hst
    cases hst
  | failed hover => exact .failed (hover.step h)
  | ended hserving _ _ => exact absurd ht hserving.not_subscribing
  | serving hs' _ _ | stopping hs' _ _ _ _ _ => exact absurd ht hs'.serving.not_subscribing
  | subscribing hs' hsh hopen hq =>
    obtain ⟨rfl, rfl, rfl, rfl⟩ := lone hs'
    exact .subscribes hs ho hsh hopen hq hm h
  | doomed hs' hr hp hn =>
    obtain ⟨rfl, rfl, rfl, rfl⟩ := lone hs'
    exact .fails hs ho hr hp hn hm h

/-- Another task moves, and nothing was or is on its way from it. -/
theorem Shows.moved {t' : Nat} {k k' : Task} {x : World} {r : Router} (hs : s.Shows drawn p u t base run w sub d)
    (ht : s.tasks[t']? = some k) (h : s.Step o { s.moved t' x r [] k' with active })
    (hx : x.exchange = s.world.exchange) (hcalls : x.calls = s.world.calls) (htransport : x.transport = s.world.transport)
    (hk : ∀ w, k ≠ .worker w)
    (hflight : ∀ topic i, k.flight drawn s.world topic i = [] ∧ k'.flight drawn x topic i = []) :
    Shows drawn p { s.moved t' x r [] k' with active } u t base run w sub d := by
  refine hs.keeps h (set_append_of_ne hs.worker fun he => ?_) (hx ▸ hs.subscription) (hcalls ▸ rfl) rfl rfl rfl ?_
  · rw [← he, hs.worker] at ht
    exact hk w (Option.some.inj ht).symm
  · rw [hs.inbox, flight_moved ht (hx ▸ rfl) htransport _ _ (.inr (hflight _ _))]

/-- A run is drained when it is cancelled or told to, as the worker of the route has not ended. -/
theorem Sees.drains {run' : Context} {workers workers' : List Nat} {failures failures' : List String}
    (hv : s.Sees drawn p u v) (ho : s.Tidy drawn p) (ht : s.tasks[t]? = some (.run (.watching run' workers failures)))
    (hw : s.world.isCancelled run' = true ∨ s.router.shutdown = true ∨
      ∃ w ∈ workers, (s.ended? w).isSome ∧ workers.erase w = [])
    (h : s.Step o { s.moved t (s.world.cancel run'.token) { s.router with lifecycle := .draining } []
      (.run (.draining run' workers' failures')) with active }) :
    Sees drawn p { s.moved t (s.world.cancel run'.token) { s.router with lifecycle := .draining } []
      (.run (.draining run' workers' failures')) with active } u v := by
  obtain ⟨t₀, base₀, run₀, hs₀⟩ := ho.course.serving_of ht id (by simp)
  have kept : ∀ {t₁ base : Nat} {run : Context} {w : Worker} {sub : Subscription} {d : Desk},
      s.Shows drawn p u t₁ base run w sub d →
      Shows drawn p { s.moved t (s.world.cancel run'.token) { s.router with lifecycle := .draining } []
        (.run (.draining run' workers' failures')) with active } u t₁ base run w sub d :=
    fun hs => hs.moved ht h rfl rfl rfl (by simp) fun _ _ => ⟨rfl, rfl⟩
  -- The run has workers, and the one of the route is among those that are left.
  have awaited : ∀ {t₁ base : Nat} {run : Context} {w : Worker} {sub : Subscription} {d : Desk},
      s.Shows drawn p u t₁ base run w sub d → run' = run ∧ (s.world.isCancelled run = true ∨ s.router.shutdown = true) := by
    intro t₁ base run w sub d hs
    obtain ⟨-, rfl, -, ha⟩ := hs.serving.watching ht
    refine ⟨rfl, ?_⟩
    rcases hw with hc | hsh | ⟨i, hi, hended, hlast⟩
    · exact .inl hc
    · exact .inr hsh
    · rcases ha.others hs.worker with hmem | ⟨f, hf⟩
      · have hne : base + p.place ≠ i := fun he => by
          rw [← he, State.ended?, hs.worker] at hended
          cases ho' : w.occupation with
          | ended f => exact hs.alive f ho'
          | idle | busy _ _ => simp [ho', Occupation.ended?] at hended
        have : base + p.place ∈ workers.erase i := (List.mem_erase_of_ne hne).mpr hmem
        rw [hlast] at this
        cases this
      · exact absurd hf (hs.alive f)
  cases hv with
  | waiting hst _ _ | due hst _ _ =>
    rw [hs₀.started] at hst
    cases hst
  | subscribing hs _ _ _ | doomed hs _ _ _ => exact absurd hs.owner hs₀.not_subscribing
  | failed hover => exact .failed (hover.step h)
  | ended hs hwk hf => exact Sees.ended_step hs hwk hf h
  | @serving t₁ base run w sub d hs hd hc =>
    obtain ⟨rfl, hcancel⟩ := awaited hs
    have hcancelled : s.world.isCancelled run' = true := hcancel.elim id fun hsh => hc (.inl hsh)
    refine .serving (kept hs) ?_ fun _ => h.cancelled hcancelled
    exact hd.trans (Tokens.Closed.cancel_eq ho.tokens hcancelled).symm
  | @stopping t₁ base run w sub d c hs hd _ _ _ _ =>
    obtain ⟨rfl, -⟩ := awaited hs
    exact .serving (kept hs) hd fun _ => Tokens.isCancelled_cancel_self hs.serving.token

theorem Sees.tells (hv : s.Sees drawn p u v) (hu : s.tasks[u]? = some (.close .fresh)) (hst : s.router.started = true)
    (h : s.Step o { s.moved u s.world { s.router with shutdown := true } [] (.close .waiting) with active }) :
    Sees drawn p { s.moved u s.world { s.router with shutdown := true } [] (.close .waiting) with active } u v := by
  have kept : ∀ {t base : Nat} {run : Context} {w : Worker} {sub : Subscription} {d : Desk},
      s.Shows drawn p u t base run w sub d →
      Shows drawn p { s.moved u s.world { s.router with shutdown := true } [] (.close .waiting) with active } u t base run w
        sub d := fun hs => hs.moved hu h rfl rfl rfl (by simp) fun _ _ => ⟨rfl, rfl⟩
  cases hv with
  | waiting hst' _ _ | due hst' _ _ =>
    rw [hst] at hst'
    cases hst'
  | subscribing hs _ _ _ | doomed hs _ _ _ =>
    have he := hs.owner
    rw [hu] at he
    cases he
  | failed hover => exact .failed (hover.step h)
  | ended hs hw hf => exact Sees.ended_step hs hw hf h
  | serving hs hd hc => exact .serving (kept hs) hd fun _ => hc (.inr hu)
  | stopping hs hd hl ht _ hr => exact .stopping (kept hs) hd hl (set_append_self hu) (.inr rfl) hr

/-- A turn of any other task leaves the route on its course. -/
theorem Sees.turn_other {b : Branch} (hv : s.Sees drawn p u v) (ho : s.Tidy drawn p) (hc : s.Calm u)
    (ha : s.Allows (.turn t b)) (hn : ∀ w, s.tasks[t]? = some (.worker w) → w.route ≠ p.place) :
    (s.apply (.turn t b)).Sees drawn p u v := by
  have h := apply_step ha
  have hturn := ho.turns hc ha
  generalize s.apply (.turn t b) = s' at h hturn
  cases hturn with
  | bypasses hb => exact hv.bypass ho hb h
  | works hw hr => exact absurd hr (hn _ hw)
  | posts hu hk hd he =>
    subst he
    exact hv.posts ho hu hk hd h
  | begins hu hst he =>
    subst he
    exact hv.begins ho hu hst h
  | subscribing ht hm he =>
    subst he
    exact hv.subscribing_moves ho ht hm h
  | drains ht hw he =>
    subst he
    exact hv.drains ho ht hw h
  | tells hu hst he =>
    subst he
    exact hv.tells hu hst h

/-- A turn leaves the route on its course, or takes it one step on. -/
theorem Sees.turn {b : Branch} (hv : s.Sees drawn p u v) (ho : s.Tidy drawn p) (hb : p.Blind drawn) (hc : s.Calm u)
    (ha : s.Allows (.turn t b)) :
    (s.apply (.turn t b)).Sees drawn p u v ∧ (s.apply (.turn t b)).arrivals p.place = s.arrivals p.place ∨
      s.Advances drawn p u v (s.apply (.turn t b)) := by
  by_cases hw : ∃ w, s.tasks[t]? = some (.worker w) ∧ w.route = p.place
  · obtain ⟨w, hw, hr⟩ := hw
    have h := apply_step ha
    have stays : ∀ {active : Option Nat}, s.apply (.turn t b) = { s with active } →
        (s.apply (.turn t b)).Sees drawn p u v ∧ (s.apply (.turn t b)).arrivals p.place = s.arrivals p.place :=
      fun {active} he => by
        rw [he] at h ⊢
        exact ⟨hv.bypass ho (.refl s active) h, rfl⟩
    obtain ⟨_, _, _, hs₀⟩ := ho.course.serving_of_worker hw
    cases hv with
    | waiting hst _ _ | due hst _ _ =>
      rw [hs₀.started] at hst
      cases hst
    | subscribing hs _ _ _ | doomed hs _ _ _ => exact absurd hw hs.unmanned
    | failed hover => exact absurd hw hover.unmanned
    | ended hs hw' hf =>
      obtain ⟨rfl, -, -⟩ := hs.serves hw
      rw [hr] at stays ⊢
      obtain ⟨active, he⟩ := turn_stays b hw' (by simp [microWorker, hf])
      exact .inl (stays he)
    | serving hs hd hcl =>
      obtain ⟨rfl, -, -⟩ := hs.serving.serves hw
      rw [hr] at stays ha ⊢
      rcases hs.own ho hb hd (fun _ => hcl) ha with ⟨active, he⟩ | hadv
      · exact .inl (stays he)
      · exact .inr hadv
    | stopping hs _ _ _ _ hready =>
      obtain ⟨rfl, -, -⟩ := hs.serving.serves hw
      rw [hr] at stays ha ⊢
      -- The worker does nothing, as its run is not cancelled yet.
      have hs' := hs.retold s.world.tokens
      rcases hs'.own ho hb rfl (fun hready' => absurd hready' (by simp [hready])) ha with ⟨active, he⟩ | ⟨hready', -, -⟩
      · exact .inl (stays he)
      · rw [View.isReady, hready] at hready'
        cases hready'
  · have hn : ∀ w, s.tasks[t]? = some (.worker w) → w.route ≠ p.place := fun w ht hr => hw ⟨w, ht, hr⟩
    exact .inl ⟨hv.turn_other ho hc ha hn, ho.arrivals_turn ha hn⟩

/-! ### Rest -/

/-- Where everything has come to rest, nothing is on its way. -/
theorem Tidy.flight_rests (ho : s.Tidy drawn p) (hs : s.isSettled = true) (topic : String) (i : Nat) :
    s.flight drawn u topic i = [] := by
  unfold flight
  split
  · rename_i k hk
    have hspent := ho.rests hs hk
    cases k with
    | call c | errand _ c _ => exact Call.Posting.flight_of_ended hspent
    | worker _ | run _ | close _ | awaitStart _ | alarm _ _ _ => rfl
  · rfl

/-- Where everything has come to rest, the route waits for a run, has its worker, or is past its end. -/
theorem Sees.settled (hv : s.Sees drawn p u v) (ho : s.Tidy drawn p) (hs : s.isSettled = true) :
    (v = .waiting s.world.tokens s.world.calls[p.place]? ∧ s.router.started = false ∧ s.router.shutdown = false) ∨
      (v = .ended ∧ ∀ {o : Op} {s' : State} {u' : Nat}, s.Step o s' → s'.Sees drawn p u' .ended) ∨
      ∃ t base run w sub d, v = .serving d ∧ s.Shows drawn p u t base run w sub d ∧ d.tokens = s.world.tokens ∧
        (s.router.shutdown = true → s.world.isCancelled run = true) := by
  cases hv with
  | waiting hst hsh _ => exact .inl ⟨rfl, hst, hsh⟩
  | due _ _ ht => exact absurd rfl (ho.rests hs ht _)
  | subscribing hsub _ _ _ | doomed hsub _ _ _ =>
    have hready := not_ready_of_settled hs hsub.owner
    cases hready
  | failed hover => exact .inr (.inl ⟨rfl, fun h => .failed (hover.step h)⟩)
  | ended hserving hw hf => exact .inr (.inl ⟨rfl, fun h => Sees.ended_step hserving hw hf h⟩)
  | serving hshows hd hc => exact .inr (.inr ⟨_, _, _, _, _, _, rfl, hshows, hd, fun h => hc (.inl h)⟩)
  | stopping hshows _ hl ht hcl _ =>
    -- A run that is to be drained has its supervisor ready.
    rcases hcl with rfl | hsh
    · exact absurd rfl (ho.rests hs ht)
    · cases hshows.serving.oversees with
      | watching hrun _ _ =>
        have hready := not_ready_of_settled hs hrun
        simp [Task.isReady, branches, hsh] at hready
      | draining _ hl' _ _ | ended _ hl' _ _ =>
        rw [hl'] at hl
        cases hl

/-- Where everything has come to rest, the route can do nothing either, now or before a timer is due. -/
theorem Sees.rests {now : Nat} (hv : s.Sees drawn p u v) (ho : s.Tidy drawn p) (hs : s.isSettled = true)
    (hn : now = s.world.clock ∨ ∀ timer ∈ s.timers, now < timer.due) : v.isReady p.place now = false := by
  rcases hv.settled ho hs with ⟨rfl, -, -⟩ | ⟨rfl, -⟩ | ⟨t, base, run, w, sub, d, rfl, hshows, hd, -⟩
  · rfl
  · rfl
  · have hready := not_ready_of_settled hs hshows.worker
    dsimp only [Task.isReady] at hready
    show d.isReady p.place now = false
    unfold Desk.isReady
    cases hi : w.occupation with
    | ended f => exact absurd hi (hshows.alive f)
    | idle =>
      rw [hi] at hready
      simp only [Exchange.isReadable, hshows.subscription, hshows.hasEnded ho, Bool.or_eq_false_iff] at hready
      obtain ⟨hcancel, hqueue⟩ := hready
      have hinbox : d.inbox = [] := by
        rw [hshows.inbox, ho.flight_rests hs]
        simpa using hqueue
      rw [show d.call = none by rw [hshows.call, hi]; rfl]
      simp only [hd, hshows.run, hinbox, List.isEmpty_nil, Bool.not_true, Bool.or_false]
      exact hcancel
    | busy m c =>
      rw [hi, Bool.or_eq_false_iff] at hready
      obtain ⟨hout, hcready⟩ := hready
      obtain ⟨htame, -, -⟩ := (ho.tasks hshows.worker).call hi
      rw [show d.call = some (c.veil drawn) by rw [hshows.call, hi]; rfl]
      dsimp only
      have hlater : c.isReady { s.world with clock := now } = false := by
        rcases hn with rfl | hn
        · exact hcready
        · refine Call.isReady_later hcready fun timer ht => hn timer ?_
          exact List.mem_filterMap.mpr ⟨_, List.mem_of_getElem? hshows.worker, by simp [Task.timer?, hi, ht]⟩
      have hsame : (c.veil drawn).isReady (d.world p.place now) = c.isReady { s.world with clock := now } :=
        Call.isReady_veil htame.unsent rfl hd
      rw [Call.outcome?_veil, hout, Bool.false_or, hsame, hlater]

theorem Sees.tick {ms : Nat} (hv : s.Sees drawn p u v) (ho : s.Tidy drawn p) (ha : s.Allows (.tick ms)) :
    (s.apply (.tick ms)).Sees drawn p u v := by
  have h := apply_step ha
  obtain ⟨-, hs, -⟩ := ha
  rcases hv.settled ho hs with ⟨rfl, hst, hsh⟩ | ⟨rfl, hover⟩ | ⟨t, base, run, w, sub, d, rfl, hshows, hd, hc⟩
  · exact .waiting hst hsh fun c ht => ho.rests hs ht c rfl
  · exact hover h
  · refine .serving (hshows.keeps h hshows.worker hshows.subscription rfl rfl rfl rfl hshows.inbox) hd fun hhalt => ?_
    exact hc (hhalt.resolve_right fun hcl => ho.rests hs hcl rfl)

/-! ### What is asked for from the outside -/

theorem View.input_waiting {tokens : Tokens} {count : Option Nat} (h : ∀ c, o ≠ .run c) :
    (View.waiting tokens count).input drawn p o = .waiting (o.onTokens tokens) count := by
  cases o with
  | run c => exact absurd rfl (h c)
  | _ => rfl

theorem View.input_serving (h : o ≠ .close) : (View.serving d).input drawn p o = .serving { d with
    tokens := o.onTokens d.tokens, inbox := d.inbox ++ o.posts drawn p.transport.refusePublish p.route.topic } := by
  cases o with
  | close => exact absurd rfl h
  | _ => rfl

/-- The messages that are asked for are on their way. -/
theorem begins_flight {broker : Bool} {k : Task} (hk : o.begins broker = some k) (x : World) (topic : String) (i : Nat) :
    k.flight drawn x topic i = o.posts drawn x.transport.refusePublish topic := by
  cases o with
  | run _ | close | awaitStart | publish _ _ =>
    cases hk
    rfl
  | send v c =>
    cases hk
    cases broker <;> rfl
  | token | derive _ | cancel _ | addStage _ | addRoutes _ | addHandlers _ _ _ | abandon _ | call _ _ _ _ | alarm _ _
  | subscribe _ _ | poll _ | drop _ | closeExchange | tick _ | turn _ _ => cases hk

theorem begins_none (hr : o.IsRequest) (hb : o.begins s.broker = none) :
    (∀ c, o ≠ .run c) ∧ o ≠ .close ∧ ∀ refused topic, o.posts drawn refused topic = [] := by
  cases o with
  | token | derive _ | cancel _ => exact ⟨by simp, by simp, fun _ _ => rfl⟩
  | run _ | close | awaitStart | publish _ _ | send _ _ => cases hb
  | _ => exact hr.elim

/-- The task that a request begins is a new run or the closing of the router only if that was asked for. -/
theorem begins_only {broker : Bool} {k : Task} (hk : o.begins broker = some k) :
    (∀ c, k = .run (.fresh c) → o = .run c) ∧ (k = .close .fresh → o = .close) := by
  cases o with
  | run _ | close | awaitStart | publish _ _ =>
    cases hk
    simp
  | send v c =>
    cases hk
    cases broker <;> simp
  | _ => cases hk

theorem spawned (s : State) (k : Task) : (s.spawn k).tasks[s.tasks.length]? = some k := List.getElem?_concat_length

/-- What a request puts out is on its way to the worker of the route. -/
theorem Shows.spawn {k : Task} (hshows : s.Shows drawn p u t base run w sub d) (ho : s.Tidy drawn p)
    (hs : s.isSettled = true) (hk : o.begins s.broker = some k) (h : s.Step o (s.spawn k)) :
    (s.spawn k).Shows drawn p s.tasks.length t base run w sub
      { d with inbox := d.inbox ++ o.posts drawn p.transport.refusePublish p.route.topic } := by
  have hworker : (s.spawn k).tasks[base + p.place]? = some (.worker w) := by
    show (s.tasks ++ [k])[base + p.place]? = _
    rw [List.getElem?_append_left (List.getElem?_eq_some_iff.mp hshows.worker).1, hshows.worker]
  have hinbox : d.inbox ++ o.posts drawn p.transport.refusePublish p.route.topic =
      sub.queue.map (·.veil drawn) ++ (s.spawn k).flight drawn s.tasks.length sub.topic w.subscription := by
    obtain ⟨-, -, -, htopic, -⟩ := hshows.serves ho
    rw [hshows.inbox, ho.flight_rests hs, List.append_nil, flight, spawned]
    dsimp only
    rw [begins_flight hk, htopic, ← ho.transport]
    rfl
  exact hshows.keeps h hworker hshows.subscription rfl rfl rfl rfl hinbox

/-- Closing the router cancels the run, unless that is cancelled already. -/
theorem Shows.closes (hshows : s.Shows drawn p u t base run w sub d) (ho : s.Tidy drawn p) (hs : s.isSettled = true)
    (hd : d.tokens = s.world.tokens) (hready : d.isReady p.place s.world.clock = false)
    (h : s.Step .close (s.spawn (.close .fresh))) :
    (s.spawn (.close .fresh)).Sees drawn p s.tasks.length ((View.serving d).input drawn p .close) := by
  have hshows' := hshows.spawn ho hs rfl h
  cases hcancelled : s.world.isCancelled run with
  | true =>
    refine .serving (hshows'.retold _) ?_ fun _ => hcancelled
    show d.tokens.cancel d.run.token = s.world.tokens
    rw [hd, hshows.run]
    exact Tokens.Closed.cancel_eq ho.tokens hcancelled
  | false =>
    -- The supervisor is still at work on the run.
    have hl : s.router.lifecycle = .running := by
      cases hshows.serving.oversees with
      | watching _ hl _ => exact hl
      | draining _ _ hcancel _ | ended _ _ hcancel _ =>
        rw [hcancelled] at hcancel
        cases hcancel
    refine .stopping (hshows'.retold _) ?_ hl (s.spawned _) (.inl rfl) ?_
    · show d.tokens.cancel d.run.token = s.world.tokens.cancel run.token
      rw [hd, hshows.run]
    · have hsame : ({ d with
          tokens := s.world.tokens
          inbox := d.inbox ++ Op.posts drawn p.transport.refusePublish p.route.topic .close } : Desk) = d := by
        rw [← hd, show Op.posts drawn p.transport.refusePublish p.route.topic .close = [] from rfl, List.append_nil]
      exact (congrArg (·.isReady p.place s.world.clock) hsame).trans hready

/-- A request that begins no task is seen at once. -/
theorem Sees.request_told (hv : s.Sees drawn p u v) (ho : s.Tidy drawn p) (hs : s.isSettled = true) (hr : o.IsRequest)
    (hb : o.begins s.broker = none) (h : s.Step o (s.withTokens (o.onTokens s.world.tokens))) :
    (s.withTokens (o.onTokens s.world.tokens)).Sees drawn p u (v.input drawn p o) := by
  obtain ⟨hrun, hclose, hposts⟩ := @begins_none drawn s o hr hb
  rcases hv.settled ho hs with ⟨rfl, hst, hsh⟩ | ⟨rfl, hover⟩ | ⟨t, base, run, w, sub, d, rfl, hshows, hd, hc⟩
  · rw [View.input_waiting hrun]
    exact .waiting hst hsh fun c ht => ho.rests hs ht c rfl
  · exact hover h
  · rw [View.input_serving hclose, hposts, List.append_nil]
    refine .serving (hshows.keeps h hshows.worker hshows.subscription rfl rfl rfl rfl hshows.inbox)
      (congrArg o.onTokens hd) fun hhalt => h.cancelled (hc ?_)
    exact hhalt.resolve_right fun hcl => ho.rests hs hcl rfl

/-- A request that begins a task is seen with that task as the one that is under way. -/
theorem Sees.request_begun {k : Task} (hv : s.Sees drawn p u v) (ho : s.Tidy drawn p) (hs : s.isSettled = true)
    (hk : o.begins s.broker = some k) (htokens : o.onTokens s.world.tokens = s.world.tokens)
    (h : s.Step o (s.spawn k)) : (s.spawn k).Sees drawn p s.tasks.length (v.input drawn p o) := by
  obtain ⟨hrun, hclose⟩ := begins_only hk
  have only : ∀ {k' : Task}, (s.spawn k).tasks[s.tasks.length]? = some k' → k = k' := fun hk' => by
    rw [spawned] at hk'
    exact Option.some.inj hk'
  rcases hv.settled ho hs with ⟨rfl, hst, hsh⟩ | ⟨rfl, hover⟩ | ⟨t, base, run, w, sub, d, rfl, hshows, hd, hc⟩
  · by_cases ho' : ∃ c, o = .run c
    · obtain ⟨c, rfl⟩ := ho'
      cases hk
      exact .due hst hsh (s.spawned _)
    · rw [View.input_waiting fun c he => ho' ⟨c, he⟩, htokens]
      exact .waiting hst hsh fun c hcl => ho' ⟨c, hrun c (only hcl)⟩
  · exact hover h
  · by_cases ho' : o = .close
    · subst ho'
      cases hk
      exact hshows.closes ho hs hd (hv.rests ho hs (.inl rfl)) h
    · rw [View.input_serving ho']
      refine .serving ((hshows.spawn ho hs hk h).retold _) ?_ fun hhalt =>
        hc (hhalt.resolve_right fun hcl => ho' (hclose (only hcl)))
      show o.onTokens d.tokens = _
      rw [hd, htokens]
      rfl

theorem Sees.request (hv : s.Sees drawn p u v) (ho : s.Tidy drawn p) (hs : s.isSettled = true) (hr : o.IsRequest)
    (ha : s.Allows o) : ∃ u', (s.apply o).Calm u' ∧ (s.apply o).Sees drawn p u' (v.input drawn p o) := by
  have h := apply_step ha
  rcases s.apply_request hr with ⟨hb, he⟩ | ⟨k, hk, he, htokens⟩
  · rw [he] at h ⊢
    exact ⟨u, fun ht _ => ho.rests hs ht, hv.request_told ho hs hr hb h⟩
  · rw [he] at h ⊢
    refine ⟨s.tasks.length, fun {t j} ht hne => ?_, hv.request_begun ho hs hk htokens h⟩
    rcases getElem?_concat_cases ht with ht | ⟨ht, -⟩
    · exact ho.rests hs ht
    · exact absurd ht hne

end State
end Relay
