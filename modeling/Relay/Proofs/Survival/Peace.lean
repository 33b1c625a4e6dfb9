import Relay.Proofs.Broker.Aborts

/-! Peace. A broker is at peace as long as nobody cancels a context, stops it or closes the exchange. Whatever
    its handlers and stages do with the messages, no worker ends then, so the supervisor has nothing to wait
    for and a router that is running stays so. -/

namespace Relay

/-! ### What keeps the peace -/

/-- A program that cancels nothing. -/
def Program.Peaceful : Program → Prop
  | .finish _ => True
  | .cancel _ => False
  | .sleep _ p | .awaitCancel p | .publish _ _ p | .send _ p => p.Peaceful

/-- A handler that cancels nothing, however it comes to its end. -/
def Handler.Peaceful (h : Handler) : Prop := ∀ n c i p, h.play n c i = .started p → p.Peaceful

/-- What may be done to a broker while nobody cancels a context, stops it or closes its exchange. -/
def State.Op.Peaceful : State.Op → Prop
  | .cancel _ | .alarm _ _ | .close | .closeExchange => False
  | .addRoutes rs => ∀ r ∈ rs, r.handler.Peaceful
  | .addHandlers _ _ bs => ∀ b ∈ bs, b.handler.Peaceful
  | .call _ h _ _ => h.Peaceful
  | _ => True

/-- In a handler, what is left of its program cancels nothing. -/
def Phase.Peaceful : Phase → Prop
  | .acting _ p _ | .asleep _ _ p _ | .awaiting _ p _ | .sending _ _ _ _ p _ => p.Peaceful
  | .entering _ _ _ | .backoff _ _ | .leaving _ => True

structure Call.Peaceful (c : Call) : Prop where
  handler : ∀ h, c.handler = some h → h.Peaceful
  phase : c.phase.Peaceful

/-- A worker that is alive, with nothing to report and a handler that cancels nothing. -/
structure Worker.Peaceful (w : Worker) : Prop where
  handler : w.handler.Peaceful
  calm : w.Calm
  alive : ∀ f, w.occupation ≠ .ended f
  calls : ∀ m c, w.occupation = .busy m c → c.Peaceful

def Task.Peaceful : Task → Prop
  | .worker w => w.Peaceful
  | .call c | .errand _ c _ => c.Peaceful
  | .run _ | .awaitStart _ => True
  | .close _ | .alarm _ _ _ => False

/-! ### The world -/

/-- Nothing has been cancelled, and the exchange is open. -/
structure World.Open (w : World) : Prop where
  tokens : ∀ t, w.tokens.isCancelled t = false
  exchange : w.exchange.closed = false

namespace World.Open
variable {w w' : World}

theorem of_eq (hw : w.Open) (h : w'.hub = w.hub) : w'.Open := by
  obtain ⟨ht, hx⟩ := Hub.mk.inj h
  exact ⟨fun t => ht ▸ hw.tokens t, hx ▸ hw.exchange⟩

theorem isCancelled (hw : w.Open) (c : Context) : w.isCancelled c = false := hw.tokens c.token

theorem setExchange {port : Port} {x : Exchange} (hw : w.Open) (hx : x.closed = (w.exchangeOf port).closed) :
    (w.setExchange port x).Open := by
  cases port with
  | router => exact ⟨hw.tokens, hx.trans hw.exchange⟩
  | plain =>
    unfold World.setExchange
    cases ha : w.aside with
    | some o => exact ⟨hw.tokens, hw.exchange⟩
    | none =>
      rw [exchangeOf, ha] at hx
      exact ⟨hw.tokens, hx.trans hw.exchange⟩

theorem publish {port : Port} {topic : String} {batch : List Message} {pub : Nat} (hw : w.Open)
    (h : w.publish port topic batch = .ok (pub, w')) : w'.Open := by
  unfold World.publish at h
  split at h
  · cases h
  · cases h
    exact hw.setExchange rfl

theorem subscribe {port : Port} {t : Token} {topic : String} {sub : Nat} (hw : w.Open)
    (h : w.subscribe port t topic = .ok (sub, w')) : w'.Open := by
  unfold World.subscribe at h
  split at h
  · cases h
  · split at h
    · cases h
    · rename_i he
      cases h
      obtain ⟨-, -, rfl⟩ := Hub.subscribe_cases he
      exact hw.setExchange rfl

theorem fulfil (hw : w.Open) (ds : List Draft) : (w.fulfil ds).2.Open := by
  obtain ⟨used, h⟩ := w.fulfil_eq ds
  rw [h]
  exact ⟨hw.tokens, hw.exchange⟩

theorem derive (hw : w.Open) (t : Token) : { w with tokens := w.tokens.derive t : World }.Open := by
  refine ⟨fun i => ?_, hw.exchange⟩
  show (w.tokens.derive t).isCancelled i = false
  rw [Tokens.isCancelled_derive]
  split
  · exact hw.tokens t
  · exact hw.tokens i

end World.Open

/-! ### Calls -/

namespace Call.Moves
variable {task : Nat} {w w' : World} {c c' : Call}

theorem opened (h : c.Moves task w w' c') (hc : c.Peaceful) (hw : w.Open) : w'.Open := by
  have same : ∀ {x : World}, x.hub = w.hub → x.Open := hw.of_eq
  cases h with
  | cancelled hp =>
    have hphase := hc.phase
    rw [hp] at hphase
    exact hphase.elim
  | unpublished _ _ => exact hw.fulfil _
  | published _ hx => exact (hw.fulfil _).publish hx
  | @sent n v next ctx m pub _ _ _ hx =>
    exact (same (x := (posted task w ctx v).2.draw.2) rfl).publish hx
  | delivers _ _ => exact hw.setExchange (Hub.closed_kept ⟨w.tokens, _⟩ (o := .advance _) (by simp))
  | stays | unhandled _ _ | undecoded _ _ _ _ | refused _ _ _ _ | called _ _ _ _ | guarded _ | marked _ _ | unmarked _ _
  | restored _ | tried _ | passed _ _ | answered _ _ | dispatched _ | returned _ _ _ | brokeOff _ _ | slept _
  | awaited _ | unwritten _ _ | unsent _ _ _ | woke _ _ | freed _ _ | delivered _ _ | undelivered _ _ | aborted _ _ _
  | retried _ _ _ _ | strayed _ _ | recovered _ _ | unwound _ _ _ | filtered _ _ _ | unretryable _ _ _
  | backsOff _ _ _ _ | exhausted _ _ _ _ | propagated _ _ _ | swallowed _ _ _ | left _ _ _ _ _ => exact same rfl

theorem peaceful (h : c.Moves task w w' c') (hc : c.Peaceful) : c'.Peaceful := by
  -- Within its program a call goes on with the rest of it.
  have goes : ∀ {phase : Phase}, phase.Peaceful → (c.goto phase).Peaceful := fun hp => ⟨hc.handler, hp⟩
  have hphase := hc.phase
  cases h with
  | stays | delivers _ _ => exact hc
  | called _ hh _ hplay => exact goes (hc.handler _ hh _ _ _ _ hplay)
  | slept hp | awaited hp | published hp _ | sent hp _ _ | woke hp _ | freed hp _ | delivered hp _ =>
    rw [hp] at hphase
    exact goes hphase
  | cancelled hp =>
    rw [hp] at hphase
    exact hphase.elim
  | unhandled _ _ | undecoded _ _ _ _ | refused _ _ _ _ | answered _ _ | returned _ _ _ | brokeOff _ _ | unpublished _ _
  | unwritten _ _ | unsent _ _ _ | undelivered _ _ | strayed _ _ | backsOff _ _ _ _ => exact goes trivial
  | guarded _ | marked _ _ | unmarked _ _ | restored _ | tried _ | passed _ _ | dispatched _ | aborted _ _ _
  | retried _ _ _ _ | recovered _ _ | unwound _ _ _ | filtered _ _ _ | unretryable _ _ _ | exhausted _ _ _ _
  | propagated _ _ _ | swallowed _ _ _ | left _ _ _ _ _ => exact ⟨hc.handler, trivial⟩

end Call.Moves

/-! ### Tasks -/

/-- A worker whose subscription is there goes on. -/
theorem Worker.Moves.peaceful {t : Nat} {x x' : World} {w w' : Worker} (h : w.Moves t x x' w') (hw : w.Peaceful)
    (hx : x.Open) (hs : ∃ p more, w.stages = Broker.defaultStages p ++ more)
    (hr : ∃ sub, x.exchange.subscriptions[w.subscription]? = some sub) : w'.Peaceful ∧ x'.Open := by
  have hopen : x'.Open := by
    cases h with
    | works ho _ hm => exact hm.opened (hw.calls _ _ ho) hx
    | stays | takes _ _ _ _ | stops _ _ | succeeds _ _ | fails _ _ _ | breaksOff _ _ => exact ⟨hx.tokens, hx.exchange⟩
  have hcalm : w'.Calm := by
    rcases h.calm hw.calm hs with ⟨hc, -⟩ | ⟨m, e, -, hof, -⟩
    · exact hc
    · exact nomatch (hopen.isCancelled _).symm.trans hof.cancelled
  refine ⟨?_, hopen⟩
  cases h with
  | stays => exact hw
  | takes _ _ _ _ =>
    refine ⟨hw.handler, hcalm, by simp, fun m c hbusy => ?_⟩
    cases hbusy
    exact ⟨fun h hh => by cases hh; exact hw.handler, trivial⟩
  | stops _ hended =>
    obtain ⟨sub, hsub⟩ := hr
    have he := hended sub hsub
    rw [Exchange.hasEnded, hx.exchange, hx.tokens] at he
    cases he
  | works ho _ hm =>
    refine ⟨hw.handler, hcalm, by simp, fun m c hbusy => ?_⟩
    cases hbusy
    exact hm.peaceful (hw.calls _ _ ho)
  | succeeds _ _ | fails _ _ _ => exact ⟨hw.handler, hcalm, by simp, by simp⟩
  | breaksOff ho hout => exact absurd rfl ((hw.calm.held _ _ ho).ended hout)

namespace State
variable {s s' : State} {o : Op} {t : Nat}

/-- Nobody has cancelled a context, stopped the broker or closed its exchange, nobody is about to, and all
    workers are alive. -/
structure Peace (s : State) : Prop where
  world : s.world.Open
  shutdown : s.router.shutdown = false
  stages : ∃ p more, s.router.stages = Broker.defaultStages p ++ more
  routes : ∀ r ∈ s.router.routes, r.handler.Peaceful
  tasks : ∀ k ∈ s.tasks, k.Peaceful

theorem Peace.worker {w : Worker} (hs : s.Peace) (hw : s.tasks[t]? = some (.worker w)) : w.Peaceful :=
  hs.tasks _ (List.mem_of_getElem? hw)

end State

/-- A supervisor has no reason to let the workers come to their end. Only if it cannot subscribe a route does it
    cancel anything, and then it closes the router before there are any workers. -/
theorem Supervision.Moves.peaceful {s : State} {t : Nat} {v v' : Supervision} {x : World} {r : Router}
    {new : List Task} (h : v.Moves s t x r new v') (hs : s.Peace) :
    x.Open ∧ r.shutdown = false ∧ (∀ k ∈ new, k.Peaceful) ∨ r.lifecycle = .closed := by
  have still : ∀ {x : World}, x.Open → x.Open ∧ s.router.shutdown = false ∧ (∀ k ∈ ([] : List Task), k.Peaceful) :=
    fun hx => ⟨hx, hs.shutdown, fun _ hk => nomatch hk⟩
  cases h with
  | stays | skips _ _ | joins _ _ _ _ | awaits _ _ _ => exact .inl (still hs.world)
  | rejected _ _ =>
    refine .inl (still (hs.world.of_eq ?_))
    unfold State.reported
    split <;> rfl
  | begins _ _ => exact .inl (still (hs.world.derive _))
  | subscribes _ _ hx => exact .inl (still (hs.world.subscribe hx))
  | declined _ _ _ _ | finishes _ _ => exact .inr rfl
  | @breaksOff run made _ _ _ _ _ _ =>
    have hclosed : ∀ (made : List (Nat × Nat)) (e : Exchange),
        (made.foldl (fun x m => x.drop m.2) e).closed = e.closed := fun made => by
        induction made with
        | nil => exact fun _ => rfl
        | cons m made ih => exact fun e => ih (e.drop m.2)
    exact .inl (still ⟨hs.world.tokens, (hclosed made _).trans hs.world.exchange⟩)
  | serves _ hn =>
    refine .inl ⟨hs.world, hs.shutdown, fun k hk => ?_⟩
    subst hn
    obtain ⟨m, -, hm⟩ := List.mem_filterMap.mp hk
    obtain ⟨route, hroute, rfl⟩ := Option.map_eq_some_iff.mp hm
    exact ⟨hs.routes _ (List.mem_of_getElem? hroute), ⟨rfl, by simp, by simp⟩, by simp, by simp⟩
  | drains _ hwhy =>
    rcases hwhy with ⟨-, -, hc | hc⟩ | ⟨w, -, he, -⟩
    · exact nomatch (hs.world.isCancelled _).symm.trans hc
    · exact nomatch hs.shutdown.symm.trans hc
    · -- No worker has ended.
      unfold State.ended? at he
      split at he
      · rename_i w' hw'
        have halive := (hs.worker hw').alive
        cases ho : w'.occupation with
        | ended f => exact absurd ho (halive f)
        | idle | busy _ _ => simp [Occupation.ended?, ho] at he
      · cases he

namespace State
variable {s s' : State} {o : Op} {t : Nat}

/-- What a task makes of the peace. -/
theorem Peace.moved {k k' : Task} {x : World} {r : Router} {new : List Task} {active : Option Nat} (hs : s.Peace)
    (hc : s.Course) (ht : s.tasks[t]? = some k) (h : k.Moves s t x r new k') :
    Peace { s.moved t x r new k' with active } ∨ r.lifecycle = .closed := by
  have hk := hs.tasks k (List.mem_of_getElem? ht)
  have moves : x.Open ∧ r.shutdown = false ∧ (∀ j ∈ new, j.Peaceful) → k'.Peaceful →
      Peace { s.moved t x r new k' with active } := fun ⟨hx, hshut, hnew⟩ hk' => by
    obtain ⟨hstages, hroutes⟩ := h.router
    refine ⟨hx, hshut, ?_, ?_, fun j hj => ?_⟩
    · show ∃ p more, r.stages = _
      rw [hstages]
      exact hs.stages
    · show ∀ route ∈ r.routes, _
      rw [hroutes]
      exact hs.routes
    · rcases List.mem_append.mp hj with hj | hj
      · rcases List.mem_or_eq_of_mem_set hj with hj | rfl
        · exact hs.tasks j hj
        · exact hk'
      · exact hnew j hj
  have still : ∀ {x : World}, x.Open → x.Open ∧ s.router.shutdown = false ∧ (∀ k ∈ ([] : List Task), k.Peaceful) :=
    fun hx => ⟨hx, hs.shutdown, fun _ hk => nomatch hk⟩
  cases h with
  | stays => exact .inl (moves (still hs.world) hk)
  | @worker w _ _ hw =>
    obtain ⟨_, _, _, hserving⟩ := hc.serving_of_worker ht
    obtain ⟨-, -, route, hroute⟩ := hserving.serves ht
    obtain ⟨sub, hsub, -⟩ := hserving.reads ht
    obtain ⟨p, more, he⟩ := hs.stages
    have hstages : w.stages = Broker.defaultStages p ++ (more ++ route.stages) := by
      rw [hroute.stages, Router.pipeline, he, List.append_assoc]
    obtain ⟨hw', hx⟩ := hw.peaceful hk hs.world ⟨p, _, hstages⟩ ⟨sub, hsub⟩
    exact .inl (moves (still hx) hw')
  | run hv => exact (hv.peaceful hs).imp (fun h => moves h trivial) id
  | learns _ => exact .inl (moves (still hs.world) trivial)
  | call hm | errand _ hm => exact .inl (moves (still (hm.opened hk hs.world)) (hm.peaceful hk))
  | unsent _ => exact .inl (moves (still (hs.world.of_eq rfl)) hk)
  | sent _ => exact .inl (moves (still hs.world) hk)
  | close _ | rings _ => exact hk.elim

/-! ### From the outside -/

theorem Peace.spawn {k : Task} (hs : s.Peace) (hk : k.Peaceful) : (s.spawn k).Peace where
  world := hs.world
  shutdown := hs.shutdown
  stages := hs.stages
  routes := hs.routes
  tasks j hj := by
    rcases List.mem_append.mp hj with hj | hj
    · exact hs.tasks j hj
    · obtain rfl := List.mem_singleton.mp hj
      exact hk

theorem Peace.withWorld {x : World} (hs : s.Peace) (hx : x.Open) : Peace { s with world := x } :=
  ⟨hx, hs.shutdown, hs.stages, hs.routes, hs.tasks⟩

theorem Peace.withRouter {r : Router} (more : List Stage × List Route) (hs : s.Peace) (hg : s.router.Grows more r)
    (hm : ∀ route ∈ more.2, route.handler.Peaceful) : (s.withRouter r).Peace where
  world := hs.world.of_eq rfl
  shutdown := hg.shutdown.trans hs.shutdown
  stages := by
    obtain ⟨p, rest, he⟩ := hs.stages
    exact ⟨p, rest ++ more.1, by rw [← List.append_assoc, ← he]; exact hg.stages⟩
  routes route hr := by
    replace hr : route ∈ r.routes := hr
    rw [hg.routes] at hr
    exact (List.mem_append.mp hr).elim (hs.routes route) (hm route)
  tasks := hs.tasks

theorem Peace.addHandlers {role : Role} {c : Context} {bs : List Binding} (hs : s.Peace)
    (hb : ∀ b ∈ bs, b.handler.Peaceful) : (s.addHandlers role c bs).2.Peace := by
  rcases s.addHandlers_cases role c bs with ⟨r, hr, h⟩ | ⟨e, -, h | ⟨id, h⟩⟩
  · rw [h]
    refine hs.withRouter _ (admit_grows hr).2 fun route hroute => ?_
    obtain ⟨b, hmem, rfl⟩ := List.mem_map.mp hroute
    exact hb b hmem
  · rw [h]
    exact hs
  · rw [h]
    exact hs.withWorld (hs.world.of_eq rfl)

theorem Peace.apply (hs : s.Peace) (hk : o.Peaceful) (hn : ∀ t b, o ≠ .turn t b) : (s.apply o).Peace := by
  have plain : ∀ {x : Exchange}, x.closed = (s.world.exchangeOf .plain).closed → (s.withExchange x).Peace := fun hx =>
    hs.withWorld (hs.world.setExchange hx)
  cases o with
  | addStage g =>
    show (s.register (s.router.addStage g)).Peace
    cases hr : s.router.addStage g with
    | error e => exact hs
    | ok r =>
      unfold Router.addStage at hr
      split at hr
      · cases hr
      · cases hr
        exact hs.withRouter ([g], []) ⟨rfl, (List.append_nil _).symm, rfl, rfl, rfl, rfl⟩
          fun _ hr => nomatch hr
  | addRoutes rs =>
    show (s.register (s.router.addRoutes rs)).Peace
    cases hr : s.router.addRoutes rs with
    | error e => exact hs
    | ok r =>
      obtain ⟨-, rfl⟩ := addRoutes_ok hr
      exact hs.withRouter ([], rs) ⟨(List.append_nil _).symm, rfl, rfl, rfl, rfl, rfl⟩ hk
  | addHandlers role c bs => exact hs.addHandlers hk
  | token =>
    refine hs.withWorld ⟨fun t => ?_, hs.world.exchange⟩
    exact (Tokens.isCancelled_fresh _ t).trans (hs.world.tokens t)
  | derive t => exact hs.withWorld (hs.world.derive t)
  | run c => exact hs.spawn trivial
  | awaitStart => exact hs.spawn trivial
  | abandon t =>
    dsimp only [State.apply]
    split
    · rename_i h
      exact (hs.tasks _ (List.mem_of_getElem? h)).elim
    · rename_i h
      exact (hs.tasks _ (List.mem_of_getElem? h)).elim
    · exact hs
  | publish topic batch => exact hs.spawn ⟨nofun, trivial⟩
  | send v c =>
    dsimp only [State.apply]
    split
    · exact hs.spawn ⟨nofun, trivial⟩
    · exact hs.spawn ⟨nofun, trivial⟩
  | call stages h c d =>
    obtain ⟨used, hx⟩ := s.world.fulfilOne_eq d
    have hopen : (s.world.fulfilOne d).2.Open := by
      rw [hx]
      exact hs.world.of_eq rfl
    refine (hs.withWorld hopen).spawn ⟨fun h' hh => ?_, trivial⟩
    cases hh
    exact hk
  | subscribe t topic =>
    dsimp only [State.apply]
    split
    · rename_i hx
      exact hs.withWorld (hs.world.subscribe hx)
    · exact hs
  | poll sub => exact plain (Hub.closed_kept ⟨s.world.tokens, _⟩ (o := .poll sub) (by simp))
  | drop sub => exact plain rfl
  | tick ms => exact hs.withWorld (hs.world.of_eq rfl)
  | turn t b => exact absurd rfl (hn t b)
  | cancel _ | alarm _ _ | close | closeExchange => exact hk.elim

/-! ### Runs -/

/-- What holds of a broker at any time, and that it is at peace unless its start has failed. -/
structure Untroubled (s : State) : Prop where
  course : s.Course
  locked : s.Locked
  peace : s.router.lifecycle ≠ .closed → s.Peace

theorem Step.peace (hs : s.Peace) (hc : s.Course) (h : s.Step o s') (hn : (∀ t b, o ≠ .turn t b) → s'.Peace) :
    s'.Peace ∨ s'.router.lifecycle = .closed := by
  cases h with
  | outside ho _ _ => exact .inl (hn ho)
  | turn _ _ ht hm => exact hs.moved hc ht hm
  | nobody _ _ _ => exact .inl ⟨hs.world, hs.shutdown, hs.stages, hs.routes, hs.tasks⟩

theorem Untroubled.step (hs : s.Untroubled) (hk : o.Peaceful) (ha : s.Allows o) : (s.apply o).Untroubled where
  course := hs.course.step (apply_step ha)
  locked := (apply_step ha).locked hs.locked
  peace hl := by
    have hp := hs.peace fun hclosed => hl ((apply_step ha).closed hs.course hclosed)
    exact ((apply_step ha).peace hp hs.course fun hn => hp.apply hk hn).resolve_right hl

theorem Untroubled.runs (hs : s.Untroubled) (h : Runs Op.Peaceful s s') : s'.Untroubled := by
  induction h with
  | refl => exact hs
  | step _ hk ha ih => exact ih.step hk ha

theorem Untroubled.start {p : RetryPolicy} {extra : List Stage} {x : World}
    (hn : (Broker.start (Broker.defaultStages p ++ extra) x).IsNew) (hx : ∀ t, x.tokens.isCancelled t = false) :
    (Broker.start (Broker.defaultStages p ++ extra) x).Untroubled := by
  have ht : (Broker.start (Broker.defaultStages p ++ extra) x).tasks = [] := rfl
  refine ⟨hn.course, by simp [Locked, ht], fun _ => ⟨⟨hx, ?_⟩, rfl, ⟨p, extra, rfl⟩, fun _ hr => ?_, by simp [ht]⟩⟩
  · rw [hn.exchange]
  · cases hr

/-- At peace a router is not brought to its end. -/
theorem Peace.not_draining (hs : s.Peace) (hc : s.Course) : s.router.lifecycle ≠ .draining := by
  intro hl
  cases hc with
  | waiting _ h _ _ =>
    rw [h] at hl
    cases hl
  | subscribing h =>
    rw [h.lifecycle] at hl
    cases hl
  | failed h =>
    rcases h.lifecycle with h | ⟨h, -⟩ <;> rw [h] at hl <;> cases hl
  | serving h =>
    cases h.oversees with
    | watching _ h _ | ended _ h _ _ =>
      rw [h] at hl
      cases hl
    | draining _ _ hcancel _ => exact nomatch (hs.world.isCancelled _).symm.trans hcancel

theorem Untroubled.running (hs : s.Untroubled) (hl : s.router.lifecycle = .running) (h : Runs Op.Peaceful s s') :
    s'.router.lifecycle = .running := by
  induction h with
  | refl => exact hl
  | step hrun hk ha ih =>
    have hs' := (hs.runs hrun).step hk ha
    rcases (apply_step ha).proceeds (hs.runs hrun).course with he | hnext
    · exact he.trans ih
    · rw [ih] at hnext
      generalize hl' : (State.apply _ _).router.lifecycle = l at hnext
      cases hnext with
      | drains => exact absurd hl' ((hs'.peace (by simp [hl'])).not_draining hs'.course)

end State
end Relay
