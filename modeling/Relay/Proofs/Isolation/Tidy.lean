import Relay.Proofs.Isolation.Solo
import Relay.Proofs.Router.Reception
import Relay.Proofs.Router.Settled

/-! Runs with a script. What is asked for from the outside is asked for at given times, and each time only
    when everything has come to rest; in between, tasks move and time passes in any order. A system whose
    queues have no bound and whose handlers keep to themselves stays tidy in such a run
    (`State.Plays.tidy`): its calls from the outside put out messages and end. -/

namespace Relay

/-! ### Scripts -/

/-- What is asked for from the outside. -/
def State.Op.IsRequest : Op → Prop
  | token | derive _ | cancel _ | run _ | close | awaitStart | publish _ _ | send _ _ => True
  | _ => False

/-- The task that a request begins, on behalf of a broker or not. -/
def State.Op.begins (broker : Bool) : Op → Option Task
  | run c => some (.run (.fresh c))
  | close => some (.close .fresh)
  | awaitStart => some (.awaitStart false)
  | publish topic batch => some (.call (.ofProgram (.publish topic batch (.finish .ok)) { token := 0 }))
  | send v c =>
    some (if broker then .errand ⟨v.role, c.correlationId.getD "", v.topic⟩ (.ofProgram (.send v (.finish .ok)) c) none
      else .call (.ofProgram (.send v (.finish .ok)) c))
  | _ => none

/-- What a system does by itself. -/
def State.Op.IsInner : Op → Prop
  | tick _ | turn _ _ => True
  | _ => False

/-- What a system may come to that is asked for these things at these times. -/
inductive State.Plays (start : State) : List (Nat × State.Op) → State → Prop where
  | start : Plays start [] start
  | inner {script : List (Nat × State.Op)} {s : State} {o : State.Op} : Plays start script s → o.IsInner → s.Allows o →
      Plays start script (s.apply o)
  | request {script : List (Nat × State.Op)} {s : State} {o : State.Op} : Plays start script s → o.IsRequest →
      s.Allows o → s.isSettled = true → Plays start (script ++ [(s.world.clock, o)]) (s.apply o)

/-! ### What work leaves alone -/

namespace World.Firm
variable {x x' x'' : World}

theorem trans (h : x.Firm x') (h' : x'.Firm x'') : x.Firm x'' :=
  ⟨h'.transport.trans h.transport, h'.aside.trans h.aside, h'.draws.trans h.draws, h'.closed.trans h.closed⟩

theorem note {t : Nat} {e : Event} : x.Firm (x.note t e) := ⟨rfl, rfl, rfl, rfl⟩

theorem reported {s : State} {t : Nat} {e : LifecycleError} : s.world.Firm (s.reported t e) := by
  unfold State.reported
  split
  · exact .note
  · exact .refl _

theorem drops {made : List (Nat × Nat)} : x.Firm { x with exchange := made.foldl (fun e m => e.drop m.2) x.exchange } := by
  refine ⟨rfl, rfl, rfl, ?_⟩
  show (made.foldl (fun e m => e.drop m.2) x.exchange).closed = x.exchange.closed
  generalize x.exchange = e
  induction made generalizing e with
  | nil => rfl
  | cons m made ih => exact ih (e.drop m.2)

theorem subscribe {t : Token} {topic : String} {sub : Nat} (h : x.subscribe .router t topic = .ok (sub, x')) :
    x.Firm x' := by
  unfold World.subscribe at h
  split at h
  · cases h
  · split at h
    · cases h
    · rename_i e he
      cases h
      obtain ⟨-, -, rfl⟩ := Hub.subscribe_cases he
      exact ⟨rfl, rfl, rfl, rfl⟩

end World.Firm

theorem Supervision.Moves.firm {s : State} {t : Nat} {v v' : Supervision} {x : World} {r : Router} {new : List Task}
    (h : v.Moves s t x r new v') : s.world.Firm x := by
  cases h with
  | stays | skips _ _ | serves _ _ | joins _ _ _ _ | awaits _ _ _ => exact .refl _
  | rejected _ _ => exact .reported
  | begins _ _ | drains _ _ => exact ⟨rfl, rfl, rfl, rfl⟩
  | subscribes _ _ hs => exact .subscribe hs
  | declined _ _ _ hx =>
    subst hx
    refine .trans ?_ (.reported (s := { s with world := _ }))
    exact ⟨rfl, rfl, rfl, World.Firm.drops.closed⟩
  | breaksOff _ _ _ => exact .drops
  | finishes _ hx =>
    subst hx
    split
    · exact .refl _
    · exact .note

theorem Closing.Moves.firm {s : State} {t : Nat} {c c' : Closing} {x : World} {r : Router} (h : c.Moves s t x r c') :
    s.world.Firm x := by
  cases h with
  | stays | tells _ _ | returns _ _ _ => exact .refl _
  | rejected _ _ | fails _ _ _ => exact .reported

/-! ### Order -/

variable (drawn : Uuid → Prop) (p : Post)

/-- The handler of a route, and the filters before it, do alike on what is alike up to generated identifiers. -/
structure Post.Blind : Prop where
  handler : p.route.handler.Blind drawn
  filters : ∀ f, .filter f ∈ p.pipeline → f.Blind drawn

namespace Task

/-- A task that will not do any more what it was begun for. -/
def Spent : Task → Prop
  | run v => ∀ c, v ≠ .fresh c
  | close c => c ≠ .fresh
  | call c | errand _ c _ => c.outcome?.isSome
  | _ => True

/-- A worker that keeps to itself, a program that puts out messages, or a task that runs no program. -/
def Tidy : Task → Prop
  | worker w => w.Tame fun f => w.route = p.place → f.Blind drawn
  | call c => c.Posting
  | errand _ c o => c.Posting ∧ (o.isSome → c.outcome?.isSome)
  | alarm _ _ _ => False
  | _ => True

end Task

namespace State

/-- A system with this route, whose queues have no bound, and in which nobody but those outside publishes or
    cancels anything. -/
structure Tidy (s : State) : Prop where
  course : s.Course
  delivers : s.Delivers
  faithful : s.world.exchange.Faithful
  roomy : s.world.exchange.Roomy
  opened : s.world.exchange.closed = false
  aside : s.world.aside = none
  transport : s.world.transport = p.transport
  hidden : s.world.ids.Hidden drawn
  tokens : s.world.tokens.Closed
  tasks : ∀ {t : Nat} {k : Task}, s.tasks[t]? = some k → k.Tidy drawn p
  stages : s.router.stages = p.stages
  topics : s.router.routes.map (·.topic) = p.topics
  route : s.router.routes[p.place]? = some p.route
  still : ∀ r ∈ s.router.routes, r.handler.Still

/-- All tasks but one are spent. -/
def Calm (s : State) (u : Nat) : Prop := ∀ {t : Nat} {k : Task}, s.tasks[t]? = some k → t ≠ u → k.Spent

end State

variable {drawn p}

namespace State
variable {s s' : State} {o : Op} {t u : Nat} {k k' : Task} {x : World} {r : Router} {new : List Task}

theorem Tidy.posting {c : Call} {w' : World} {c' : Call} (ho : s.Tidy drawn p) (hc : c.Posting)
    (hm : c.Moves t s.world w' c') : c.Delivers drawn s.world w' c' :=
  hc.moves hm ho.aside ho.hidden ho.faithful ho.roomy ho.opened

theorem firm_of_delivers {c : Call} {w' : World} {c' : Call} (h : c.Delivers drawn s.world w' c') : s.world.Firm w' := by
  have hclosed := h.closed
  obtain ⟨used, journal, exchange, rfl⟩ := h.world
  exact ⟨rfl, rfl, rfl, hclosed⟩

/-- A tidy task that moves stays tidy, and so are the tasks that it begins. -/
theorem Tidy.moves (ho : s.Tidy drawn p) (hb : p.Blind drawn) (ht : s.tasks[t]? = some k)
    (hm : k.Moves s t x r new k') : s.world.Firm x ∧ k'.Tidy drawn p ∧ ∀ j ∈ new, j.Tidy drawn p := by
  have hk := ho.tasks ht
  have none_new : ∀ j ∈ ([] : List Task), j.Tidy drawn p := fun _ hj => (nomatch hj)
  cases hm with
  | stays => exact ⟨.refl _, hk, none_new⟩
  | @worker w w' x hw =>
    replace hk : w.Tame fun f => w.route = p.place → f.Blind drawn := hk
    obtain ⟨htame, hfirm⟩ := hk.moves hw
    refine ⟨hfirm, ?_, none_new⟩
    show w'.Tame fun f => w'.route = p.place → f.Blind drawn
    rwa [hw.goes.route]
  | @run v v' x r new hv =>
    refine ⟨hv.firm, trivial, fun j hj => ?_⟩
    cases hv with
    | @serves run made workers _ hn =>
      subst hn
      obtain ⟨m, -, hf⟩ := List.mem_filterMap.mp hj
      obtain ⟨w, rfl, hidle⟩ := workerFor_idle hf
      obtain ⟨-, -, -, route, hserves⟩ := workerFor_serves hf
      refine ⟨hserves.handler ▸ ho.still route (List.mem_of_getElem? hserves.listed), fun f hf hr => ?_,
        fun he => by rw [hidle] at he; cases he⟩
      -- The stages of the worker at the post are those of the post.
      have hlisted := hserves.listed
      rw [hr, ho.route] at hlisted
      cases hlisted
      rw [hserves.stages, Router.pipeline, ho.stages] at hf
      exact hb.filters f hf
    | stays | rejected _ _ | begins _ _ | skips _ _ | subscribes _ _ _ | declined _ _ _ _ | breaksOff _ _ _
    | joins _ _ _ _ | drains _ _ | awaits _ _ _ | finishes _ _ => cases hj
  | close hc => exact ⟨hc.firm, trivial, none_new⟩
  | learns _ => exact ⟨.refl _, trivial, none_new⟩
  | call hc =>
    have hd := ho.posting hk hc
    exact ⟨firm_of_delivers hd, hd.posting, none_new⟩
  | errand _ hc =>
    have hd := ho.posting hk.1 hc
    exact ⟨firm_of_delivers hd, ⟨hd.posting, fun h => by cases h⟩, none_new⟩
  | unsent hout => exact ⟨.note, ⟨hk.1, fun _ => by rw [hout]; rfl⟩, none_new⟩
  | sent hout => exact ⟨.refl _, ⟨hk.1, fun _ => by rw [hout]; rfl⟩, none_new⟩
  | rings _ => exact hk.elim

/-- A step that leaves the transport and the router alone, and after which all tasks are tidy, keeps order. -/
theorem Tidy.step (ho : s.Tidy drawn p) (h : s.Step o s') (hf : s.world.Firm s'.world)
    (ht : ∀ {t : Nat} {k : Task}, s'.tasks[t]? = some k → k.Tidy drawn p)
    (hr : s'.router.stages = s.router.stages ∧ s'.router.routes = s.router.routes) : s'.Tidy drawn p where
  course := ho.course.step h
  delivers := ho.delivers.step ho.course h
  faithful := h.exchange (fun o h => h.step o) ho.faithful
  roomy := h.exchange (fun o h => h.step o) ho.roomy
  opened := hf.closed.trans ho.opened
  aside := hf.aside.trans ho.aside
  transport := hf.transport.trans ho.transport
  hidden n := by
    rw [hf.draws]
    exact ho.hidden n
  tokens := h.tokens_closed ho.tokens
  tasks := ht
  stages := hr.1.trans ho.stages
  topics := by rw [hr.2, ho.topics]
  route := by rw [hr.2, ho.route]
  still := by
    rw [hr.2]
    exact ho.still

theorem Tidy.turn {b : Branch} (ho : s.Tidy drawn p) (hb : p.Blind drawn) (ha : s.Allows (.turn t b)) :
    (s.apply (.turn t b)).Tidy drawn p := by
  have h := apply_step ha
  generalize s.apply (.turn t b) = s' at h
  refine ho.step h ?_ ?_ ?_
  · cases h with
    | outside hn _ _ => exact absurd rfl (hn t b)
    | turn _ _ ht hm => exact (ho.moves hb ht hm).1
    | nobody _ _ _ => exact .refl _
  · intro u j hj
    cases h with
    | outside hn _ _ => exact absurd rfl (hn t b)
    | turn _ _ ht hm =>
      obtain ⟨-, hk', hnew⟩ := ho.moves hb ht hm
      rcases set_append_back hj with ⟨-, rfl⟩ | ⟨-, hj⟩ | ⟨-, hj⟩
      · exact hk'
      · exact ho.tasks hj
      · exact hnew j (List.mem_of_getElem? hj)
    | nobody _ _ _ => exact ho.tasks hj
  · cases h with
    | outside hn _ _ => exact absurd rfl (hn t b)
    | turn _ _ _ hm => exact hm.router
    | nobody _ _ _ => exact ⟨rfl, rfl⟩

theorem Tidy.tick {ms : Nat} (ho : s.Tidy drawn p) (ha : s.Allows (.tick ms)) :
    (s.apply (.tick ms)).Tidy drawn p :=
  ho.step (apply_step ha) ⟨rfl, rfl, rfl, rfl⟩ (fun hk => ho.tasks hk) ⟨rfl, rfl⟩

/-- What a request makes of a system: other tokens, or a new task. -/
theorem apply_request (s : State) (hr : o.IsRequest) :
    (o.begins s.broker = none ∧ s.apply o = s.withTokens (o.onTokens s.world.tokens)) ∨
      ∃ k, o.begins s.broker = some k ∧ s.apply o = s.spawn k ∧ o.onTokens s.world.tokens = s.world.tokens := by
  cases o with
  | token | derive _ | cancel _ => exact .inl ⟨rfl, rfl⟩
  | run _ | close | awaitStart | publish _ _ => exact .inr ⟨_, rfl, rfl, rfl⟩
  | send v c =>
    refine .inr ⟨_, rfl, ?_, rfl⟩
    simp only [apply]
    split <;> rfl
  | addStage _ | addRoutes _ | addHandlers _ _ _ | abandon _ | call _ _ _ _ | alarm _ _ | subscribe _ _ | poll _
  | drop _ | closeExchange | tick _ | turn _ _ => exact hr.elim

theorem begins_tidy {broker : Bool} (h : o.begins broker = some k) : k.Tidy drawn p := by
  cases o with
  | run _ | close | awaitStart =>
    cases h
    trivial
  | publish _ _ =>
    cases h
    exact Call.Posting.of_publish
  | send v c =>
    cases h
    cases broker with
    | true => exact ⟨Call.Posting.of_send, nofun⟩
    | false => exact Call.Posting.of_send
  | token | derive _ | cancel _ | addStage _ | addRoutes _ | addHandlers _ _ _ | abandon _ | call _ _ _ _ | alarm _ _
  | subscribe _ _ | poll _ | drop _ | closeExchange | tick _ | turn _ _ => cases h

theorem Tidy.request (ho : s.Tidy drawn p) (hr : o.IsRequest) (ha : s.Allows o) :
    (s.apply o).Tidy drawn p := by
  have h := apply_step ha
  rcases s.apply_request hr with ⟨-, he⟩ | ⟨k, hk, he, -⟩
  · rw [he] at h ⊢
    exact ho.step h ⟨rfl, rfl, rfl, rfl⟩ (fun hk => ho.tasks hk) ⟨rfl, rfl⟩
  · rw [he] at h ⊢
    refine ho.step h (.refl _) (fun {t j} hj => ?_) ⟨rfl, rfl⟩
    rcases getElem?_concat_cases hj with hj | ⟨-, rfl⟩
    · exact ho.tasks hj
    · exact begins_tidy hk

/-! ### Rest -/

/-- Whoever is spent stays so. -/
theorem Tidy.spent (ho : s.Tidy drawn p) (ht : s.tasks[t]? = some k) (hs : k.Spent)
    (hm : k.Moves s t x r new k') : k'.Spent := by
  have hk := ho.tasks ht
  cases hm with
  | stays => exact hs
  | worker _ | learns _ => trivial
  | run hv =>
    cases hv with
    | stays => exact hs
    | rejected _ _ | begins _ _ | skips _ _ | subscribes _ _ _ | declined _ _ _ _ | breaksOff _ _ _ | serves _ _
    | joins _ _ _ _ | drains _ _ | awaits _ _ _ | finishes _ _ => exact fun _ he => by cases he
  | close hc =>
    cases hc with
    | stays => exact hs
    | tells _ _ | rejected _ _ | returns _ _ _ | fails _ _ _ => exact fun he => by cases he
  | call hc =>
    obtain ⟨-, rfl⟩ := Call.Posting.rests hk hs hc
    exact hs
  | errand hout _ =>
    rw [Task.Spent, hout] at hs
    cases hs
  | unsent _ | sent _ => exact hs
  | rings _ => exact hk.elim

theorem Calm.turn {b : Branch} (hc : s.Calm u) (ho : s.Tidy drawn p) (ha : s.Allows (.turn t b)) :
    (s.apply (.turn t b)).Calm u := by
  have h := apply_step ha
  generalize s.apply (.turn t b) = s' at h
  intro t' j hj hne
  cases h with
  | outside hn _ _ => exact absurd rfl (hn t b)
  | turn _ _ ht hm =>
    rcases set_append_back hj with ⟨rfl, rfl⟩ | ⟨-, hj⟩ | ⟨-, hj⟩
    · exact ho.spent ht (hc ht hne) hm
    · exact hc hj hne
    · obtain ⟨w, rfl, -⟩ := hm.new_idle (List.mem_of_getElem? hj)
      trivial
  | nobody _ _ _ => exact hc hj hne

/-- Where everything has come to rest, all tasks are spent. -/
theorem Tidy.rests (ho : s.Tidy drawn p) (hs : s.isSettled = true) (ht : s.tasks[t]? = some k) : k.Spent := by
  have hr := not_ready_of_settled hs ht
  have hk := ho.tasks ht
  cases k with
  | worker _ | awaitStart _ | alarm _ _ _ => trivial
  | run v =>
    rintro c rfl
    cases hr
  | close c =>
    rintro rfl
    cases hr
  | call c => exact Call.Posting.at_rest hk ho.aside ho.roomy hr
  | errand e c out =>
    cases out with
    | some out => exact hk.2 rfl
    | none =>
      replace hr : (c.outcome?.isSome || c.isReady s.world) = false := hr
      obtain ⟨-, hready⟩ := Bool.or_eq_false_iff.mp hr
      exact hk.1.at_rest ho.aside ho.roomy hready

/-! ### From the beginning -/

/-- A new system with one exchange, whose queues have no bound, and with handlers that keep to themselves. -/
structure IsModest (s : State) : Prop extends s.IsNew where
  capacity : s.world.exchange.capacity = none
  aside : s.world.aside = none
  tokens : s.world.tokens = {}
  shutdown : s.router.shutdown = false
  still : ∀ r ∈ s.router.routes, r.handler.Still

/-- What is settled about a route of a new system. -/
def post (s : State) (place : Nat) (route : Route) : Post where
  place
  route
  stages := s.router.stages
  topics := s.router.routes.map (·.topic)
  transport := s.world.transport

theorem IsModest.tidy {start : State} {h : Nat} {r : Route} (hm : start.IsModest)
    (hr : start.router.routes[h]? = some r) (hd : start.world.ids.Hidden drawn) : start.Tidy drawn (start.post h r) where
  course := hm.course
  delivers := hm.delivers
  faithful := hm.faithful
  roomy := ⟨hm.capacity, fun hs => by
    rw [hm.exchange] at hs
    cases hs⟩
  opened := by rw [hm.exchange]
  aside := hm.aside
  transport := rfl
  hidden := hd
  tokens := by
    rw [hm.tokens]
    exact Tokens.closed_empty
  tasks hk := by
    rw [hm.tasks] at hk
    cases hk
  stages := rfl
  topics := rfl
  route := hr
  still := hm.still

end State
end Relay
