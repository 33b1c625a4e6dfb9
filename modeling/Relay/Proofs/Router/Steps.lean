import Relay.Proofs.History
import Relay.Proofs.Router.Moves

/-! Everything that one step of a system can do, whoever takes it. A step is the move of one task, or
    something done from the outside; either way it is known which queues something is taken from, and
    in whose name something is written down. -/

namespace Relay

/-! ### What a task does to what all share -/

/-- The subscriptions that a task takes messages from, or is about to. -/
def Task.Reads : Task → Nat → Prop
  | worker w, i => w.subscription = i
  | run (.subscribing _ made _), i => ∃ m ∈ made, m.2 = i
  | _, _ => False

/-- The call that a task is in. -/
def Task.call? : Task → Option Call
  | worker w =>
    match w.occupation with
    | .busy _ c => some c
    | _ => none
  | call c | errand _ c _ => some c
  | _ => none

/-- Whether all workers are of this kind. -/
def State.everyWorker (s : State) (P : Worker → Bool) : Bool :=
  s.tasks.all fun
    | .worker w => P w
    | _ => true

theorem State.of_everyWorker {s : State} {P : Worker → Bool} {t : Nat} {w : Worker} (h : s.everyWorker P = true)
    (hw : s.tasks[t]? = some (.worker w)) : P w = true :=
  List.all_eq_true.mp h _ (List.mem_of_getElem? hw)

/-- What a task may write down: that a handler is called only at the end of the pipeline. -/
def Task.Writes (k : Task) (e : Event) : Prop :=
  e.isCall = true → ∃ c ctx m h, k.call? = some c ∧ c.phase = .entering [] ctx m ∧ c.handler = some h

theorem Task.writes_of_call {k : Task} {c : Call} (hk : k.call? = some c) (e : Event) (h : c.Writes e) : k.Writes e :=
  fun he => by
    obtain ⟨ctx, m, h, hp, hh⟩ := h.2 he
    exact ⟨c, ctx, m, h, hk, hp, hh⟩

theorem Task.writes_of_isCall {k : Task} {e : Event} (h : e.isCall = false) : k.Writes e := fun he => by
  rw [h] at he
  cases he

theorem Task.writes_of_isWork {k : Task} {e : Event} (h : e.isWork = false) : k.Writes e := by
  cases e with
  | called _ _ _ _ _ => cases h
  | taken _ _ | settled _ _ _ | entered _ | left _ | returned _ _ _ _ | spanned _ _ | noticed _ => exact nofun

theorem Hub.run_drops (h : Hub) (made : List (Nat × Nat)) :
    h.run (made.map fun m => .drop m.2) = ⟨h.tokens, made.foldl (fun x m => x.drop m.2) h.exchange⟩ := by
  induction made generalizing h with
  | nil => rfl
  | cons m made ih => exact ih (h.step (.drop m.2))

namespace World

/-- What is done to the world from the outside. -/
structure Stirred (reads : Nat → Prop) (w w' : World) : Prop where
  journal : w'.journal = w.journal
  counters : w'.counters = w.counters
  hub : ∃ ops, w'.hub = w.hub.run ops ∧ ∀ o ∈ ops, ∀ i, o.reads = some i → reads i

namespace Touches
variable {reads : Nat → Prop} {writes : Event → Prop} {task : Nat} {w w₁ : World}

theorem derive {t : Token} : Touches reads writes task w { w with tokens := w.tokens.derive t } :=
  op (.derive t) rfl rfl rfl nofun

theorem drop {sub : Nat} (hr : reads sub) :
    Touches reads writes task w { w with exchange := w.exchange.drop sub } :=
  op (.drop sub) rfl rfl rfl fun i hi => by
    cases hi
    exact hr

theorem drops {made : List (Nat × Nat)} (hr : ∀ m ∈ made, reads m.2) :
    Touches reads writes task w { w with exchange := made.foldl (fun x m => x.drop m.2) w.exchange } := by
  have hh := Hub.run_drops w.hub made
  refine ops _ rfl rfl hh.symm fun o ho i hi => ?_
  obtain ⟨m, hm, rfl⟩ := List.mem_map.mp ho
  cases hi
  exact hr m hm

theorem take {s : Nat} {sub : Subscription} {m : Message} {rest : List Message} (hr : reads s)
    (hs : w.exchange.subscriptions[s]? = some sub) (he : w.exchange.hasEnded w.tokens sub = false)
    (hq : sub.queue = m :: rest) :
    Touches reads writes task w { w with exchange := w.exchange.updateSubscription s (·.take m rest) } := by
  refine op (.poll s) rfl rfl ?_ fun i hi => ?_
  · show _ = (⟨w.tokens, (w.exchange.poll w.tokens s).2⟩ : Hub)
    simp [Exchange.poll, hs, he, hq, World.hub]
  · cases hi
    exact hr

theorem subscribe {t : Token} {topic : String} {sub : Nat} (h : w.subscribe .router t topic = .ok (sub, w₁)) :
    Touches reads writes task w w₁ := by
  unfold World.subscribe at h
  split at h
  · cases h
  · split at h
    · cases h
    · rename_i s e hs
      cases h
      exact ops _ rfl rfl (Hub.run_subscribe (h := w.hub) hs).symm (by simp [Hub.Op.reads])

end Touches
end World

theorem Worker.Moves.touches {t : Nat} {x x' : World} {w w' : Worker} (h : w.Moves t x x' w') :
    x.Touches (Task.worker w).Reads (Task.worker w).Writes t x' := by
  cases h with
  | stays => exact .refl x
  | takes _ hs he hq => exact .trans (.take rfl hs he hq) (.note (Task.writes_of_isCall rfl))
  | stops _ _ => exact .drop rfl
  | works ho _ hc => exact hc.touches.mono (Task.writes_of_call (by simp [Task.call?, ho]))
  | succeeds _ _ => exact .note (Task.writes_of_isCall rfl)
  | fails _ _ _ => exact .trans (.note (Task.writes_of_isCall rfl)) (.note (Task.writes_of_isCall rfl))
  | @breaksOff m c reason _ _ =>
    have settled : x.Touches (Task.worker w).Reads (Task.worker w).Writes t
      (x.note t (.settled w.route m (.panicked reason))) := .note (Task.writes_of_isCall rfl)
    exact (settled.trans (.drop rfl)).trans (.note (Task.writes_of_isCall rfl))

theorem State.reported_touches {s : State} {t : Nat} {e : LifecycleError} {reads : Nat → Prop} :
    s.world.Touches reads (·.isWork = false) t (s.reported t e) := by
  unfold State.reported
  split
  · exact .note rfl
  · exact .refl _

theorem Supervision.Moves.touches {s : State} {t : Nat} {v v' : Supervision} {x : World} {r : Router}
    {new : List Task} (h : v.Moves s t x r new v') :
    s.world.Touches (Task.run v).Reads (·.isWork = false) t x := by
  cases h with
  | stays | skips _ _ | serves _ _ | joins _ _ _ _ | awaits _ _ _ => exact .refl _
  | rejected _ _ => exact State.reported_touches
  | @begins c hv _ =>
    subst hv
    exact .derive
  | subscribes _ _ hs => exact .subscribe hs
  | @declined run made r rest route e _ hv _ _ hx =>
    subst hv hx
    refine .trans ?_ (State.reported_touches (s := { s with world := _ }))
    -- The notice, the token and the subscriptions are three changes of the world, one after the other.
    refine .trans (.trans (.note rfl) .cancel) (.drops fun m hm => ⟨m, hm, rfl⟩)
  | @breaksOff run made r rest route hv _ _ =>
    subst hv
    exact .drops fun m hm => ⟨m, hm, rfl⟩
  | drains _ _ => exact .cancel
  | @finishes run failures x _ hx =>
    subst hx
    split
    · exact .refl _
    · exact .note rfl

theorem Closing.Moves.touches {s : State} {t : Nat} {c c' : Closing} {x : World} {r : Router}
    {reads : Nat → Prop} (h : c.Moves s t x r c') : s.world.Touches reads (·.isWork = false) t x := by
  cases h with
  | stays | tells _ _ | returns _ _ _ => exact .refl _
  | rejected _ _ | fails _ _ _ => exact State.reported_touches

theorem Task.Moves.touches {s : State} {t : Nat} {k k' : Task} {x : World} {r : Router} {new : List Task}
    (h : k.Moves s t x r new k') : s.world.Touches k.Reads k.Writes t x := by
  cases h with
  | stays | learns _ | sent _ => exact .refl _
  | worker hw => exact hw.touches
  | run hv => exact hv.touches.mono fun _ => Task.writes_of_isWork
  | close hc => exact hc.touches.mono fun _ => Task.writes_of_isWork
  | call hc | errand _ hc => exact hc.touches.mono (Task.writes_of_call rfl)
  | unsent _ => exact .note (Task.writes_of_isCall rfl)
  | rings _ => exact .cancel

/-! ### What is done from the outside -/

/-- The stages and routes that an operation adds, if it is not refused. -/
def State.Op.adds : State.Op → List Stage × List Route
  | .addStage g => ([g], [])
  | .addRoutes rs => ([], rs)
  | .addHandlers _ _ bs => ([], bs.map (·.route))
  | _ => ([], [])

/-- A router with more stages and routes behind those that it had, and otherwise as far as it was. -/
structure Router.Grows (r : Router) (more : List Stage × List Route) (r' : Router) : Prop where
  stages : r'.stages = r.stages ++ more.1
  routes : r'.routes = r.routes ++ more.2
  started : r'.started = r.started
  lifecycle : r'.lifecycle = r.lifecycle
  shutdown : r'.shutdown = r.shutdown
  failures : r'.failures = r.failures

/-- Adds handlers of commands, or of events. -/
def Router.admit (r : Router) : Role → List Binding → Except RegistrationError Router
  | .command => r.addCommands
  | .event => r.addEvents

/-- A call that is a program run for its own sake, outside of any pipeline. -/
structure Call.IsProgram (c : Call) : Prop where
  handler : c.handler = none
  frames : c.frames = []
  entering : ∀ rest ctx m, c.phase ≠ .entering rest ctx m
  backoff : ∀ t e, c.phase ≠ .backoff t e

theorem Call.IsProgram.of_program (p : Program) (c : Context) : (Call.ofProgram p c).IsProgram :=
  ⟨rfl, rfl, nofun, nofun⟩

theorem Call.Moves.isProgram {task : Nat} {w w' : World} {c c' : Call} (h : c.Moves task w w' c') (hc : c.IsProgram) :
    c'.IsProgram := by
  obtain ⟨hh, hf, he, hb⟩ := hc
  cases h with
  | stays | delivers _ _ => exact ⟨hh, hf, he, hb⟩
  | unhandled hp _ | undecoded hp _ _ _ | refused hp _ _ _ | called hp _ _ _ | guarded hp | marked hp _ | unmarked hp _
  | restored hp | tried hp | passed hp _ | answered hp _ | dispatched hp => exact absurd hp (he _ _ _)
  | returned _ _ _ | brokeOff _ _ | slept _ | cancelled _ | awaited _ | unpublished _ _ | published _ _ | unwritten _ _
  | unsent _ _ _ | sent _ _ _ | woke _ _ | freed _ _ | delivered _ _ | undelivered _ _ =>
    refine ⟨hh, hf, fun _ _ _ h => ?_, fun _ _ h => ?_⟩ <;> cases h
  | aborted hp _ _ | retried hp _ _ _ | strayed hp _ => exact absurd hp (hb _ _)
  | recovered _ hf' | unwound _ hf' _ | filtered _ _ hf' | unretryable _ hf' _ | backsOff _ hf' _ _
  | exhausted _ hf' _ _ | propagated _ hf' _ | swallowed _ hf' _ | left _ hf' _ _ _ =>
    rw [hf] at hf'
    cases hf'

/-- A task that an operation begins. -/
inductive Task.Begun (o : State.Op) : Task → Prop where
  | run {c : Context} : o = .run c → Begun o (.run (.fresh c))
  | close : Begun o (.close .fresh)
  | awaitStart : Begun o (.awaitStart false)
  | program {c : Call} : c.IsProgram → Begun o (.call c)
  | call {stages : List Stage} {h : Handler} {c : Context} {d : Draft} {m : Message} : o = .call stages h c d →
      Begun o (.call (.start 0 stages h c m))
  | errand {e : Errand} {c : Call} : c.IsProgram → Begun o (.errand e c none)
  | alarm {timer : Timer} {token : Token} : Begun o (.alarm timer token false)

namespace State
variable {s : State} {o : Op}

/-- What is done from the outside makes this of a system. -/
inductive Outside (s : State) (o : Op) : State → Prop where
  | registers {r : Router} : s.router.started = false → s.router.Grows o.adds r → Outside s o (s.withRouter r)
  | refuses {role : Role} {id : String} {e : Error} :
      Outside s o (s.note s.tasks.length (.noticed (.addFailed role id e)))
  | stirs {x : World} : s.world.Stirred (fun i => ∀ k ∈ s.tasks, ¬k.Reads i) x → Outside s o { s with world := x }
  | begins {x : World} {k : Task} : s.world.Stirred (fun _ => False) x → k.Begun o →
      Outside s o ({ s with world := x }.spawn k)
  | abandons {t : Nat} {c : Closing} : s.tasks[t]? = some (.close c) → (∀ o, c ≠ .ended o) →
      Outside s o (s.setTask t (.close (.ended (.panicked none))))

theorem addRoutes_ok {r r' : Router} {routes : List Route} (h : r.addRoutes routes = .ok r') :
    r.started = false ∧ r' = { r with routes := r.routes ++ routes } := by
  unfold Router.addRoutes at h
  split at h
  · cases h
  · rename_i hst
    split at h <;> cases h
    exact ⟨Bool.eq_false_iff.mpr hst, rfl⟩

/-- A batch that is taken meets no conflict. -/
theorem addCommands_ok {r r' : Router} {bs : List Binding} (h : r.addCommands bs = .ok r') :
    r.started = false ∧ Router.conflict? r.commands (bs.map Router.key) = none ∧ r' = { r with
      routes := r.routes ++ bs.map (·.route), commands := (bs.map Router.key).reverse ++ r.commands } := by
  unfold Router.addCommands at h
  split at h
  · cases h
  · split at h
    · cases h
    · rename_i hc
      cases hr : r.addRoutes (bs.map (·.route)) with
      | error e =>
        rw [hr] at h
        cases h
      | ok r₁ =>
        rw [hr] at h
        cases h
        obtain ⟨hst, rfl⟩ := addRoutes_ok hr
        exact ⟨hst, hc, rfl⟩

theorem addEvents_ok {r r' : Router} {bs : List Binding} (h : r.addEvents bs = .ok r') :
    r.started = false ∧ r' = { r with
      routes := r.routes ++ bs.map (·.route), events := (bs.map Router.key).reverse ++ r.events } := by
  unfold Router.addEvents at h
  cases hr : r.addRoutes (bs.map (·.route)) with
  | error e =>
    rw [hr] at h
    cases h
  | ok r₁ =>
    rw [hr] at h
    cases h
    obtain ⟨hst, rfl⟩ := addRoutes_ok hr
    exact ⟨hst, rfl⟩

theorem admit_grows {r r' : Router} {role : Role} {bs : List Binding} (h : r.admit role bs = .ok r') :
    r.started = false ∧ r.Grows ([], bs.map (·.route)) r' := by
  cases role with
  | command =>
    obtain ⟨hst, -, rfl⟩ := addCommands_ok h
    exact ⟨hst, (List.append_nil _).symm, rfl, rfl, rfl, rfl, rfl⟩
  | event =>
    obtain ⟨hst, rfl⟩ := addEvents_ok h
    exact ⟨hst, (List.append_nil _).symm, rfl, rfl, rfl, rfl, rfl⟩

/-- What whoever registers handlers is told when they are refused. -/
def refusal (s : State) (role : Role) (e : RegistrationError) : Error :=
  if s.broker then .broker (match role with | .command => .addCommandHandlers | .event => .addEventHandlers)
    (.registration e)
  else .registration e

/-- A batch of handlers is taken as a whole, or it is refused, with a notice at most. -/
theorem addHandlers_cases (s : State) (role : Role) (c : Context) (bs : List Binding) :
    (∃ r, s.router.admit role bs = .ok r ∧ s.addHandlers role c bs = (none, s.withRouter r)) ∨
      ∃ e, s.router.admit role bs = .error e ∧ (s.addHandlers role c bs = (some (s.refusal role e), s) ∨
        ∃ id, s.addHandlers role c bs = (some (s.refusal role e),
          s.note s.tasks.length (.noticed (.addFailed role id (s.refusal role e))))) := by
  cases hr : s.router.admit role bs with
  | ok r =>
    refine .inl ⟨r, rfl, ?_⟩
    cases role <;> unfold Router.admit at hr <;> simp only [addHandlers, hr]
  | error e =>
    refine .inr ⟨e, rfl, ?_⟩
    cases role <;> unfold Router.admit at hr <;> simp only [addHandlers, refusal, hr]
    all_goals
      split
      · exact .inr ⟨_, rfl⟩
      · exact .inl rfl

theorem addHandlers_outside {role : Role} {c : Context} {bs : List Binding} :
    Outside s (.addHandlers role c bs) (s.addHandlers role c bs).2 := by
  rcases s.addHandlers_cases role c bs with ⟨r, hr, h⟩ | ⟨e, -, h | ⟨id, h⟩⟩
  · rw [h]
    obtain ⟨hst, hg⟩ := admit_grows hr
    exact .registers hst hg
  · rw [h]
    exact .stirs (x := s.world) ⟨rfl, rfl, [], rfl, fun _ ho => (nomatch ho)⟩
  · rw [h]
    exact .refuses

theorem holds_eq_false {sub : Nat} (h : s.holds sub = false) (ha : s.world.aside = none) :
    ∀ k ∈ s.tasks, ¬k.Reads sub := by
  intro k hk hr
  rw [holds, ha, Option.isNone_none, Bool.true_and, List.any_eq_false] at h
  have hf := h k hk
  cases k with
  | worker w => exact hf (beq_iff_eq.mpr hr)
  | run v =>
    cases v with
    | subscribing run made rest =>
      obtain ⟨m, hm, he⟩ := hr
      exact hf (List.any_eq_true.mpr ⟨m, hm, by simpa using he⟩)
    | fresh _ | watching _ _ _ | draining _ _ _ | ended _ => cases hr
  | close _ | awaitStart _ | call _ | errand _ _ _ | alarm _ _ _ => cases hr

/-- What is done to the exchange for messages as they are is done to the router's, or elsewhere. -/
theorem setExchange_stirred {reads : Nat → Prop} {w : World} {x : Exchange} (ops : List Hub.Op)
    (hr : w.aside = none → ∀ o ∈ ops, ∀ i, o.reads = some i → reads i)
    (hx : (⟨w.tokens, w.exchangeOf .plain⟩ : Hub).run ops = ⟨w.tokens, x⟩) :
    w.Stirred reads (w.setExchange .plain x) := by
  unfold World.setExchange
  cases ha : w.aside with
  | some a => exact ⟨rfl, rfl, [], rfl, fun _ ho => (nomatch ho)⟩
  | none =>
    have he : w.exchangeOf .plain = w.exchange := by simp [World.exchangeOf, ha]
    rw [he] at hx
    exact ⟨rfl, rfl, ops, hx.symm, hr ha⟩

theorem fulfilOne_stirred {reads : Nat → Prop} {w : World} {d : Draft} : w.Stirred reads (w.fulfilOne d).2 := by
  obtain ⟨used, h⟩ := w.fulfilOne_eq d
  rw [h]
  exact ⟨rfl, rfl, [], rfl, fun _ ho => (nomatch ho)⟩

/-- What is done from the outside when it may be done. -/
theorem apply_outside (ha : s.Allows o) (hn : ∀ t b, o ≠ .turn t b) : Outside s o (s.apply o) := by
  have still : ∀ {reads : Nat → Prop} {x : World}, x.journal = s.world.journal → x.counters = s.world.counters →
      x.hub = s.world.hub → s.world.Stirred reads x :=
    fun hj hc hh => ⟨hj, hc, [], hh, fun _ ho => (nomatch ho)⟩
  have op : ∀ {reads : Nat → Prop} {x : World} (op : Hub.Op), x.journal = s.world.journal →
      x.counters = s.world.counters → x.hub = s.world.hub.step op → op.reads = none → s.world.Stirred reads x :=
    fun op hj hc hh hr => ⟨hj, hc, [op], hh, fun o ho i hi => by
      obtain rfl := List.mem_singleton.mp ho
      rw [hr] at hi
      cases hi⟩
  have same : Outside s o s := .stirs (x := s.world) (still rfl rfl rfl)
  cases o with
  | addStage g =>
    show Outside s _ (s.register (s.router.addStage g))
    cases hr : s.router.addStage g with
    | error e => exact same
    | ok r =>
      unfold Router.addStage at hr
      split at hr
      · cases hr
      · rename_i hst
        cases hr
        exact .registers (Bool.eq_false_iff.mpr hst) ⟨rfl, (List.append_nil _).symm, rfl, rfl, rfl, rfl⟩
  | addRoutes rs =>
    show Outside s _ (s.register (s.router.addRoutes rs))
    cases hr : s.router.addRoutes rs with
    | error e => exact same
    | ok r =>
      obtain ⟨hst, rfl⟩ := addRoutes_ok hr
      exact .registers hst ⟨(List.append_nil _).symm, rfl, rfl, rfl, rfl, rfl⟩
  | addHandlers role c bs => exact addHandlers_outside
  | token => exact .stirs (op .token rfl rfl rfl rfl)
  | derive t => exact .stirs (op (.derive t) rfl rfl rfl rfl)
  | cancel t => exact .stirs (op (.cancel t) rfl rfl rfl rfl)
  | run c => exact .begins (x := s.world) (still rfl rfl rfl) (.run rfl)
  | close => exact .begins (x := s.world) (still rfl rfl rfl) .close
  | awaitStart => exact .begins (x := s.world) (still rfl rfl rfl) .awaitStart
  | abandon t =>
    dsimp only [apply]
    split
    · rename_i h
      exact .abandons h nofun
    · rename_i h
      exact .abandons h nofun
    · exact same
  | publish topic batch => exact .begins (x := s.world) (still rfl rfl rfl) (.program (.of_program _ _))
  | send v c =>
    dsimp only [apply]
    split
    · exact .begins (x := s.world) (still rfl rfl rfl) (.errand (.of_program _ _))
    · exact .begins (x := s.world) (still rfl rfl rfl) (.program (.of_program _ _))
  | call stages h c d => exact .begins fulfilOne_stirred (.call rfl)
  | alarm ms t => exact .begins (still rfl rfl rfl) .alarm
  | subscribe t topic =>
    dsimp only [apply]
    split
    · rename_i sub x hs
      unfold World.subscribe at hs
      split at hs
      · cases hs
      · split at hs
        · cases hs
        · rename_i i e he
          cases hs
          exact .stirs (setExchange_stirred _ (fun _ => by simp [Hub.Op.reads]) (Hub.run_subscribe he))
    · exact same
  | poll sub =>
    exact .stirs (setExchange_stirred [.poll sub] (fun hn o ho i hi => by
      obtain rfl := List.mem_singleton.mp ho
      cases hi
      exact holds_eq_false ha.2 hn) rfl)
  | drop sub =>
    exact .stirs (setExchange_stirred [.drop sub] (fun hn o ho i hi => by
      obtain rfl := List.mem_singleton.mp ho
      cases hi
      exact holds_eq_false ha.2 hn) rfl)
  | closeExchange =>
    obtain ⟨ops, hrun, hreads⟩ := Hub.run_close ⟨s.world.tokens, s.world.exchangeOf .plain⟩
    exact .stirs (setExchange_stirred ops (fun _ o ho i hi => by
      rw [hreads o ho] at hi
      cases hi) hrun)
  | tick ms => exact .stirs (still rfl rfl rfl)
  | turn t b => exact absurd rfl (hn t b)

end State
end Relay
