import Relay.Proofs.Broker.Dealings
import Relay.Proofs.Router.Settled
import Mathlib.Algebra.BigOperators.Group.List.Basic

/-! Accounts. Every message that a worker of a broker has taken and is done with has had one of four fates,
    and when nothing can move any more the counters of the retry stage, the notices and the fates of the
    messages agree. -/

namespace Relay

/-- What may be done to a broker all of whose handlers handle values. -/
def State.Op.OfBindings : State.Op → Prop
  | .addStage _ | .addRoutes _ | .call .. => False
  | _ => True

instance State.Op.decidableOfBindings : (o : State.Op) → Decidable o.OfBindings
  | .addStage _ | .addRoutes _ | .call .. => .isFalse id
  | .addHandlers .. | .token | .derive _ | .cancel _ | .run _ | .close | .awaitStart | .abandon _ | .publish ..
  | .send .. | .alarm .. | .subscribe .. | .poll _ | .drop _ | .closeExchange | .tick _ | .turn .. => .isTrue trivial

theorem State.Op.OfBindings.ofBroker {o : State.Op} (h : o.OfBindings) : o.OfBroker := by
  cases o with
  | addStage _ | addRoutes _ | call _ _ _ _ => exact h.elim
  | addHandlers _ _ _ | token | derive _ | cancel _ | run _ | close | awaitStart | abandon _ | publish _ _ | send _ _
  | alarm _ _ | subscribe _ _ | poll _ | drop _ | closeExchange | tick _ | turn _ _ => exact trivial

/-! ### Steps that leave no trace of a message -/

theorem World.subscribe_counters {w x : World} {port : Port} {t : Token} {topic : String} {sub : Nat}
    (h : w.subscribe port t topic = .ok (sub, x)) : x.counters = w.counters := by
  unfold World.subscribe at h
  split at h
  · cases h
  · split at h
    · cases h
    · cases h
      exact World.Still.setExchange.counters

/-- Nothing is counted, and nothing is written down that the way of a message leaves. -/
structure World.Rests (task : Nat) (w w' : World) : Prop where
  counters : w'.counters = w.counters
  touches : w.Touches (fun _ => True) (·.isWork = false) task w'

theorem Call.Moves.rests {task : Nat} {w w' : World} {c c' : Call} (h : c.Moves task w w' c') (hc : c.IsProgram) :
    w.Rests task w' := by
  obtain ⟨hh, hf, he, hb⟩ := hc
  have span : ∀ {w : World} {ctx : Context} {name : String} {kind : SpanKind},
      w.Touches (fun _ => True) (·.isWork = false) task (w.startSpan task ctx name kind).2 := .startSpan rfl
  cases h with
  | stays | brokeOff _ _ | awaited _ | woke _ _ | freed _ _ | delivered _ _ | undelivered _ _ | strayed _ _ =>
    exact ⟨rfl, .refl w⟩
  | unhandled hp _ | undecoded hp _ _ _ | refused hp _ _ _ | called hp _ _ _ | guarded hp | marked hp _ | unmarked hp _
  | restored hp | tried hp | passed hp _ | answered hp _ | dispatched hp => exact absurd hp (he _ _ _)
  | returned _ hn _ =>
    rw [hh] at hn
    cases hn
  | slept _ => exact ⟨rfl, .setTimer⟩
  | cancelled _ => exact ⟨rfl, .cancel⟩
  | unpublished _ _ => exact ⟨World.Still.fulfil.counters, .fulfil⟩
  | published _ hx =>
    exact ⟨(World.Still.fulfil.trans (.publish hx)).counters, World.Touches.fulfil.trans (.publish hx)⟩
  | unwritten _ _ => exact ⟨rfl, span⟩
  | unsent _ _ _ => exact ⟨rfl, span.trans .draw⟩
  | sent _ _ hx =>
    exact ⟨(World.Still.publish hx).counters, (span.trans .draw).trans (.publish hx)⟩
  | @delivers port pub _ _ _ _ _ _ =>
    exact ⟨World.Still.setExchange.counters, .setExchange (.advance pub) rfl fun _ => rfl⟩
  | aborted hp _ _ | retried hp _ _ _ => exact absurd hp (hb _ _)
  | recovered _ hf' | unwound _ hf' _ | filtered _ _ hf' | unretryable _ hf' _ | backsOff _ hf' _ _
  | exhausted _ hf' _ _ | propagated _ hf' _ | swallowed _ hf' _ | left _ hf' _ _ _ =>
    rw [hf] at hf'
    cases hf'

namespace State
variable {p : RetryPolicy} {s s' : State} {o : Op} {t : Nat}

theorem reported_counters {e : LifecycleError} : (s.reported t e).counters = s.world.counters := by
  unfold reported
  split <;> rfl

/-- The tasks of a broker other than its workers. -/
theorem rests_of_moves {k k' : Task} {x : World} {r : Router} {new : List Task} (h : k.Moves s t x r new k')
    (hk : ∀ w, k ≠ .worker w) (hp : ∀ c, k.call? = some c → c.IsProgram) : s.world.Rests t x := by
  cases h with
  | stays | learns _ | sent _ => exact ⟨rfl, .refl _⟩
  | @worker w _ _ _ => exact absurd rfl (hk w)
  | run hv =>
    refine ⟨?_, hv.touches.weaken⟩
    cases hv with
    | stays | begins _ _ | skips _ _ | breaksOff _ _ _ | serves _ _ | joins _ _ _ _ | drains _ _ | awaits _ _ _ => rfl
    | rejected _ _ => exact reported_counters
    | subscribes _ _ hs => exact World.subscribe_counters hs
    | declined _ _ _ hx =>
      subst hx
      exact reported_counters
    | finishes _ hx =>
      subst hx
      split <;> rfl
  | close hc =>
    refine ⟨?_, hc.touches⟩
    cases hc with
    | stays | tells _ _ | returns _ _ _ => rfl
    | rejected _ _ | fails _ _ _ => exact reported_counters
  | call hm => exact hm.rests (hp _ rfl)
  | errand _ hm => exact hm.rests (hp _ rfl)
  | unsent _ => exact ⟨rfl, .note rfl⟩
  | rings _ => exact ⟨rfl, .cancel⟩

end State

/-! ### Counters and the journal -/

/-- A mark of which `q` holds. -/
def Event.marked (q : Mark → Bool) (e : Event) : Bool := e.mark?.any q

/-- The fate of a message that is dropped with this mark. -/
def Mark.fate? : Mark → Option Fate
  | refused _ => some .refused
  | exhausted => some .exhausted
  | abandoned => some .abandoned
  | aborted | recovered => none

namespace World

/-- How many events there are of which `P` holds. -/
def tally (w : World) (P : Event → Bool) : Nat := w.journal.countP fun e => P e.event

/-- How often a mark is written down. -/
def marked (w : World) (m : Mark) : Nat := w.tally (Event.marked (· == m))

/-- How many messages the journal says were dropped in this way. -/
def drops (w : World) (f : Fate) : Nat := w.tally (Event.marked fun m => m.fate? == some f)

/-- The counters of the retry stage agree with the journal. -/
structure Counts (w : World) (k : Counters) : Prop where
  listed : w.counters[Broker.retryPlace]? = some k
  attempts : k.attempts = w.tally (Event.isEntry Broker.retryPlace) + k.retries
  exhausted : k.exhausted = w.marked .exhausted
  aborted : k.aborted = w.marked .aborted

variable {w w' : World} {task : Nat} {e : Event} {P : Event → Bool} {k : Counters}

theorem tally_same {y : Entry} (h : w'.journal = y :: w.journal) (hp : P y.event = false) : w'.tally P = w.tally P := by
  simp [tally, h, hp]

theorem tally_more {y : Entry} (h : w'.journal = y :: w.journal) (hp : P y.event = true) :
    w'.tally P = w.tally P + 1 := by
  simp [tally, h, hp]

theorem tally_eq (h : w'.journal = w.journal) : w'.tally P = w.tally P := by simp [tally, h]

theorem Rests.tally (h : w.Rests task w') (hP : ∀ e, P e = true → e.isWork = true) : w'.tally P = w.tally P := by
  obtain ⟨new, hj, hn⟩ := h.touches.journal
  have hnone : new.countP (fun e => P e.event) = 0 := List.countP_eq_zero.mpr fun e he hp => by
    have := hP _ hp
    rw [(hn e he).2] at this
    cases this
  simp [World.tally, hj, hnone]

end World

theorem Event.isWork_of_marked {q : Mark → Bool} {e : Event} (h : e.marked q = true) :
    e.isWork = true ∧ e.taken? = none := by
  cases e with
  | noticed n =>
    cases n with
    | messageFailed _ _ _ _ | panicRecovered _ _ _ | retriesExhausted _ _ _ _ | retryAborted _ _
    | handlingFailed _ _ _ _ =>
      exact ⟨rfl, rfl⟩
    | subscribeFailed _ _ _ | workerPanicked _ | workersFailed _ | buildFailed _ _ | routerFailed _ | addFailed _ _ _
    | sendFailed _ _ _ _ => cases h
  | taken _ _ | settled _ _ _ | entered _ | left _ | called _ _ _ _ _ | returned _ _ _ _ | spanned _ _ => cases h

theorem Event.isWork_of_isEntry {place : Nat} {e : Event} (h : e.isEntry place = true) :
    e.isWork = true ∧ e.taken? = none := by
  cases e with
  | entered _ => exact ⟨rfl, rfl⟩
  | taken _ _ | settled _ _ _ | left _ | called _ _ _ _ _ | returned _ _ _ _ | spanned _ _ | noticed _ => cases h

namespace World.Counts
variable {w w' : World} {task : Nat} {e : Event} {k : Counters}

theorem of_eq (hk : w.Counts k) (hj : w'.journal = w.journal)
    (hc : w'.counters[Broker.retryPlace]? = w.counters[Broker.retryPlace]?) : w'.Counts k where
  listed := hc.trans hk.listed
  attempts := (tally_eq hj).symm ▸ hk.attempts
  exhausted := hk.exhausted.trans (tally_eq hj).symm
  aborted := hk.aborted.trans (tally_eq hj).symm

theorem rests (hk : w.Counts k) (h : w.Rests task w') : w'.Counts k where
  listed := h.counters ▸ hk.listed
  attempts := (h.tally fun _ he => (Event.isWork_of_isEntry he).1).symm ▸ hk.attempts
  exhausted := hk.exhausted.trans (h.tally fun _ he => (Event.isWork_of_marked he).1).symm
  aborted := hk.aborted.trans (h.tally fun _ he => (Event.isWork_of_marked he).1).symm

/-- An event that neither says that a message has come to the retry stage nor that this gave it up. -/
theorem note (hk : w.Counts k) (he : e.isEntry Broker.retryPlace = false) (hx : e.mark? ≠ some .exhausted)
    (ha : e.mark? ≠ some .aborted) : (w.note task e).Counts k := by
  have hm : ∀ {m : Mark}, e.mark? ≠ some m → (w.note task e).marked m = w.marked m := fun {m} hm => by
    have : e.marked (· == m) = false := by
      cases h : e.mark? with
      | none => simp [Event.marked, h]
      | some m' =>
        have : m' ≠ m := fun he => hm (h.trans (congrArg some he))
        simpa [Event.marked, h] using this
    exact tally_same rfl this
  refine ⟨hk.listed, ?_, hk.exhausted.trans (hm hx).symm, hk.aborted.trans (hm ha).symm⟩
  rw [tally_same rfl he]
  exact hk.attempts

theorem modified (hk : w.Counts k) (f : Counters → Counters) :
    (w.count Broker.retryPlace f).counters[Broker.retryPlace]? = some (f k) := by
  simp [World.count, hk.listed]

/-- A message comes to the retry stage. -/
theorem tried (hk : w.Counts k) : ((w.note task (.entered Broker.retryPlace)).count Broker.retryPlace
    fun k => { k with attempts := k.attempts + 1 }).Counts { k with attempts := k.attempts + 1 } where
  listed := hk.modified _
  attempts := by
    rw [tally_more rfl rfl, Nat.add_right_comm, ← hk.attempts]
  exhausted := hk.exhausted.trans (tally_same rfl rfl).symm
  aborted := hk.aborted.trans (tally_same rfl rfl).symm

theorem retried (hk : w.Counts k) : (w.count Broker.retryPlace
    fun k => { k with retries := k.retries + 1, attempts := k.attempts + 1 }).Counts
      { k with retries := k.retries + 1, attempts := k.attempts + 1 } where
  listed := hk.modified _
  attempts := congrArg (· + 1) hk.attempts
  exhausted := hk.exhausted
  aborted := hk.aborted

theorem aborts {id : String} {attempt : Nat} (hk : w.Counts k) :
    ((w.count Broker.retryPlace fun k => { k with aborted := k.aborted + 1 }).note task
      (.noticed (.retryAborted id attempt))).Counts { k with aborted := k.aborted + 1 } where
  listed := hk.modified _
  attempts := hk.attempts.trans (congrArg (· + k.retries) (tally_same rfl rfl).symm)
  exhausted := hk.exhausted.trans (tally_same rfl rfl).symm
  aborted := (congrArg (· + 1) hk.aborted).trans (tally_more rfl rfl).symm

theorem exhausts {id topic : String} {attempt : Nat} {err : Error} (hk : w.Counts k) :
    ((w.count Broker.retryPlace fun k => { k with exhausted := k.exhausted + 1 }).note task
      (.noticed (.retriesExhausted id topic attempt err))).Counts { k with exhausted := k.exhausted + 1 } where
  listed := hk.modified _
  attempts := hk.attempts.trans (congrArg (· + k.retries) (tally_same rfl rfl).symm)
  exhausted := (congrArg (· + 1) hk.exhausted).trans (tally_more rfl rfl).symm
  aborted := hk.aborted.trans (tally_same rfl rfl).symm

end World.Counts

theorem Call.Moves.counts {p : RetryPolicy} {role : Role} {handler : String} {tok : Token} {task : Nat} {w w' : World}
    {c c' : Call} {k : Counters} (h : c.Moves task w w' c') (hs : c.Stands tok (Broker.chain p role handler))
    (hk : w.Counts k) : ∃ k, w'.Counts k := by
  have same : ∀ {x : World}, w.Still x → ∃ k, x.Counts k :=
    fun hx => ⟨k, hk.of_eq hx.journal (congrArg (·[Broker.retryPlace]?) hx.counters)⟩
  have spanned : ∀ {ctx : Context} {name : String} {kind : SpanKind}, (w.startSpan task ctx name kind).2.Counts k :=
    World.Counts.note (w := { w with ids := _ }) (hk.of_eq rfl rfl) rfl nofun nofun
  -- Only the entry of the retry stage is counted.
  have reached : ∀ {rest : List Stage} {ctx : Context} {m : Message} {g : Stage},
      c.phase = .entering (g :: rest) ctx m → (Broker.place g == Broker.retryPlace) = false →
      (c.reached task w).Counts k := fun hp hg => by
    have hl := (hs.entering hp).1.place
    exact hk.note (by rw [Event.isEntry_entered, hl, hg]) nofun nofun
  have arrived : ∀ {ctx : Context} {m : Message}, c.phase = .entering [] ctx m → (c.arrived task w).Counts k :=
    fun hp => by
      have hl := (hs.entering hp).1.length_chain
      refine World.Counts.note (w := { w with calls := _ }) (hk.of_eq rfl rfl) ?_ nofun nofun
      rw [Event.isEntry_entered, hl]
      rfl
  have left : ∀ {x : World} {k : Counters} {n : Nat}, x.Counts k → ∃ k, (x.note task (.left n)).Counts k :=
    fun hk => ⟨_, hk.note rfl nofun nofun⟩
  cases h with
  | stays | unhandled _ _ | undecoded _ _ _ _ | brokeOff _ _ | slept _ | cancelled _ | awaited _ | woke _ _ | freed _ _
  | delivered _ _ | undelivered _ _ | strayed _ _ | backsOff _ _ _ _ => exact same ⟨rfl, rfl⟩
  | delivers _ _ => exact same .setExchange
  | unpublished _ _ => exact same .fulfil
  | published _ hx => exact same (World.Still.fulfil.trans (.publish hx))
  | refused hp _ _ _ => exact ⟨k, arrived hp⟩
  | called hp _ _ _ => exact ⟨k, (arrived hp).note rfl nofun nofun⟩
  | guarded hp | unmarked hp _ | restored hp => exact ⟨k, reached hp rfl⟩
  | marked hp _ => exact ⟨k, (reached hp rfl).of_eq rfl rfl⟩
  | dispatched hp =>
    refine ⟨k, World.Counts.note (w := { c.reached task w with ids := _ }) ?_ rfl nofun nofun⟩
    exact (reached hp rfl).of_eq rfl rfl
  | tried hp =>
    have hl : _ = Broker.retryPlace := (hs.entering hp).1.place
    rw [Call.reached, hl]
    exact ⟨_, hk.tried⟩
  | passed hp _ | answered hp _ =>
    have hc : Broker.IsChain p (Broker.chain p role handler) := .inr ⟨role, handler, rfl⟩
    exact absurd ((hs.entering hp).1.suffix.mem List.mem_cons_self) (hc.not_filter _)
  | returned _ _ _ => exact ⟨k, hk.note rfl nofun nofun⟩
  | unwritten _ _ => exact ⟨k, spanned⟩
  | unsent _ _ _ => exact ⟨k, spanned.of_eq rfl rfl⟩
  | sent _ _ hx =>
    have hx := World.Still.publish hx
    exact ⟨k, spanned.of_eq hx.journal (congrArg (·[Broker.retryPlace]?) hx.counters)⟩
  | aborted hp hf _ =>
    rw [hs.backoff_outer hp hf]
    exact left hk.aborts
  | retried hp hf _ _ =>
    rw [hs.backoff_outer hp hf]
    exact ⟨_, hk.retried⟩
  | exhausted hp hf _ _ =>
    rw [show _ = 3 from hs.leaving_outer hp hf]
    exact left hk.exhausts
  | recovered _ _ => exact left (hk.note rfl nofun nofun)
  | swallowed _ _ _ => exact left (hk.note rfl nofun nofun)
  | unwound _ _ _ | filtered _ _ _ | unretryable _ _ _ | propagated _ _ _ | left _ _ _ _ _ => exact left hk

theorem Worker.Moves.counts {p : RetryPolicy} {role : Role} {handler : String} {t : Nat} {x x' : World} {w w' : Worker}
    {k : Counters} (h : w.Moves t x x' w') (hstages : w.stages = Broker.chain p role handler)
    (hc : ∀ {m : Message} {c : Call}, w.occupation = .busy m c → c.Stands w.context.token w.stages)
    (hk : x.Counts k) : ∃ k, x'.Counts k := by
  cases h with
  | stays => exact ⟨k, hk⟩
  | @takes sub m rest _ _ _ _ =>
    have hx : World.Counts { x with exchange := x.exchange.updateSubscription w.subscription (·.take m rest) } k :=
      hk.of_eq rfl rfl
    exact ⟨k, hx.note rfl nofun nofun⟩
  | stops _ _ => exact ⟨k, hk.of_eq rfl rfl⟩
  | works ho _ hm => exact hm.counts (hstages ▸ hc ho) hk
  | succeeds _ _ => exact ⟨k, hk.note rfl nofun nofun⟩
  | @fails m c e lastError _ _ _ =>
    have hx : (x.note t (.settled w.route m (.failed e))).Counts k := hk.note rfl nofun nofun
    exact ⟨k, hx.note rfl nofun nofun⟩
  | @breaksOff m c reason _ _ =>
    have hx : (x.note t (.settled w.route m (.panicked reason))).Counts k := hk.note rfl nofun nofun
    have hx' : World.Counts { x.note t (.settled w.route m (.panicked reason)) with
      exchange := x.exchange.drop w.subscription } k := hx.of_eq rfl rfl
    exact ⟨k, hx'.note rfl nofun nofun⟩

/-! ### The books of a broker -/

namespace State
variable {p : RetryPolicy} {s s' : State} {o : Op} {t : Nat}

/-- What holds of the journal and the counters of a broker whose handlers all handle values. -/
structure Booked (s : State) : Prop where
  bound : ∀ r ∈ s.router.routes, ∃ role handler, r.stages = [.dispatch role handler]
  workers : ∀ {t : Nat} {w : Worker}, s.tasks[t]? = some (.worker w) →
    w.occupation.Deals (s.world.dealings t) ∧ s.world.Tallied t
  others : ∀ {t : Nat}, (∀ w, s.tasks[t]? ≠ some (.worker w)) → ∀ e ∈ s.world.history t, e.isWork = false
  counts : ∃ k, s.world.Counts k

theorem Booked.start {x : World} (hj : x.journal = []) (hc : x.counters = []) :
    (Broker.start (Broker.defaultStages p) x).Booked := by
  have ht : (Broker.start (Broker.defaultStages p) x).tasks = [] := rfl
  have hj' : (Broker.start (Broker.defaultStages p) x).world.journal = [] := hj
  refine ⟨fun r hr => ?_, fun hw => ?_, fun _ e he => ?_, {}, ?_, ?_, ?_, ?_⟩
  · cases hr
  · rw [ht] at hw
    cases hw
  · simp [World.history, hj'] at he
  · show (x.counters ++ List.replicate _ _)[3]? = _
    rw [hc]
    rfl
  all_goals simp [World.marked, World.tally, hj']

theorem Booked.stages {w : Worker} (hb : s.Booked) (hi : s.Orderly p) (hw : s.tasks[t]? = some (.worker w)) :
    ∃ role handler, w.stages = Broker.chain p role handler := by
  obtain ⟨t₀, base, run, hs⟩ := hi.course.serving_of_worker hw
  obtain ⟨-, -, route, hr⟩ := hs.serves hw
  obtain ⟨role, handler, he⟩ := hb.bound route (List.mem_of_getElem? hr.listed)
  exact ⟨role, handler, by rw [hr.stages, Router.pipeline, hi.chained.stages, he, Broker.chain]⟩

theorem Step.bound (h : s.Step o s') (hk : o.OfBindings)
    (hb : ∀ r ∈ s.router.routes, ∃ role handler, r.stages = [.dispatch role handler]) :
    ∀ r ∈ s'.router.routes, ∃ role handler, r.stages = [.dispatch role handler] := by
  rcases h.router with ⟨-, hr⟩ | hg
  · exact hr ▸ hb
  · intro r hr
    rw [hg.routes] at hr
    rcases List.mem_append.mp hr with hr | hr
    · exact hb r hr
    · cases o with
      | addHandlers role c bs =>
        obtain ⟨b, -, rfl⟩ := List.mem_map.mp hr
        exact ⟨b.role, b.name, rfl⟩
      | addStage _ | addRoutes _ | call _ _ _ _ => exact hk.elim
      | token | derive _ | cancel _ | run _ | close | awaitStart | abandon _ | publish _ _ | send _ _ | alarm _ _
      | subscribe _ _ | poll _ | drop _ | closeExchange | tick _ | turn _ _ => cases hr

theorem Booked.counts_step (hb : s.Booked) (hi : s.Orderly p) (h : s.Step o s') : ∃ k, s'.world.Counts k := by
  obtain ⟨k, hk⟩ := hb.counts
  cases h with
  | outside _ _ h =>
    cases h with
    | registers _ _ =>
      refine ⟨k, hk.of_eq rfl ?_⟩
      show (s.world.counters ++ _)[Broker.retryPlace]? = s.world.counters[Broker.retryPlace]?
      rw [List.getElem?_append_left (List.getElem?_eq_some_iff.mp hk.listed).1]
    | refuses => exact ⟨k, hk.note rfl nofun nofun⟩
    | stirs hx | begins hx _ => exact ⟨k, hk.of_eq hx.journal (congrArg (·[Broker.retryPlace]?) hx.counters)⟩
    | abandons _ _ => exact ⟨k, hk⟩
  | @turn t b j k' x r new _ _ ht hm =>
    by_cases hw : ∃ w, j = .worker w
    · obtain ⟨w, rfl⟩ := hw
      cases hm with
      | stays => exact ⟨k, hk⟩
      | worker hm =>
        obtain ⟨role, handler, hst⟩ := hb.stages hi ht
        exact hm.counts hst (fun ho => (hi.placed.calls ht ho).1) hk
    · have hn : ∀ w, j ≠ .worker w := fun w he => hw ⟨w, he⟩
      exact ⟨k, hk.rests (rests_of_moves hm hn fun c hc => hi.placed.others.program ht hn hc)⟩
  | nobody _ _ _ => exact ⟨k, hk⟩

theorem Booked.others_step (hb : s.Booked) (hi : s.Orderly p) (h : s.Step o s')
    (hn : ∀ w, s'.tasks[t]? ≠ some (.worker w)) : ∀ e ∈ s'.world.history t, e.isWork = false := by
  have hold : ∀ e ∈ s.world.history t, e.isWork = false := hb.others fun w hw => by
    rcases h.worker hw with ⟨b, w', -, hw', -⟩ | ⟨-, hw'⟩
    · exact hn _ hw'
    · exact hn _ hw'
  cases h with
  | outside _ _ h =>
    cases h with
    | registers _ _ | abandons _ _ => exact hold
    | stirs hx | begins hx _ =>
      intro e he
      exact hold e (World.history_eq hx.journal t ▸ he)
    | @refuses role id err =>
      intro e he
      by_cases hu : s.tasks.length = t
      · replace he : e ∈ (s.world.note s.tasks.length (.noticed (.addFailed role id err))).history t := he
        rw [← hu, World.history_note_self, List.mem_append, List.mem_singleton] at he
        rcases he with he | rfl
        · exact hold e (hu ▸ he)
        · rfl
      · exact hold e (World.history_note_of_ne s.world _ hu ▸ he)
  | @turn u b k k' x r new _ _ hu hm =>
    by_cases hut : t = u
    · subst hut
      have hk : ∀ w, k ≠ .worker w := fun w he => by
        subst he
        cases hm with
        | stays => exact hn _ (set_append_self hu)
        | worker _ => exact hn _ (set_append_self hu)
      obtain ⟨new, hh, hnew⟩ := (rests_of_moves hm hk fun c hc => hi.placed.others.program hu hk hc).touches.history
      intro e he
      replace he : e ∈ x.history t := he
      rw [hh] at he
      exact (List.mem_append.mp he).elim (hold e) (hnew e)
    · exact fun e he => hold e (hm.touches.history_of_ne hut ▸ he)
  | nobody _ _ _ => exact hold

theorem Booked.workers_step (hb : s.Booked) (hi : s.Orderly p) (h : s.Step o s') {w' : Worker}
    (hw' : s'.tasks[t]? = some (.worker w')) :
    w'.occupation.Deals (s'.world.dealings t) ∧ s'.world.Tallied t := by
  rcases h.worker_back hw' with ⟨w, hw⟩ | ⟨u, v, x, r, new, v', active, hu, hm, rfl, hl, hnew⟩
  · obtain ⟨hd, ht⟩ := hb.workers hw
    rcases h.worker hw with ⟨b, w'', -, hw'', hm, -⟩ | ⟨hn, hsame⟩
    · rw [hw'] at hw''
      cases hw''
      obtain ⟨role, handler, hst⟩ := hb.stages hi hw
      exact hm.deals hst (hi.placed.calls hw) hd ht
    · rw [hw'] at hsame
      cases hsame
      have hh := h.history (List.getElem?_eq_some_iff.mp hw).1 hn
      exact ⟨World.dealings_eq hh ▸ hd, ht.of_eq hh⟩
  · -- A worker that has just begun has nothing in its history.
    obtain ⟨w, he, hidle⟩ := Task.Moves.new_idle (.run hm) (List.mem_of_getElem? hnew)
    cases he
    have hold : ∀ e ∈ s.world.history t, e.isWork = false := hb.others fun w hw => by
      have := (List.getElem?_eq_some_iff.mp hw).1
      omega
    have hne : t ≠ u := Nat.ne_of_gt (Nat.lt_of_lt_of_le (List.getElem?_eq_some_iff.mp hu).1 hl)
    obtain ⟨ht, hd⟩ := World.Tallied.of_idle fun e he => hold e (hm.touches.history_of_ne hne ▸ he)
    refine ⟨?_, ht⟩
    show w'.occupation.Deals (x.dealings t)
    rw [hd, hidle]
    exact fun _ hd => nomatch hd

theorem Booked.step (hb : s.Booked) (hi : s.Orderly p) (hk : o.OfBindings) (h : s.Step o s') : s'.Booked where
  bound := h.bound hk hb.bound
  workers := hb.workers_step hi h
  others := hb.others_step hi h
  counts := hb.counts_step hi h

/-! ### All dealings together -/

/-- The dealings of all tasks. -/
def dealings (s : State) : List Dealing := (List.range s.tasks.length).flatMap s.world.dealings

/-- The dealings that are over. -/
def finished (s : State) : List Dealing := s.dealings.filter (·.isFinished)

theorem sum_flatMap {α β : Type} (l : List α) (f : α → List β) (g : β → Nat) :
    ((l.flatMap f).map g).sum = (l.map fun a => ((f a).map g).sum).sum := by
  induction l with
  | nil => rfl
  | cons a l ih => rw [List.flatMap_cons, List.map_append, List.sum_append, ih, List.map_cons, List.sum_cons]

theorem countP_lt_succ (l : List Entry) (P : Event → Bool) (n : Nat) :
    l.countP (fun e => P e.event && decide (e.task < n + 1)) =
      l.countP (fun e => P e.event && decide (e.task < n)) + l.countP (fun e => P e.event && e.task == n) := by
  induction l with
  | nil => rfl
  | cons e l ih =>
    rw [List.countP_cons, List.countP_cons, List.countP_cons, ih]
    rcases Nat.lt_trichotomy e.task n with h | h | h
    · simp [h, Nat.lt_succ_of_lt h, Nat.ne_of_lt h]
      omega
    · simp [h]
      omega
    · simp [Nat.not_lt_of_le (Nat.le_of_lt h), Nat.ne_of_gt h, Nat.not_lt_of_le (Nat.succ_le_of_lt h)]

/-- The journal holds the histories of all tasks. -/
theorem sum_histories (x : World) (P : Event → Bool) (n : Nat) :
    ((List.range n).map fun t => (x.history t).countP P).sum =
      x.journal.countP fun e => P e.event && decide (e.task < n) := by
  induction n with
  | zero => simp
  | succ n ih =>
    have hh : (x.history n).countP P = x.journal.countP fun e => P e.event && e.task == n := by
      rw [World.history, List.countP_reverse, List.countP_map, List.countP_filter]
      rfl
    rw [List.range_succ, List.map_append, List.sum_append, ih, countP_lt_succ, ← hh]
    simp

/-- What the journal says of messages stands in the dealings. -/
theorem Booked.tally (hb : s.Booked) {P : Event → Bool} (hP : ∀ e, P e = true → e.isWork = true ∧ e.taken? = none) :
    s.world.tally P = (s.dealings.map (·.events.countP P)).sum := by
  have htallied : ∀ t, s.world.Tallied t := fun t => by
    by_cases hw : ∃ w, s.tasks[t]? = some (.worker w)
    · obtain ⟨w, hw⟩ := hw
      exact (hb.workers hw).2
    · exact (World.Tallied.of_idle (hb.others fun w h => hw ⟨w, h⟩)).1
  have hbound : s.world.journal.countP (fun e => P e.event) =
      s.world.journal.countP fun e => P e.event && decide (e.task < s.tasks.length) := by
    refine List.countP_congr fun e he => ?_
    rw [Bool.and_eq_true, decide_eq_true_iff]
    refine ⟨fun hp => ⟨hp, Nat.lt_of_not_le fun hl => ?_⟩, And.left⟩
    have hmem : e.event ∈ s.world.history e.task :=
      List.mem_reverse.mpr (List.mem_map_of_mem (List.mem_filter.mpr ⟨he, beq_self_eq_true _⟩))
    have := hb.others (fun w hw => Nat.not_lt_of_le hl (List.getElem?_eq_some_iff.mp hw).1) _ hmem
    rw [(hP _ hp).1] at this
    cases this
  rw [World.tally, hbound, ← sum_histories, dealings, sum_flatMap]
  exact congrArg List.sum (List.map_congr_left fun t _ => htallied t P hP)

theorem sum_eq_countP {l : List Dealing} {f : Dealing → Nat} {q : Dealing → Bool}
    (h : ∀ d ∈ l, f d = if q d then 1 else 0) : (l.map f).sum = l.countP q := by
  induction l with
  | nil => rfl
  | cons d l ih =>
    rw [List.map_cons, List.sum_cons, h d List.mem_cons_self, ih fun d' hd' => h d' (List.mem_cons_of_mem _ hd'),
      List.countP_cons, Nat.add_comm]

/-- If each dealing has a fate, the fates partition them. -/
theorem length_eq_fates {l : List Dealing} (h : ∀ d ∈ l, ∃ f, Fate.Of f d) :
    l.length = l.countP (fun d => decide (Fate.handled.Of d)) + l.countP (fun d => decide (Fate.refused.Of d)) +
      l.countP (fun d => decide (Fate.exhausted.Of d)) + l.countP (fun d => decide (Fate.abandoned.Of d)) := by
  induction l with
  | nil => rfl
  | cons d l ih =>
    obtain ⟨f, hf⟩ := h d List.mem_cons_self
    have hof : ∀ g : Fate, decide (g.Of d) = decide (g = f) := fun g => decide_eq_decide.mpr
      ⟨fun hg => hg.eq hf, fun he => he ▸ hf⟩
    have := ih fun d' hd' => h d' (List.mem_cons_of_mem _ hd')
    simp only [List.countP_cons, List.length_cons, hof]
    cases f <;> simp <;> omega

theorem countP_marked (d : Dealing) (q : Mark → Bool) : d.events.countP (Event.marked q) = d.marks.countP q := by
  rw [Dealing.marks, List.countP_filterMap]
  refine List.countP_congr fun e _ => ?_
  rw [Event.marked]
  cases e.mark? <;> simp

end State

theorem Call.Owes.entries_le {c : Call} {d : Dealing} (h : c.Owes d) : d.entries Broker.retryPlace ≤ 1 := by
  have hs := h.shows
  cases hp : c.phase with
  | entering _ _ _ =>
    rw [hp] at hs
    rw [hs.2]
    split <;> omega
  | acting _ _ _ | asleep _ _ _ _ | awaiting _ _ _ | sending _ _ _ _ _ _ | backoff _ _ =>
    rw [hp] at hs
    exact Nat.le_of_eq hs.2
  | leaving o =>
    rw [hp] at hs
    cases o with
    | ok | failed _ | panicked _ => exact Nat.le_of_eq hs.1

/-- A dealing that is not over shows no mark while its call waits. -/
theorem Call.Owes.marks {c : Call} {d : Dealing} (h : c.Owes d)
    (hc : (∃ n, c.invocation? = some n) ∨ ∃ timer e, c.phase = .backoff timer e) : d.marks = [] := by
  have hs := h.shows
  rcases hc with ⟨n, hn⟩ | ⟨timer, e, hp⟩
  · unfold Call.invocation? at hn
    cases hp : c.phase with
    | acting _ _ _ | asleep _ _ _ _ | awaiting _ _ _ | sending _ _ _ _ _ _ =>
      rw [hp] at hs
      exact hs.1
    | entering _ _ _ | backoff _ _ | leaving _ =>
      rw [hp] at hn
      cases hn
  · rw [hp] at hs
    exact hs.1

theorem Dealing.isFinished_iff {d : Dealing} : d.isFinished = true ↔ 0 < d.events.countP Event.isEnd := by
  rw [isFinished, List.any_eq_true, List.countP_pos_iff]

theorem Dealing.Concluded.isFinished {d : Dealing} (h : d.Concluded) : d.isFinished = true :=
  Dealing.isFinished_iff.mpr (by rw [h.finished]; exact Nat.one_pos)

theorem Call.Owes.not_finished {c : Call} {d : Dealing} (h : c.Owes d) : d.isFinished = false :=
  Bool.eq_false_iff.mpr fun hf => by
    have := Dealing.isFinished_iff.mp hf
    rw [h.unfinished] at this
    exact Nat.lt_irrefl 0 this

/-- How often a dealing that is over shows that the message was dropped in this way. -/
theorem Dealing.Concluded.drops {d : Dealing} (h : d.Concluded) {f : Fate} (hf : f ≠ .handled) :
    d.marks.countP (fun m => m.fate? == some f) = if f.Of d then 1 else 0 := by
  obtain ⟨g, hg⟩ := h.fate
  have hof : f.Of d ↔ f = g := ⟨fun h => h.eq hg, fun he => he ▸ hg⟩
  cases g with
  | handled => rw [hg.1, if_neg fun h => hf (hof.mp h)]; rfl
  | refused => rw [show d.marks = _ from hg]; cases f <;> simp [hof, Mark.fate?]
  | exhausted => rw [show d.marks = _ from hg]; cases f <;> simp [hof, Mark.fate?]
  | abandoned => rcases hg with hm | hm <;> rw [hm] <;> cases f <;> simp [hof, Mark.fate?]

/-- A message is dropped by its worker for an attempt not made or for a break-off. -/
theorem Dealing.Concluded.causes {d : Dealing} (h : d.Concluded) :
    d.marks.countP (· == .aborted) + d.marks.countP (· == .recovered) =
      d.marks.countP fun m => m.fate? == some .abandoned := by
  obtain ⟨g, hg⟩ := h.fate
  cases g with
  | handled => rw [hg.1]; rfl
  | refused | exhausted => rw [show d.marks = _ from hg]; rfl
  | abandoned => rcases hg with hm | hm <;> rw [hm] <;> rfl

namespace State
variable {p : RetryPolicy} {s s' : State} {o : Op} {t : Nat}

/-- A dealing is over, or it is that with the message that a worker is busy with. -/
theorem Booked.dealing (hb : s.Booked) {d : Dealing} (hd : d ∈ s.dealings) : d.Concluded ∨
    ∃ (t : Nat) (w : Worker) (m : Message) (c : Call), s.tasks[t]? = some (.worker w) ∧ w.occupation = .busy m c ∧
      c.Owes d := by
  obtain ⟨t, -, hd⟩ := List.mem_flatMap.mp hd
  by_cases hw : ∃ w, s.tasks[t]? = some (.worker w)
  · obtain ⟨w, hw⟩ := hw
    have hdeals := (hb.workers hw).1
    cases ho : w.occupation with
    | idle | ended _ =>
      rw [ho] at hdeals
      exact .inl (hdeals d hd)
    | busy m c =>
      rw [ho] at hdeals
      obtain ⟨done, d', hds, -, howes, hdone⟩ := hdeals
      rw [hds] at hd
      rcases List.mem_append.mp hd with hd | hd
      · exact .inl (hdone d hd)
      · obtain rfl := List.mem_singleton.mp hd
        exact .inr ⟨t, w, m, c, hw, ho, howes⟩
  · rw [(World.Tallied.of_idle (hb.others fun w h => hw ⟨w, h⟩)).2] at hd
    cases hd

/-- When nothing can move any more, a dealing that is not over shows no mark. -/
theorem Booked.settled (hb : s.Booked) (hset : s.isSettled = true) {d : Dealing} (hd : d ∈ s.dealings) :
    d.Concluded ∨ d.isFinished = false ∧ d.marks = [] := by
  refine (hb.dealing hd).imp id fun ⟨t, w, m, c, hw, ho, howes⟩ => ⟨howes.not_finished, howes.marks ?_⟩
  rcases settled_worker hset hw with ⟨f, hf⟩ | ⟨hi, -⟩ | ⟨m', c', ho', hc⟩
  · rw [ho] at hf
    cases hf
  · rw [ho] at hi
    cases hi
  · rw [ho] at ho'
    cases ho'
    exact hc.imp id fun ⟨timer, e, hp, _⟩ => ⟨timer, e, hp⟩

theorem Booked.attempts (hb : s.Booked) :
    s.world.tally (Event.isEntry Broker.retryPlace) = s.dealings.countP fun d => 0 < d.entries Broker.retryPlace := by
  rw [hb.tally fun _ => Event.isWork_of_isEntry]
  refine sum_eq_countP fun d hd => ?_
  show d.entries Broker.retryPlace = _
  have hle : d.entries Broker.retryPlace ≤ 1 := by
    rcases hb.dealing hd with h | ⟨_, _, _, _, -, -, h⟩
    · exact Nat.le_of_eq h.entered
    · exact h.entries_le
  by_cases hz : d.entries Broker.retryPlace = 0
  · simp [hz]
  · simp [show d.entries Broker.retryPlace = 1 by omega]

theorem Booked.tally_marked (hb : s.Booked) (q : Mark → Bool) :
    s.world.tally (Event.marked q) = (s.dealings.map (·.marks.countP q)).sum := by
  rw [hb.tally fun _ => Event.isWork_of_marked]
  exact congrArg List.sum (List.map_congr_left fun d _ => countP_marked d q)

/-- No message is lost in silence. The messages that a worker of a broker has taken are those that it is
    done with and the one that it is busy with, and each that it is done with has one fate: its handler
    came back with success in the end and nobody dropped it, or one stage or the worker has said that it
    was dropped. The retry stage counts an attempt for each message that comes to it and for each retry,
    and counts what it gives up. When nothing can move any more, the drops by workers are as many as the
    waits that were cut short and the break-offs that were caught, and the fates partition the messages
    that are done with, in the numbers that the journal says. -/
theorem accounts {x : World} (hj : x.journal = []) (hc : x.counters = [])
    (h : Runs Op.OfBindings (Broker.start (Broker.defaultStages p) x) s) :
    (∀ (t : Nat) (w : Worker), s.tasks[t]? = some (.worker w) → ∃ done current,
      s.world.dealings t = done ++ current ∧ current.map (·.message) = w.occupation.message?.toList ∧
      (∀ d ∈ current, d.isFinished = false) ∧
      ∀ d ∈ done, d.isFinished = true ∧ ∃ f, Fate.Of f d ∧ ∀ g, Fate.Of g d → g = f) ∧
    (∀ t, (s.world.dealings t).map (·.message) = s.world.handled t) ∧
    ∃ k, s.world.counters[Broker.retryPlace]? = some k ∧
      k.attempts = s.dealings.countP (fun d => 0 < d.entries Broker.retryPlace) + k.retries ∧
      k.exhausted = s.world.marked .exhausted ∧
      (s.isSettled = true →
        k.aborted + s.world.marked .recovered = s.world.drops .abandoned ∧
        s.finished.length = s.finished.countP (fun d => decide (Fate.handled.Of d)) +
          s.finished.countP (fun d => decide (Fate.refused.Of d)) +
          s.finished.countP (fun d => decide (Fate.exhausted.Of d)) +
          s.finished.countP (fun d => decide (Fate.abandoned.Of d)) ∧
        ∀ f, f ≠ .handled → s.finished.countP (fun d => decide (f.Of d)) = s.world.drops f) := by
  have hinv : s.Orderly p ∧ s.Booked :=
    h.keeps (P := fun s => s.Orderly p ∧ s.Booked) ⟨.start p x, .start hj hc⟩
      fun hk h hi => ⟨hi.1.step hk.ofBroker h, hi.2.step hi.1 hk h⟩
  obtain ⟨-, hb⟩ := hinv
  obtain ⟨k, hk⟩ := hb.counts
  refine ⟨fun t w hw => ?_, s.world.map_message_dealings, k, hk.listed, by rw [hk.attempts, hb.attempts], hk.exhausted,
    fun hset => ⟨?_, ?_, fun f hf => ?_⟩⟩
  · have unique : ∀ {d : Dealing}, d.Concluded → d.isFinished = true ∧ ∃ f, Fate.Of f d ∧ ∀ g, Fate.Of g d → g = f :=
      fun hd => ⟨hd.isFinished, hd.fate.imp fun f hf => ⟨hf, fun g hg => hg.eq hf⟩⟩
    have hdeals := (hb.workers hw).1
    cases ho : w.occupation with
    | idle | ended _ =>
      rw [ho] at hdeals
      exact ⟨_, [], (List.append_nil _).symm, rfl, List.forall_mem_nil _, fun d hd => unique (hdeals d hd)⟩
    | busy m c =>
      rw [ho] at hdeals
      obtain ⟨done, d, hds, rfl, howes, hdone⟩ := hdeals
      refine ⟨done, [d], hds, rfl, fun d' hd' => ?_, fun d hd => unique (hdone d hd)⟩
      obtain rfl := List.mem_singleton.mp hd'
      exact howes.not_finished
  · rw [hk.aborted, World.marked, World.marked, World.drops, hb.tally_marked, hb.tally_marked, hb.tally_marked]
    rw [← List.sum_map_add]
    refine congrArg List.sum (List.map_congr_left fun d hd => ?_)
    rcases hb.settled hset hd with hd | ⟨-, hm⟩
    · exact hd.causes
    · rw [hm]
      rfl
  · refine length_eq_fates fun d hd => ?_
    obtain ⟨hd, hf⟩ := List.mem_filter.mp hd
    rcases hb.dealing hd with hd | ⟨_, _, _, _, -, -, howes⟩
    · exact hd.fate
    · rw [howes.not_finished] at hf
      cases hf
  · rw [World.drops, hb.tally_marked, finished, List.countP_filter]
    refine (sum_eq_countP fun d hd => ?_).symm
    rcases hb.settled hset hd with hd | ⟨hn, hm⟩
    · rw [hd.drops hf, hd.isFinished, Bool.and_true]
      simp
    · rw [hm, hn, Bool.and_false]
      rfl

/-- A broker gets a handler that fails for good when it is first called, and two messages for it. -/
def servingBoth : List Op :=
  [Op.addHandlers .command { token := 0 } [{
      role := .command
      type := Broker.flag
      name := "learn"
      play := fun n _ _ => .finish (if n = 0 then .failed (.custom ⟨"no", .internal, "NO", false⟩ []) else .ok) }],
    .token, .run { token := 0 }] ++ List.replicate 3 (Op.turn 0 .shutdown) ++
  [Op.publish "flag" [⟨some "a", [1], ∅⟩, ⟨some "b", [1], ∅⟩]] ++ List.replicate 9 (Op.turn 2 .shutdown) ++
  List.replicate 28 (Op.turn 1 .shutdown)

def servedBoth : State := (Broker.sample.replay servingBoth).getD Broker.sample

theorem accounts_of_two : Runs Op.OfBindings Broker.sample servedBoth ∧ servedBoth.isSettled = true ∧
    (servedBoth.finished.map fun d => (d.message.id, d.marks)) = [("a", [.refused false]), ("b", [])] ∧
    servedBoth.finished.countP (fun d => decide (Fate.refused.Of d)) = servedBoth.world.drops .refused := by
  have h : Runs Op.OfBindings Broker.sample servedBoth :=
    Runs.refl.replay (by decide) (show Broker.sample.replay servingBoth = some servedBoth from rfl)
  obtain ⟨-, -, k, -, -, -, hset⟩ := accounts rfl rfl h
  exact ⟨h, rfl, rfl, (hset rfl).2.2 .refused nofun⟩

end State
end Relay
