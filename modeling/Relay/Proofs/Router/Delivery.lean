import Relay.Proofs.Isolation.Identifiers
import Relay.Proofs.Router.Settled
import Relay.Proofs.Router.Supervisor

/-! Delivery. The messages that a worker has taken are a prefix of those that its subscription has
    accepted; it deals with one after the other; and where nothing was cancelled, closed or broken off,
    all of them have been dealt with once nothing can move any more. -/

namespace Relay

/-- A history of a worker that deals with one message after the other: it takes a message, all that the
    pipeline does lies between that and the end of the same message, and only then is the next one
    taken. The index is the message under way. -/
inductive Serial (route : Nat) : Option Message → List Event → Prop where
  | nil : Serial route none []
  | noted {es : List Event} {n : Notice} : Serial route none es → n.isInner = false →
      Serial route none (es ++ [.noticed n])
  | takes {es : List Event} {m : Message} : Serial route none es → Serial route (some m) (es ++ [.taken route m])
  | inner {es : List Event} {m : Message} {e : Event} : Serial route (some m) es → e.isInner = true →
      Serial route (some m) (es ++ [e])
  | settles {es : List Event} {m : Message} {o : Outcome} : Serial route (some m) es →
      Serial route none (es ++ [.settled route m o])

theorem Serial.inners {route : Nat} {m : Message} {es new : List Event} (h : Serial route (some m) es)
    (hn : ∀ e ∈ new, e.isInner = true) : Serial route (some m) (es ++ new) := by
  induction new generalizing es with
  | nil => rwa [List.append_nil]
  | cons e new ih =>
    rw [List.append_cons]
    exact ih (h.inner (hn e List.mem_cons_self)) fun e' he' => hn e' (List.mem_cons_of_mem _ he')

theorem Serial.refusals {route : Nat} {es new : List Event} (h : Serial route none es)
    (hn : ∀ e ∈ new, ∃ role id err, e = .noticed (.addFailed role id err)) : Serial route none (es ++ new) := by
  induction new generalizing es with
  | nil => rwa [List.append_nil]
  | cons e new ih =>
    obtain ⟨role, id, err, rfl⟩ := hn e List.mem_cons_self
    rw [List.append_cons]
    exact ih (h.noted rfl) fun e' he' => hn e' (List.mem_cons_of_mem _ he')

/-! ### What a worker has to show for its work -/

namespace World
variable {x x' : World} {t : Nat} {w w' : Worker} {sub sub' : Subscription}

/-- A worker has dealt with what was taken from its subscription, one message after the other; its
    subscription is there until it ends, and it ends only where something was cancelled, closed or
    broken off. -/
structure Accounts (x : World) (t : Nat) (w : Worker) (sub : Subscription) : Prop where
  serial : Serial w.route w.occupation.message? (x.history t)
  handled : x.handled t = sub.taken
  dropped : sub.dropped = true → ∃ f, w.occupation = .ended f
  ended : ∀ f, w.occupation = .ended f → x.exchange.closed = true ∨ x.tokens.isCancelled sub.token = true ∨
    .noticed (.workerPanicked w.name) ∈ x.history t

theorem handled_note (x : World) (t : Nat) (e : Event) :
    (x.note t e).handled t = x.handled t ++ (Event.taken? e).toList := by
  rw [handled, history_note_self, List.filterMap_append]
  cases h : e.taken? <;> simp [handled, h]

/-- What others do to the subscription and the world leaves the accounts of a worker in order. -/
theorem Accounts.feeds (ha : x.Accounts t w sub) (hh : x'.history t = x.history t)
    (hx : x.exchange.closed = true → x'.exchange.closed = true)
    (hc : x.tokens.isCancelled sub.token = true → x'.tokens.isCancelled sub.token = true) (hf : sub.Fed sub') :
    x'.Accounts t w sub' where
  serial := hh ▸ ha.serial
  handled := by
    rw [World.handled, hh, hf.taken]
    exact ha.handled
  dropped hd := ha.dropped (hf.dropped ▸ hd)
  ended f he := by
    rw [hh, hf.token]
    exact (ha.ended f he).imp hx (.imp hc id)

theorem Accounts.takes {m : Message} {rest : List Message} (ha : x.Accounts t w sub) (ho : w.occupation = .idle) :
    ({ x with exchange := x.exchange.updateSubscription w.subscription (·.take m rest) }.note t
      (.taken w.route m)).Accounts t
        { w with occupation := .busy m (.start w.route w.stages w.handler w.context m) } (sub.take m rest) where
  serial := by
    rw [history_note_self]
    have hs := ha.serial
    rw [ho] at hs
    exact .takes hs
  handled := by
    rw [handled_note, show (sub.take m rest).taken = sub.taken ++ [m] by simp [Subscription.take], ← ha.handled]
    rfl
  dropped hd := by
    obtain ⟨f, hf⟩ := ha.dropped (by simpa [Subscription.take] using hd)
    rw [ho] at hf
    cases hf
  ended f he := by cases he

theorem Accounts.stops (ha : x.Accounts t w sub) (ho : w.occupation = .idle)
    (he : x.exchange.hasEnded x.tokens sub = true) :
    ({ x with exchange := x.exchange.drop w.subscription } : World).Accounts t
      { w with occupation := .ended w.lastError } sub.drop where
  serial := by
    have hs := ha.serial
    rw [ho] at hs
    exact hs
  handled := ha.handled
  dropped _ := ⟨_, rfl⟩
  ended f _ := by
    rw [Exchange.hasEnded, Bool.or_eq_true] at he
    exact he.imp id .inl

theorem Accounts.works {m : Message} {c c' : Call} (ha : x.Accounts t w sub) (ho : w.occupation = .busy m c)
    (hp : Touches (fun _ => False) c.Writes t x x') (hf : sub.Fed sub') :
    x'.Accounts t { w with occupation := .busy m c' } sub' := by
  obtain ⟨new, hh, hn⟩ := hp.history
  have hnone : new.filterMap Event.taken? = [] := List.filterMap_eq_nil_iff.mpr fun e he => by
    have := (hn e he).1
    cases e with
    | taken _ _ => cases this
    | settled _ _ _ | entered _ | left _ | called _ _ _ _ _ | returned _ _ _ _ | spanned _ _ | noticed _ => rfl
  refine ⟨?_, ?_, fun hd => ?_, fun f he => by cases he⟩
  · have hs := ha.serial
    rw [ho] at hs
    rw [hh]
    exact hs.inners fun e he => (hn e he).1
  · rw [World.handled, hh, List.filterMap_append, hnone, List.append_nil, hf.taken]
    exact ha.handled
  · obtain ⟨f, he⟩ := ha.dropped (hf.dropped ▸ hd)
    rw [ho] at he
    cases he

/-- The end of a message, with what is said of it afterwards. -/
theorem Accounts.settles {m : Message} {c : Call} {o : Outcome} {ns : List Notice} (ha : x.Accounts t w sub)
    (ho : w.occupation = .busy m c) (hh : x'.history t = x.history t ++ [.settled w.route m o] ++ ns.map .noticed)
    (hn : ∀ n ∈ ns, n.isInner = false) :
    Serial w.route none (x'.history t) ∧ x'.handled t = sub.taken ∧ sub.dropped = false := by
  have hs := ha.serial
  rw [ho] at hs
  have noted : ∀ {ns : List Notice} {es : List Event}, Serial w.route none es → (∀ n ∈ ns, n.isInner = false) →
      Serial w.route none (es ++ ns.map .noticed) := by
    intro ns
    induction ns with
    | nil => exact fun h _ => by simpa using h
    | cons n ns ih =>
      intro es h hn
      rw [List.map_cons, List.append_cons]
      exact ih (h.noted (hn n List.mem_cons_self)) fun n' hn' => hn n' (List.mem_cons_of_mem _ hn')
  refine ⟨hh ▸ noted (.settles hs) hn, ?_, Bool.eq_false_iff.mpr fun hd => ?_⟩
  · have hnone : (ns.map Event.noticed).filterMap Event.taken? = [] :=
      List.filterMap_eq_nil_iff.mpr fun e he => by
        obtain ⟨n, -, rfl⟩ := List.mem_map.mp he
        rfl
    rw [World.handled, hh, List.filterMap_append, List.filterMap_append, hnone, List.append_nil, ← ha.handled]
    exact List.append_nil _
  · obtain ⟨f, he⟩ := ha.dropped hd
    rw [ho] at he
    cases he

/-- A worker's own step keeps its accounts in order. -/
theorem Accounts.moves (ha : x.Accounts t w sub) (hs : x.exchange.subscriptions[w.subscription]? = some sub)
    (hm : w.Moves t x x' w') :
    ∃ sub', x'.exchange.subscriptions[w'.subscription]? = some sub' ∧ x'.Accounts t w' sub' := by
  have update : ∀ f : Subscription → Subscription,
      (x.exchange.updateSubscription w.subscription f).subscriptions[w.subscription]? = some (f sub) := fun f => by
    rw [Exchange.subscription?_update hs, if_pos rfl]
  cases hm with
  | stays => exact ⟨sub, hs, ha⟩
  | takes ho _ _ _ => exact ⟨_, update _, ha.takes ho⟩
  | stops ho he => exact ⟨_, update _, ha.stops ho (he sub hs)⟩
  | works ho _ hc =>
    have hp : Touches (fun _ => False) _ t x _ := hc.touches
    obtain ⟨sub', hs', hf⟩ := hp.feeds id hs
    exact ⟨sub', hs', ha.works ho hp hf⟩
  | @succeeds m c ho _ =>
    have hh : (x.note t (.settled w.route m .ok)).history t =
        x.history t ++ [.settled w.route m .ok] ++ [].map .noticed := by
      rw [history_note_self, List.map_nil, List.append_nil]
    obtain ⟨hserial, hhandled, hdropped⟩ := ha.settles ho hh (fun _ h => nomatch h)
    exact ⟨sub, hs, hserial, hhandled, fun hd => by simp [hdropped] at hd, fun f he => by cases he⟩
  | @fails m c e lastError ho _ _ =>
    have hh : ((x.note t (.settled w.route m (.failed e))).note t
        (.noticed (.messageFailed w.name w.topic m.id e))).history t =
        x.history t ++ [.settled w.route m (.failed e)] ++
          [Notice.messageFailed w.name w.topic m.id e].map .noticed := by
      rw [history_note_self, history_note_self]
      rfl
    obtain ⟨hserial, hhandled, hdropped⟩ := ha.settles ho hh fun _ h => by
      obtain rfl := List.mem_singleton.mp h
      rfl
    exact ⟨sub, hs, hserial, hhandled, fun hd => by simp [hdropped] at hd, fun f he => by cases he⟩
  | @breaksOff m c reason ho _ =>
    have hh : ({ x.note t (.settled w.route m (.panicked reason)) with
        exchange := x.exchange.drop w.subscription }.note t (.noticed (.workerPanicked w.name))).history t =
        x.history t ++ [.settled w.route m (.panicked reason)] ++ [Notice.workerPanicked w.name].map .noticed := by
      rw [history_note_self]
      show (x.note t (.settled w.route m (.panicked reason))).history t ++ _ = _
      rw [history_note_self]
      rfl
    obtain ⟨hserial, hhandled, -⟩ := ha.settles ho hh fun _ h => by
      obtain rfl := List.mem_singleton.mp h
      rfl
    refine ⟨_, update _, hserial, hhandled, fun _ => ⟨_, rfl⟩, fun f _ => .inr (.inr ?_)⟩
    rw [history_note_self]
    exact List.mem_append_right _ (List.mem_singleton_self _)

end World

namespace State
variable {s s' : State} {o : Op} {t : Nat}

/-- Every worker accounts for its subscription, and nothing was done in the name of tasks to come. -/
structure Delivers (s : State) : Prop where
  unborn : ∀ u, s.tasks.length ≤ u → ∀ e ∈ s.world.history u, ∃ role id err, e = .noticed (.addFailed role id err)
  accounts : ∀ {t : Nat} {w : Worker} {sub : Subscription}, s.tasks[t]? = some (.worker w) →
    s.world.exchange.subscriptions[w.subscription]? = some sub → s.world.Accounts t w sub

/-- A worker that has just been begun has nothing to account for. -/
theorem Delivers.born {v v' : Supervision} {x : World} {r : Router} {new : List Task} {i : Nat} {w : Worker}
    {sub : Subscription} (hd : s.Delivers) (hc : s.Course) (ht : s.tasks[t]? = some (.run v))
    (hm : v.Moves s t x r new v') (hw : new[i]? = some (.worker w))
    (hs : x.exchange.subscriptions[w.subscription]? = some sub) : x.Accounts (s.tasks.length + i) w sub := by
  cases hm with
  | @serves run made _ hv hn =>
    subst hv hn
    have hsub := hc.subscribing_of ht
    obtain ⟨m, hm, hf⟩ := List.mem_filterMap.mp (List.mem_of_getElem? hw)
    obtain ⟨w', he, hidle⟩ := workerFor_idle hf
    cases he
    obtain ⟨-, hi, -⟩ := workerFor_serves hf
    obtain ⟨-, sub', -, hsub', -, -, htaken, hdropped⟩ := hsub.made m hm
    rw [hi, hsub'] at hs
    cases hs
    have hunborn := hd.unborn (s.tasks.length + i) (Nat.le_add_right _ _)
    refine ⟨?_, ?_, fun h => by simp [hdropped] at h, fun f he => by simp [hidle] at he⟩
    · rw [hidle]
      exact Serial.nil.refusals hunborn
    · rw [htaken]
      refine List.filterMap_eq_nil_iff.mpr fun e he => ?_
      obtain ⟨role, id, err, rfl⟩ := hunborn e he
      rfl
  | stays | rejected _ _ | begins _ _ | skips _ _ | subscribes _ _ _ | declined _ _ _ _ | breaksOff _ _ _
  | joins _ _ _ _ | drains _ _ | awaits _ _ _ | finishes _ _ => cases hw

theorem Delivers.step (hd : s.Delivers) (hc : s.Course) (h : s.Step o s') : s'.Delivers := by
  refine ⟨fun u hu => h.unborn (Nat.le_trans h.length_le hu) (hd.unborn u (Nat.le_trans h.length_le hu)),
    fun {t w' sub'} hw' hs' => ?_⟩
  rcases h.worker_back hw' with ⟨w, hw⟩ | ⟨t', v, x, r, new, v', active, ht, hm, rfl, hl, hnew⟩
  · -- Workers have subscriptions of their own.
    obtain ⟨t₀, base, run, hserving⟩ := hc.serving_of_worker hw
    obtain ⟨sub, hs, -⟩ := hserving.reads hw
    have ha := hd.accounts hw hs
    rcases h.worker hw with ⟨b, w'', ho, hw'', hm, -⟩ | ⟨hn, hsame⟩
    · rw [hw'] at hw''
      cases hw''
      obtain ⟨sub'', hs'', ha''⟩ := ha.moves hs hm
      rw [hs'] at hs''
      cases hs''
      exact ha''
    · rw [hw'] at hsame
      cases hsame
      obtain ⟨sub'', hs'', hf⟩ := h.feeds hs hw rfl fun t' b k ho hk hr => by
        cases k with
        | worker k =>
          have he := hserving.distinct hk hw hr
          exact hn b (he ▸ ho)
        | run v =>
          cases v with
          | subscribing run' made rest => exact hserving.not_subscribing hk
          | fresh _ | watching _ _ _ | draining _ _ _ | ended _ => cases hr
        | close _ | awaitStart _ | call _ | errand _ _ _ | alarm _ _ _ => cases hr
      rw [hs'] at hs''
      cases hs''
      exact ha.feeds (h.history (List.getElem?_eq_some_iff.mp hw).1 hn) h.evolves.closed h.cancelled hf
  · have := hd.born hc ht hm hnew hs'
    rwa [Nat.add_sub_cancel' hl] at this

/-! ### The result -/

/-- A system whose router has not been run, with nothing in its exchange and nothing written down. -/
structure IsNew (s : State) : Prop where
  tasks : s.tasks = []
  active : s.active = none
  started : s.router.started = false
  lifecycle : s.router.lifecycle = .notStarted
  exchange : s.world.exchange = { capacity := s.world.exchange.capacity }
  journal : s.world.journal = []

namespace IsNew
variable {start : State}

theorem course (hn : start.IsNew) : start.Course :=
  .waiting hn.started hn.lifecycle (by simp [hn.tasks]) (by simp [hn.tasks])

theorem delivers (hn : start.IsNew) : start.Delivers :=
  ⟨fun u _ e he => by simp [World.history, hn.journal] at he, by simp [hn.tasks]⟩

theorem sound (hn : start.IsNew) : start.world.exchange.Sound := by
  rw [hn.exchange]
  exact .new _

end IsNew

/-- No worker's context has been cancelled, the exchange is open, and no worker has broken off. None of
    this is ever undone, so it holds of a state only if it held all the time (`Step.undisturbed`). -/
structure Undisturbed (s : State) : Prop where
  uncancelled : ∀ (t : Nat) (w : Worker), s.tasks[t]? = some (.worker w) → s.world.isCancelled w.context = false
  opened : s.world.exchange.closed = false
  unbroken : ∀ e ∈ s.world.journal, ∀ name, e.event ≠ .noticed (.workerPanicked name)

theorem Undisturbed.of_every (hw : s.everyWorker (fun w => !s.world.isCancelled w.context) = true)
    (ho : s.world.exchange.closed = false) (hj : s.world.journal.all (fun e => !e.event.isBreakOff) = true) :
    s.Undisturbed where
  uncancelled t w ht := by simpa using of_everyWorker hw ht
  opened := ho
  unbroken e he name hev := by
    have := List.all_eq_true.mp hj e he
    rw [hev] at this
    cases this

theorem Step.undisturbed (h : s.Step o s') (hu : s'.Undisturbed) : s.Undisturbed where
  uncancelled t w hw := by
    obtain ⟨w', hw', hg⟩ : ∃ w', s'.tasks[t]? = some (.worker w') ∧ w.Goes w' := by
      rcases h.worker hw with ⟨b, w', -, hw', hm, -⟩ | ⟨-, hw'⟩
      · exact ⟨w', hw', hm.goes⟩
      · exact ⟨w, hw', .refl w⟩
    refine Bool.eq_false_iff.mpr fun hc => ?_
    have := hu.uncancelled t w' hw'
    rw [World.isCancelled, Context.isCancelled, hg.context, h.cancelled hc] at this
    cases this
  opened := Bool.eq_false_iff.mpr fun hc => by
    have := h.evolves.closed hc
    rw [hu.opened] at this
    cases this
  unbroken e he := hu.unbroken e (h.journal_mono he)

/-- A worker that nothing disturbs goes on, and so does its subscription. -/
theorem Delivers.attached {w : Worker} {sub : Subscription} (hd : s.Delivers) (hc : s.Course) (hu : s.Undisturbed)
    (hw : s.tasks[t]? = some (.worker w)) (hs : s.world.exchange.subscriptions[w.subscription]? = some sub) :
    (∀ f, w.occupation ≠ .ended f) ∧ sub.dropped = false := by
  have ha := hd.accounts hw hs
  have htoken : s.world.tokens.isCancelled sub.token = false := by
    obtain ⟨t₀, base, run, hserving⟩ := hc.serving_of_worker hw
    obtain ⟨sub', hs', -, ht⟩ := hserving.reads hw
    rw [hs] at hs'
    cases hs'
    rw [ht]
    exact hu.uncancelled t w hw
  have hended : ∀ f, w.occupation ≠ .ended f := fun f hf => by
    rcases ha.ended f hf with h | h | h
    · rw [hu.opened] at h
      cases h
    · rw [htoken] at h
      cases h
    · obtain ⟨e, he, hev⟩ := List.mem_map.mp (List.mem_reverse.mp h)
      exact hu.unbroken e (List.mem_filter.mp he).1 _ hev
  refine ⟨hended, Bool.eq_false_iff.mpr fun h => ?_⟩
  obtain ⟨f, hf⟩ := ha.dropped h
  exact hended f hf

theorem Delivers.complete {w : Worker} {sub : Subscription} (hd : s.Delivers) (hx : s.world.exchange.Sound)
    (hc : s.Course) (hq : s.Quiescent) (hu : s.Undisturbed) (hw : s.tasks[t]? = some (.worker w))
    (hs : s.world.exchange.subscriptions[w.subscription]? = some sub) :
    s.world.handled t = sub.accepted.map (·.2) := by
  obtain ⟨hended, hdropped⟩ := hd.attached hc hu hw hs
  rcases hq.worker hw with ⟨f, hf⟩ | ⟨-, hr⟩
  · exact absurd hf (hended f)
  · -- The worker waits for a message, so its queue is empty, and what it has taken is all there was.
    have hempty : sub.queue = [] := by
      rw [Exchange.isReadable, hs] at hr
      dsimp only at hr
      rw [Bool.or_eq_false_iff, Bool.not_eq_false', List.isEmpty_iff] at hr
      exact hr.2
    have := (hx.ordered hs).2 hdropped
    rw [hempty, List.append_nil] at this
    rw [(hd.accounts hw hs).handled, this]

/-- Delivery. In every state that a new system can reach, each worker serves its route: it has dealt
    with a prefix of the messages that the subscription of its route has accepted, in that order and one
    after the other, and each of these was published on the topic of the route and is unchanged but for
    that topic. No route has two workers, and while the router is running each has one. Where nothing
    can move any more, and nothing was cancelled, closed or broken off, no message is left out. -/
theorem delivery {start : State} (hn : start.IsNew) (h : Reachable start s) :
    (∀ (t : Nat) (w : Worker), s.tasks[t]? = some (.worker w) → ∃ route sub, w.Serves s.router route ∧
      s.world.exchange.subscriptions[w.subscription]? = some sub ∧ sub.topic = route.topic ∧
      s.world.handled t <+: sub.accepted.map (·.2) ∧
      (∀ a ∈ sub.accepted, s.world.exchange.Published route.topic a) ∧
      Serial w.route w.occupation.message? (s.world.history t)) ∧
    (∀ (t t' : Nat) (w w' : Worker), s.tasks[t]? = some (.worker w) → s.tasks[t']? = some (.worker w') →
      w.route = w'.route → t = t') ∧
    (s.router.lifecycle = .running → ∀ r < s.router.routes.length, ∃ (t : Nat) (w : Worker),
      s.tasks[t]? = some (.worker w) ∧ w.route = r) ∧
    (s.Quiescent → s.Undisturbed → ∀ (t : Nat) (w : Worker) (sub : Subscription),
      s.tasks[t]? = some (.worker w) →
      s.world.exchange.subscriptions[w.subscription]? = some sub → s.world.handled t = sub.accepted.map (·.2)) := by
  have hinv : s.Course ∧ s.Delivers ∧ s.world.exchange.Sound :=
    (Runs.of_reachable h).keeps (P := fun s => s.Course ∧ s.Delivers ∧ s.world.exchange.Sound)
      ⟨hn.course, hn.delivers, hn.sound⟩ fun _ hs hi =>
        ⟨hi.1.step hs, hi.2.1.step hi.1 hs, hs.exchange (P := Exchange.Sound) (fun o h => h.step o) hi.2.2⟩
  obtain ⟨hc, hd, hx⟩ := hinv
  refine ⟨fun t w hw => ?_, fun t t' w w' hw hw' he => ?_, fun hl => ?_, fun hq hu t w sub hw hs =>
    hd.complete hx hc hq hu hw hs⟩
  · obtain ⟨t₀, base, run, hs⟩ := hc.serving_of_worker hw
    obtain ⟨-, -, route, hr⟩ := hs.serves hw
    obtain ⟨sub, hsub, htopic, -⟩ := hs.reads hw
    have ha := hd.accounts hw hsub
    have htopic' : sub.topic = route.topic := htopic.trans hr.topic
    refine ⟨route, sub, hr, hsub, htopic', ?_, htopic' ▸ hx.published hsub, ha.serial⟩
    rw [ha.handled]
    exact (List.prefix_append _ _).trans (hx.ordered hsub).1
  · obtain ⟨t₀, base, run, hs⟩ := hc.serving_of_worker hw
    rw [(hs.serves hw).1, (hs.serves hw').1, he]
  · intro r hr
    obtain ⟨t₀, base, run, hs⟩ := hc.serving_of_running hl
    obtain ⟨w, hw, he⟩ := hs.manned r hr
    exact ⟨_, w, hw, he⟩

/-- A system with nothing in it, and the steps by which its router gets a route, is run, and serves two
    messages that are published to the route. -/
def blank : State := { world := .start ⟨fun _ => .mask, 0⟩ (some 4) }

def servingTwo : List Op :=
  [Op.addRoutes [{ name := "copy", topic := "in", handler := ⟨"copy", none, fun _ _ _ => .started (.finish .ok)⟩ }],
    .token, .run { token := 0 }] ++ List.replicate 3 (Op.turn 0 .shutdown) ++
  [Op.publish "in" [⟨some "a", [1], ∅⟩, ⟨some "b", [2], ∅⟩]] ++ List.replicate 9 (Op.turn 2 .shutdown) ++
  List.replicate 8 (Op.turn 1 .shutdown)

def servedTwo : State := (blank.replay servingTwo).getD blank

theorem delivery_of_two : Reachable blank servedTwo ∧ servedTwo.Quiescent ∧ servedTwo.Undisturbed ∧
    (servedTwo.world.handled 1).map (·.id) = ["a", "b"] ∧ ∃ w sub, servedTwo.tasks[1]? = some (.worker w) ∧
      servedTwo.world.exchange.subscriptions[w.subscription]? = some sub ∧
      servedTwo.world.handled 1 = sub.accepted.map (·.2) := by
  have hruns : Runs (fun _ => True) blank servedTwo := 
    Runs.refl.replay (fun _ _ => trivial) (show blank.replay servingTwo = some servedTwo from rfl)
  have hreach := hruns.reachable
  have hidle : servedTwo.everyWorker (fun w => w.occupation.message?.isNone) = true := rfl
  have hq : servedTwo.Quiescent := ⟨rfl, rfl, fun t w m c hw ho => by
    have := of_everyWorker hidle hw
    rw [ho] at this
    cases this⟩
  have hu : servedTwo.Undisturbed := .of_every rfl rfl rfl
  exact ⟨hreach, hq, hu, rfl, _, _, rfl, rfl,
    (delivery ⟨rfl, rfl, rfl, rfl, rfl, rfl⟩ hreach).2.2.2 hq hu 1 _ _ rfl rfl⟩

end State
end Relay
