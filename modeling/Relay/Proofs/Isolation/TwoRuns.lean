import Relay.Proofs.Broker.Chain
import Relay.Proofs.Isolation.Follow

/-! Two runs of one script. What comes to a handler, and when, does not depend on what the handlers of the other
    routes do: whether they fail, are slow, try again or break off (`State.isolation`). -/

namespace Relay

/-- The identifiers that either of two supplies holds. -/
def Supply.DrawnFrom (a b : Supply) (u : Uuid) : Prop := ∃ n, u = a.draws n ∨ u = b.draws n

theorem Supply.hidden_left (a b : Supply) : a.Hidden (DrawnFrom a b) := fun n => .inl ⟨n, .inl rfl⟩

theorem Supply.hidden_right (a b : Supply) : b.Hidden (DrawnFrom a b) := fun n => .inl ⟨n, .inr rfl⟩

/-- In a broker with the default stages, the handlers of values that take no notice of contexts are blind. -/
theorem Post.Blind.of_binding {drawn : Uuid → Prop} {p : Post} {policy : RetryPolicy} {b : Binding}
    (hr : p.route = b.route) (hs : p.stages = Broker.defaultStages policy)
    (hb : ∀ n c c' v, b.play n c v = b.play n c' v) : p.Blind drawn where
  handler := by
    rw [hr]
    exact Binding.blind hb
  filters f hf := by
    rw [pipeline, hr, hs] at hf
    simp [Broker.defaultStages, Binding.route] at hf

namespace State
variable {drawn : Uuid → Prop} {start start' s s' : State} {script : List (Nat × Op)} {h : Nat} {r : Route}

theorem turn_clock {t : Nat} {b : Branch} (ha : s.Allows (.turn t b)) :
    (s.apply (.turn t b)).world.clock = s.world.clock := by
  have h := apply_step ha
  generalize s.apply (.turn t b) = s' at h
  cases h with
  | outside hn _ _ => exact absurd rfl (hn t b)
  | turn _ _ _ hm => exact hm.touches.clock
  | nobody _ _ _ => rfl

/-- A run that plays a script has come to where the course of any route leads. -/
theorem Plays.follows (hp : start.Plays script s) (hm : start.IsModest) (hr : start.router.routes[h]? = some r)
    (hd : start.world.ids.Hidden drawn) (hb : (start.post h r).Blind drawn) :
    s.Tidy drawn (start.post h r) ∧ ∃ u v, s.Calm u ∧ s.Sees drawn (start.post h r) u v ∧
      ∀ rest, (∀ e ∈ rest, s.world.clock ≤ e.1) → Solo.Leads drawn (start.post h r)
        ⟨.waiting start.world.tokens start.world.calls[h]?, start.world.clock, [], script ++ rest⟩
        ⟨v, s.world.clock, (s.arrivals h).map (·.veil drawn), rest⟩ := by
  induction hp with
  | start =>
    refine ⟨hm.tidy hr hd, 0, _, fun ht => ?_, .waiting hm.started hm.shutdown fun c ht => ?_, fun rest _ => ?_⟩
    · rw [hm.tasks] at ht
      cases ht
    · rw [hm.tasks] at ht
      cases ht
    · rw [arrivals_unmanned (by simp [hm.tasks])]
      exact .refl
  | @inner script s o _ ho ha ih =>
    obtain ⟨hs, u, v, hc, hv, hl⟩ := ih
    cases o with
    | turn t b =>
      refine ⟨hs.turn hb ha, u, ?_⟩
      have hclock := turn_clock ha
      rcases hv.turn hs hb hc ha with ⟨hv', he⟩ | ⟨hready, hv', he⟩
      · refine ⟨v, hc.turn hs ha, hv', fun rest hrest => ?_⟩
        rw [hclock] at hrest ⊢
        rw [show (s.apply (.turn t b)).arrivals h = s.arrivals h from he]
        exact hl rest hrest
      · refine ⟨_, hc.turn hs ha, hv', fun rest hrest => ?_⟩
        rw [hclock] at hrest ⊢
        have hnext := (hl rest hrest).next
        rw [Solo.next_of_ready hready] at hnext
        rwa [show ((s.apply (.turn t b)).arrivals h).map (·.veil drawn) = _ from he]
    | tick ms =>
      refine ⟨hs.tick ha, u, v, hc, hv.tick hs ha, fun rest hrest => ?_⟩
      obtain ⟨-, hsettled, htimers⟩ := ha
      have hbefore := hl rest fun e he => Nat.le_trans (Nat.le_add_right _ _) (hrest e he)
      refine hbefore.trans (Solo.Leads.waits hrest fun k hk => hv.rests hs hsettled (.inr fun timer ht => ?_))
      exact Nat.lt_of_lt_of_le (Nat.add_lt_add_left hk _) (htimers timer ht)
    | _ => exact ho.elim
  | @request script s o _ ho ha hsettled ih =>
    obtain ⟨hs, u, v, hc, hv, hl⟩ := ih
    obtain ⟨u', hc', hv'⟩ := hv.request hs hsettled ho ha
    have hclock : (s.apply o).world.clock = s.world.clock := by
      rcases s.apply_request ho with ⟨-, he⟩ | ⟨k, -, he, -⟩ <;> rw [he] <;> rfl
    refine ⟨hs.request ho ha, u', _, hc', hv', fun rest hrest => ?_⟩
    rw [hclock] at hrest ⊢
    rw [arrivals_request ho, List.append_assoc]
    have hbefore := hl ((s.world.clock, o) :: rest) fun e he => by
      rcases List.mem_cons.mp he with rfl | he
      · exact Nat.le_refl _
      · exact hrest e he
    have hnext := hbefore.next
    rwa [Solo.next_of_script (hv.rests hs hsettled (.inl rfl)) rfl] at hnext

/-- Two systems that may differ in their routes other than `h`, but not in the topics of these. -/
structure Alike (h : Nat) (s s' : State) : Prop where
  clock : s'.world.clock = s.world.clock
  transport : s'.world.transport = s.world.transport
  calls : s'.world.calls[h]? = s.world.calls[h]?
  stages : s'.router.stages = s.router.stages
  topics : s'.router.routes.map (·.topic) = s.router.routes.map (·.topic)
  route : s'.router.routes[h]? = s.router.routes[h]?

/-- What comes to the handler of a route, up to these identifiers. -/
noncomputable def seen (s : State) (h : Nat) (drawn : Uuid → Prop) : List Arrival := (s.arrivals h).map (·.veil drawn)

/-- Handlers are isolated from each other. Take two systems of which at most the routes other than `h` differ, with
    queues without bounds and with handlers that neither publish nor cancel, and let both play one script: the
    same things are asked for from the outside at the same times. Then what comes to the handler of route `h`, each
    message with the time when it is taken and each call with its time, its context and its input, is up to
    generated identifiers the same in both as far as both have come, and all the same where both have come to
    rest at the same time. -/
theorem isolation (hm : start.IsModest) (hm' : start'.IsModest) (ha : start.Alike h start')
    (hr : start.router.routes[h]? = some r)
    (hb : (start.post h r).Blind (start.world.ids.DrawnFrom start'.world.ids))
    (hp : start.Plays script s) (hp' : start'.Plays script s') :
    (s.seen h (start.world.ids.DrawnFrom start'.world.ids) <+: s'.seen h (start.world.ids.DrawnFrom start'.world.ids) ∨
      s'.seen h (start.world.ids.DrawnFrom start'.world.ids) <+: s.seen h (start.world.ids.DrawnFrom start'.world.ids)) ∧
      (s.isSettled = true → s'.isSettled = true → s.world.clock = s'.world.clock →
        s.seen h (start.world.ids.DrawnFrom start'.world.ids) =
          s'.seen h (start.world.ids.DrawnFrom start'.world.ids)) := by
  have hpost : start'.post h r = start.post h r := by
    simp only [post, ha.stages, ha.topics, ha.transport]
  obtain ⟨hs, u, v, -, hv, hl⟩ := hp.follows hm hr (Supply.hidden_left _ start'.world.ids) hb
  obtain ⟨hs', u', v', -, hv', hl'⟩ := hp'.follows hm' (ha.route.trans hr) (Supply.hidden_right start.world.ids _)
    (hpost ▸ hb)
  have hlead := hl [] (by simp)
  have hlead' := hl' [] (by simp)
  rw [hpost] at hv' hs' hlead'
  rw [ha.clock, ha.calls, hm'.tokens, ← hm.tokens] at hlead'
  refine ⟨(hlead.total hlead').imp (·.arrivals_grow) (·.arrivals_grow), fun hset hset' hc => ?_⟩
  exact congrArg Solo.arrivals
    (hlead.unique hlead' hc rfl rfl (hv.rests hs hset (.inl rfl)) (hv'.rests hs' hset' (.inl rfl)))

/-! ### Runs that can be computed -/

instance Op.decidableIsRequest : (o : Op) → Decidable o.IsRequest
  | token | derive _ | cancel _ | run _ | close | awaitStart | publish _ _ | send _ _ => inferInstanceAs (Decidable True)
  | addStage _ | addRoutes _ | addHandlers _ _ _ | abandon _ | call _ _ _ _ | alarm _ _ | subscribe _ _ | poll _
  | drop _ | closeExchange | tick _ | turn _ _ => inferInstanceAs (Decidable False)

instance Op.decidableIsInner : (o : Op) → Decidable o.IsInner
  | tick _ | turn _ _ => inferInstanceAs (Decidable True)
  | token | derive _ | cancel _ | run _ | close | awaitStart | publish _ _ | send _ _ | addStage _ | addRoutes _
  | addHandlers _ _ _ | abandon _ | call _ _ _ _ | alarm _ _ | subscribe _ _ | poll _ | drop _ | closeExchange =>
    inferInstanceAs (Decidable False)

/-- The script that given steps play, and what they lead to, if each of them is possible. -/
def perform (s : State) : List Op → Option (List (Nat × Op) × State)
  | [] => some ([], s)
  | o :: os =>
    if s.Allows o ∧ o.IsInner then (s.apply o).perform os
    else if s.Allows o ∧ o.IsRequest ∧ s.isSettled = true then
      ((s.apply o).perform os).map fun e => ((s.world.clock, o) :: e.1, e.2)
    else none

theorem Plays.perform {os : List Op} {more : List (Nat × Op)} (h : start.Plays script s)
    (hp : s.perform os = some (more, s')) : start.Plays (script ++ more) s' := by
  induction os generalizing s script more with
  | nil =>
    cases hp
    rwa [List.append_nil]
  | cons o os ih =>
    rw [State.perform] at hp
    split at hp
    · rename_i ho
      exact ih (h.inner ho.2 ho.1) hp
    · split at hp
      · rename_i ho
        obtain ⟨⟨later, s₁⟩, hs, he⟩ := Option.map_eq_some_iff.mp hp
        cases he
        have := ih (h.request ho.2.1 ho.1 ho.2.2) hs
        rwa [List.append_assoc] at this
      · cases hp

/-- A handler that is content with every event, and does not look at its context. -/
def keep : Binding := ⟨.event, Broker.flag, "keep", fun _ _ _ => .finish .ok⟩

/-- A broker with that handler and another one of the same events. -/
def pair (other : Program) : State :=
  (Broker.start (Broker.defaultStages {}) (.start ⟨fun _ => .mask, 0⟩ none)).apply
    (.addHandlers .event { token := 0 } [keep, ⟨.event, Broker.flag, "spoil", fun _ _ _ => other⟩])

/-- The broker is run, and two events are published; then the first handler moves, and after that the other one. -/
def twoEvents (turns : Nat) : List Op :=
  [Op.token, .run { token := 0 }] ++ List.replicate 4 (Op.turn 0 .shutdown) ++
    [Op.publish "flag" [⟨some "a", [1], ∅⟩, ⟨some "b", [1], ∅⟩]] ++ List.replicate 11 (Op.turn 3 .shutdown) ++
    List.replicate 28 (Op.turn 1 .shutdown) ++ List.replicate turns (Op.turn 2 .shutdown)

def twoEventsScript : List (Nat × Op) :=
  [(0, .token), (0, .run { token := 0 }), (0, .publish "flag" [⟨some "a", [1], ∅⟩, ⟨some "b", [1], ∅⟩])]

/-- Both handlers are done with both events. -/
def contented : State := (((pair (.finish .ok)).perform (twoEvents 28)).getD ([], pair (.finish .ok))).2

/-- The other handler is still asleep over the first event. -/
def slowed : State := (((pair (.sleep 1000 (.finish .ok))).perform (twoEvents 8)).getD ([], pair (.finish .ok))).2

theorem pair_isModest {other : Program} (h : other.Still) : (pair other).IsModest where
  tasks := rfl
  active := rfl
  started := rfl
  lifecycle := rfl
  exchange := rfl
  journal := rfl
  capacity := rfl
  aside := rfl
  tokens := rfl
  shutdown := rfl
  still r hr := by
    rcases List.mem_cons.mp hr with rfl | hr
    · exact Binding.still fun _ _ _ => trivial
    · obtain rfl := List.mem_singleton.mp hr
      exact Binding.still fun _ _ _ => h

theorem isolation_of_slow : (pair (.finish .ok)).Plays twoEventsScript contented ∧
    (pair (.sleep 1000 (.finish .ok))).Plays twoEventsScript slowed ∧ (contented.arrivals 0).length = 4 ∧
    (contented.arrivals 1).length = 4 ∧ (slowed.arrivals 1).length = 2 ∧
    contented.seen 0 ((pair (.finish .ok)).world.ids.DrawnFrom (pair (.sleep 1000 (.finish .ok))).world.ids) =
      slowed.seen 0 ((pair (.finish .ok)).world.ids.DrawnFrom (pair (.sleep 1000 (.finish .ok))).world.ids) := by
  have hp : (pair (.finish .ok)).Plays twoEventsScript contented :=
    Plays.start.perform (show (pair (.finish .ok)).perform (twoEvents 28) = some (twoEventsScript, contented) from rfl)
  have hp' : (pair (.sleep 1000 (.finish .ok))).Plays twoEventsScript slowed :=
    Plays.start.perform
      (show (pair (.sleep 1000 (.finish .ok))).perform (twoEvents 8) = some (twoEventsScript, slowed) from rfl)
  have hm : (pair (.finish .ok)).IsModest := pair_isModest (show Program.Still (.finish .ok) from trivial)
  have hm' : (pair (.sleep 1000 (.finish .ok))).IsModest :=
    pair_isModest (show Program.Still (.sleep 1000 (.finish .ok)) from trivial)
  have ha : (pair (.finish .ok)).Alike 0 (pair (.sleep 1000 (.finish .ok))) := ⟨rfl, rfl, rfl, rfl, rfl, rfl⟩
  have hr : (pair (.finish .ok)).router.routes[0]? = some keep.route := rfl
  have hb : ((pair (.finish .ok)).post 0 keep.route).Blind
      ((pair (.finish .ok)).world.ids.DrawnFrom (pair (.sleep 1000 (.finish .ok))).world.ids) :=
    Post.Blind.of_binding rfl rfl fun _ _ _ _ => rfl
  have hset : contented.isSettled = true := rfl
  have hset' : slowed.isSettled = true := rfl
  have hclock : contented.world.clock = 0 := rfl
  have hclock' : slowed.world.clock = 0 := rfl
  exact ⟨hp, hp', rfl, rfl, rfl, (isolation hm hm' ha hr hb hp hp').2 hset hset' (hclock.trans hclock'.symm)⟩

end State
end Relay
