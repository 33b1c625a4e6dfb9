import Relay.Proofs.Isolation.TwoRuns
import Relay.Proofs.Poison.Deliveries

/-! Messages that a handler cannot read are harmless. They cost an attempt and a notice each, and the calls of the
    handler are the same without them (`State.unread_harmless`); but where queues are bounded they take a place, and a
    handler that publishes to its own topic may wait for that place forever, and a handler may look at identifiers that
    they have drawn (`State.unread_in_the_way`). -/

namespace Relay

/-- What is settled about the route of a binding in a broker. -/
def Binding.post (b : Binding) (place : Nat) (policy : RetryPolicy) (transport : Transport) : Post :=
  ⟨place, b.route, Broker.defaultStages policy, [], transport⟩

/-- The desk of a worker whose run goes on, with nothing on it. -/
def Desk.bare (run : Context) (count : Option Nat) : Desk where
  tokens := ⟨List.replicate (run.token + 1) ⟨none, false⟩⟩
  run := run
  count := count

namespace State

/-- Worker `u` of the route of a binding has nothing in hand: its run goes on, and these messages are in its queue. -/
structure Idles (s : State) (place : Nat) (b : Binding) (run : Context) (u : Nat) (queue : List Message) : Prop where
  worker : ∃ w sub, s.tasks[u]? = some (.worker w) ∧ w.route = place ∧ w.context = run ∧ w.occupation = .idle ∧
    s.world.exchange.subscriptions[w.subscription]? = some sub ∧ sub.queue = queue
  route : s.router.routes[place]? = some b.route
  live : s.world.isCancelled run = false

/-- It is the same time for two workers of a route, and the handler has been called alike. -/
structure Level (drawn : Uuid → Prop) (place : Nat) (s : State) (u : Nat) (s' : State) (u' : Nat) : Prop where
  clock : s'.world.clock = s.world.clock
  closed : s'.world.exchange.closed = s.world.exchange.closed
  calls : s'.world.calls[place]? = s.world.calls[place]?
  called : s'.world.called drawn u' = s.world.called drawn u

variable {drawn : Uuid → Prop} {s s' : State} {place u : Nat} {w : Worker} {sub : Subscription} {m : Message}
  {rest : List Message} {b : Binding} {run : Context} {queue : List Message} {policy : RetryPolicy}
  {transport : Transport} {σ : List (Nat × Incoming)}

/-- A worker with nothing in hand, as it is at its desk before it is given its queue. -/
theorem Idles.accords (hi : s.Idles place b run u queue) (hs : s.Upright drawn transport policy) :
    s.Accords drawn (b.post place policy transport) u (.serving (.bare run s.world.calls[place]?))
      (b.handler.sift drawn queue) := by
  obtain ⟨w, sub, hw, hplace, rfl, ho, hsub, rfl⟩ := hi.worker
  obtain ⟨_, _, _, hserving⟩ := hs.orderly.course.serving_of_worker hw
  obtain ⟨-, -, route, hserves⟩ := hserving.serves hw
  obtain rfl : b.route = route := Option.some.inj (hi.route.symm.trans (hplace ▸ hserves.listed))
  refine .serving ⟨hw, hplace, hserves.handler, ?_, rfl, hsub, rfl, ?_, by simp [Desk.bare, Tokens.next], rfl,
    ho ▸ .idle, ho ▸ Occupation.Turned.idle⟩
  · rw [hserves.stages, Router.pipeline, hs.orderly.chained.stages]
    rfl
  · rw [hi.live]
    simp [Desk.bare, Tokens.isCancelled]

/-- The calls that come of what a worker has and is brought, as far as it has come, are one course, and all of that has
    come to pass where it rests. -/
theorem Idles.course (hi : s.Idles place b run u queue) (hs : s.Upright drawn transport policy)
    (hb : b.handler.Blind drawn) (hr : s.Brings u σ s') : ∃ v ahead,
    Sitting.Leads drawn (b.post place policy transport)
      ⟨.serving (.bare run s.world.calls[place]?), s.world.clock, s.world.exchange.closed, s.world.called drawn u,
        b.handler.sieve drawn (Incoming.at s.world.clock queue ++ σ)⟩
      ⟨v, s'.world.clock, s'.world.exchange.closed, s'.world.called drawn u, ahead⟩ ∧
      (s'.rests u = true → v.canMove place s'.world.clock s'.world.exchange.closed = false ∧ ahead = []) := by
  obtain ⟨hs', v, pend, hv, hl⟩ := hr.leads (p := b.post place policy transport) hs hb (hi.accords hs)
  have hlead := hl [] fun _ he => nomatch he
  rw [List.append_nil, List.append_nil, ← Handler.sieve_messages,
    show (b.post place policy transport).route.handler = b.handler from rfl, ← Handler.sieve_append] at hlead
  by_cases hrest : s'.rests u = true
  · obtain ⟨v', -, hready, hgives⟩ := hv.rests hs' hrest
    refine ⟨v', [], hlead.trans ?_, fun _ => ⟨hready _ (.inl rfl), rfl⟩⟩
    rw [← List.append_nil (Incoming.at _ _)]
    exact hgives _ _
  · exact ⟨v, _, hlead, fun h => absurd h hrest⟩

theorem Upright.refuses (hs : s.Upright drawn transport policy) (h : s.Unread u w sub m rest)
    (hr : s.router.routes[w.route]? = some b.route) : ∃ s₁ s',
      (∀ b, s.Allows (.turn u b) ∧ s.apply (.turn u b) = s₁) ∧ Alone u s₁ 12 s' ∧ s.Refused b.name u w m rest s' := by
  obtain ⟨_, _, _, hserving⟩ := hs.orderly.course.serving_of_worker h.worker
  obtain ⟨-, -, route, hserves⟩ := hserving.serves h.worker
  obtain rfl : b.route = route := Option.some.inj (hr.symm.trans hserves.listed)
  have hstages : w.stages = Broker.chain policy b.role b.name := by
    rw [hserves.stages, Router.pipeline, hs.orderly.chained.stages]
    rfl
  exact h.refused hstages hs.counts

/-- Where queues have no bounds, a worker that can do nothing rests. -/
theorem Upright.rests (hs : s.Upright drawn transport policy) (hroomy : s.world.exchange.Roomy)
    (hr : s.isReady u = false) : s.rests u = true := by
  cases hk : s.tasks[u]? with
  | none => simp only [State.rests, hk]
  | some k =>
    cases k with
    | worker w =>
      rw [isReady, hk] at hr
      dsimp only [Task.isReady] at hr
      rw [rests_of hk]
      obtain ⟨_, _, _, hserving⟩ := hs.orderly.course.serving_of_worker hk
      obtain ⟨sub, hsub, -, htoken⟩ := hserving.reads hk
      cases ho : w.occupation with
      | ended f => rfl
      | idle =>
        simp only [ho, Exchange.isReadable, hsub, Exchange.hasEnded, htoken, Bool.or_eq_false_iff,
          Bool.not_eq_false', List.isEmpty_iff] at hr
        simp [lacks, hsub, World.isCancelled, Context.isCancelled, hr.1.1, hr.1.2, hr.2]
      | busy m c =>
        rw [ho, Bool.or_eq_false_iff] at hr
        obtain ⟨hout, hready⟩ := hr
        have hu : c.Unsent := fun port pub wrap n p ctx hp => by
          simp [Call.isReady, hp, World.exchangeOf_eq hs.aside, hroomy.not_blocked] at hready
        simp [Call.waits_of_not_ready (by simpa using hout) hready hu, hready]
    | run _ | close _ | awaitStart _ | call _ | errand _ _ _ | alarm _ _ _ => simp only [State.rests, hk]

theorem Upright.roomy {start : State} (h : Runs Op.OfBroker start s) (hr : start.world.exchange.Roomy) :
    s.world.exchange.Roomy := by
  induction h with
  | refl => exact hr
  | step _ _ ha ih => exact (apply_step ha).exchange (P := Exchange.Roomy) (fun o hr => hr.step o) ih

/-- Messages that a handler cannot read are harmless. Take two runs of brokers with the default stages, in each of which
    a worker for the handler has nothing in hand, and let the same come to both workers at the same times from then on,
    but for messages that the handler cannot read. Then the calls of the handler, each with its time, its context and
    its input, are up to generated identifiers the same in both as far as both have come, and all the same where both
    rest at the same time. A message that the handler of a worker cannot read costs one attempt and one notice, and the
    worker goes on as if it had not been there. What is assumed is that the worker does not wait for a publication of
    its own when time passes, and has done what it can when its run or the exchange comes to its end; where queues have
    no bounds, it never waits for a publication. -/
theorem unread_harmless {ids₁ ids₂ : Supply} {capacity₁ capacity₂ : Option Nat} {s₁ s₂ t₁ t₂ : State}
    {u₁ u₂ place : Nat} {queue₁ queue₂ : List Message} {σ₁ σ₂ : List (Nat × Incoming)}
    (h₁ : Runs Op.OfBroker (Broker.start (Broker.defaultStages policy) (.start ids₁ capacity₁ transport)) s₁)
    (h₂ : Runs Op.OfBroker (Broker.start (Broker.defaultStages policy) (.start ids₂ capacity₂ transport)) s₂)
    (hi₁ : s₁.Idles place b run u₁ queue₁) (hi₂ : s₂.Idles place b run u₂ queue₂)
    (hl : Level (ids₁.DrawnFrom ids₂) place s₁ u₁ s₂ u₂) (hb : b.handler.Blind (ids₁.DrawnFrom ids₂))
    (hr₁ : s₁.Brings u₁ σ₁ t₁) (hr₂ : s₂.Brings u₂ σ₂ t₂)
    (hσ : b.handler.sieve (ids₁.DrawnFrom ids₂) (Incoming.at s₁.world.clock queue₁ ++ σ₁) =
      b.handler.sieve (ids₁.DrawnFrom ids₂) (Incoming.at s₂.world.clock queue₂ ++ σ₂)) :
    (t₁.world.called (ids₁.DrawnFrom ids₂) u₁ <+: t₂.world.called (ids₁.DrawnFrom ids₂) u₂ ∨
      t₂.world.called (ids₁.DrawnFrom ids₂) u₂ <+: t₁.world.called (ids₁.DrawnFrom ids₂) u₁) ∧
    (t₁.rests u₁ = true → t₂.rests u₂ = true → t₂.world.clock = t₁.world.clock →
      t₁.world.called (ids₁.DrawnFrom ids₂) u₁ = t₂.world.called (ids₁.DrawnFrom ids₂) u₂) ∧
    (∀ {r : State} {b : Binding}, Runs Op.OfBroker s₁ r → r.Unread u w sub m rest →
      r.router.routes[w.route]? = some b.route → ∃ n r₁ r₂,
        (∀ branch, r.Allows (.turn u branch) ∧ r.apply (.turn u branch) = r₁) ∧ Alone u r₁ n r₂ ∧
          r.Refused b.name u w m rest r₂) ∧
    (capacity₁ = none → ∀ {r : State} {u : Nat}, Runs Op.OfBroker s₁ r → r.isReady u = false → r.rests u = true) := by
  have hs₁ := (Upright.start (Supply.hidden_left ids₁ ids₂)).runs h₁
  have hs₂ := (Upright.start (Supply.hidden_right ids₁ ids₂)).runs h₂
  obtain ⟨v₁, ahead₁, hlead₁, hrest₁⟩ := hi₁.course hs₁ hb hr₁
  obtain ⟨v₂, ahead₂, hlead₂, hrest₂⟩ := hi₂.course hs₂ hb hr₂
  rw [← hσ, hl.clock, hl.closed, hl.calls, hl.called] at hlead₂
  refine ⟨(hlead₁.total hlead₂).imp (·.calls_isPrefix) (·.calls_isPrefix), fun ha₁ ha₂ hclock => ?_,
    fun hr hu hroute => ?_, fun hc r u hr => ?_⟩
  · obtain ⟨hready₁, he₁⟩ := hrest₁ ha₁
    obtain ⟨hready₂, he₂⟩ := hrest₂ ha₂
    exact congrArg Sitting.calls (hlead₁.unique hlead₂ hclock.symm he₁ he₂ hready₁ hready₂)
  · obtain ⟨r₁, r₂, h⟩ := (hs₁.runs hr).refuses hu hroute
    exact ⟨12, r₁, r₂, h⟩
  · subst hc
    refine (hs₁.runs hr).rests (Upright.roomy hr (Upright.roomy h₁ ⟨rfl, fun h => by cases h⟩))

/-! ### Runs that can be computed -/

/-- What given steps bring to worker `u`, and what they lead to, if each of them is possible. -/
def trace (s : State) (u : Nat) : List Op → Option (List (Nat × Incoming) × State)
  | [] => some ([], s)
  | o :: os =>
    if o.OfBroker ∧ s.Allows o ∧ (o.isTick || s.stops u o || s.closes o → s.rests u) then
      ((s.apply o).trace u os).map fun e => (s.brings u o ++ e.1, e.2)
    else none

theorem Brings.trace {start : State} {os : List Op} {more : List (Nat × Incoming)} (h : start.Brings u σ s)
    (ht : s.trace u os = some (more, s')) : start.Brings u (σ ++ more) s' := by
  induction os generalizing s σ more with
  | nil =>
    cases ht
    rwa [List.append_nil]
  | cons o os ih =>
    rw [State.trace] at ht
    split at ht
    · rename_i ho
      obtain ⟨⟨later, s₁⟩, hs, he⟩ := Option.map_eq_some_iff.mp ht
      cases he
      have := ih (h.step ho.1 ho.2.1 ho.2.2) hs
      rwa [List.append_assoc] at this
    · cases ht

/-- A type of which only one payload can be read. -/
def bit : PayloadType where
  topic := "bit"
  typeName := "Bit"
  write _ := .ok [1]
  read pl := if pl = [1] then .ok (.flag true) else .error .malformed

/-- A handler that when it is called for the first time sleeps, and fails then. -/
def drowsy : Binding where
  role := .event
  type := bit
  name := "drowsy"
  play n _ _ :=
    if n = 0 then .sleep 10 (.finish (.failed (.custom ⟨"lost", .internal, "LOST", false⟩ []))) else .finish .ok

def opening (b : Binding) : List Op :=
  [Op.addHandlers .event { token := 0 } [b], .token, .run { token := 0 }] ++ List.replicate 3 (Op.turn 0 .shutdown)

/-- A broker with one handler, whose worker has begun. -/
def opened (ids : Supply) (b : Binding) (capacity : Option Nat) : State :=
  ((Broker.start (Broker.defaultStages {}) (.start ids capacity)).replay (opening b)).getD
    (Broker.start (Broker.defaultStages {}) (.start ids capacity))

/-- Two messages are published, and the worker is slow with the first one. -/
def plainly : List Op :=
  [Op.publish "bit" [⟨some "a", [1], ∅⟩, ⟨some "b", [1], ∅⟩]] ++ List.replicate 9 (Op.turn 2 .shutdown) ++
    List.replicate 8 (Op.turn 1 .shutdown) ++ [Op.tick 10] ++ List.replicate 22 (Op.turn 1 .shutdown)

/-- The same two messages are published, each with one before it that cannot be read. -/
def mixing : List Op :=
  [Op.publish "bit" [⟨some "x", [9], ∅⟩, ⟨some "a", [1], ∅⟩, ⟨some "y", [], ∅⟩, ⟨some "b", [1], ∅⟩]] ++
    List.replicate 13 (Op.turn 2 .shutdown)

def begun : State := opened .masks drowsy none

def mixed : State := (begun.replay mixing).getD begun

def sorting : List Op :=
  List.replicate 21 (Op.turn 1 .shutdown) ++ [Op.tick 10] ++ List.replicate 35 (Op.turn 1 .shutdown)

def served : State := ((begun.trace 1 plainly).getD ([], begun)).2

def sorted : State := ((mixed.trace 1 sorting).getD ([], mixed)).2

theorem unread_harmless_of_mixed :
    begun.Brings 1 (Incoming.at 0 [⟨"a", "bit", [1], ∅⟩, ⟨"b", "bit", [1], ∅⟩]) served ∧
      begun.Brings 1 (Incoming.at 0 [⟨"x", "bit", [9], ∅⟩, ⟨"a", "bit", [1], ∅⟩, ⟨"y", "bit", [], ∅⟩,
        ⟨"b", "bit", [1], ∅⟩]) sorted ∧
      (served.world.arrivals 1).length = 4 ∧ (sorted.world.arrivals 1).length = 6 ∧
      served.world.called (Supply.DrawnFrom .masks .masks) 1 =
        sorted.world.called (Supply.DrawnFrom .masks .masks) 1 ∧
      (served.world.called (Supply.DrawnFrom .masks .masks) 1).length = 2 ∧
      (∃ w sub m rest n r₁ r₂, mixed.Unread 1 w sub m rest ∧ Alone 1 r₁ n r₂ ∧
        mixed.Refused "drowsy" 1 w m rest r₂) ∧ sorted.isReady 1 = false ∧ sorted.rests 1 = true := by
  have h : Runs Op.OfBroker (Broker.start (Broker.defaultStages {}) (.start .masks none)) begun :=
    Runs.refl.replay (by decide) (show State.replay _ (opening drowsy) = some begun from rfl)
  have hi : begun.Idles 0 drowsy { token := 1 } 1 [] :=
    ⟨⟨_, _, rfl, rfl, rfl, rfl, rfl, rfl⟩, rfl, rfl⟩
  have hl : ∀ drawn, Level drawn 0 begun 1 begun 1 := fun _ => ⟨rfl, rfl, rfl, rfl⟩
  have hr : begun.Brings 1 (Incoming.at 0 [⟨"a", "bit", [1], ∅⟩, ⟨"b", "bit", [1], ∅⟩]) served :=
    Brings.start.trace (show begun.trace 1 plainly = some (_, served) from rfl)
  have hr' : begun.Brings 1 (Incoming.at 0 [⟨"x", "bit", [9], ∅⟩, ⟨"a", "bit", [1], ∅⟩,
      ⟨"y", "bit", [], ∅⟩, ⟨"b", "bit", [1], ∅⟩]) sorted :=
    (Brings.start.trace (show begun.trace 1 mixing = some (_, mixed) from rfl)).trace
      (show mixed.trace 1 sorting = some ([], sorted) from rfl)
  have hmixed : Runs Op.OfBroker begun mixed :=
    Runs.refl.replay (by decide) (show begun.replay mixing = some mixed from rfl)
  have hsorted : Runs Op.OfBroker begun sorted :=
    hmixed.replay (by decide) (show mixed.replay sorting = some sorted from rfl)
  have hunread : ∃ w sub m rest, mixed.Unread 1 w sub m rest ∧
      mixed.router.routes[w.route]? = some drowsy.route :=
    ⟨_, _, _, _, ⟨rfl, rfl, rfl, rfl, rfl, rfl, rfl⟩, rfl⟩
  obtain ⟨w, sub, m, rest, hu, hroute⟩ := hunread
  obtain ⟨-, hsame, hcost, hrests⟩ := unread_harmless (u := 1) (w := w) (m := m) h h hi hi (hl _)
    (Binding.blind fun _ _ _ _ => rfl) hr hr' rfl
  obtain ⟨n, r₁, r₂, -, halone, hrefused⟩ := hcost hmixed hu hroute
  have hclock : served.world.clock = 10 := rfl
  have hclock' : sorted.world.clock = 10 := rfl
  exact ⟨hr, hr', rfl, rfl, hsame rfl rfl (hclock'.trans hclock.symm), rfl,
    ⟨w, sub, m, rest, n, r₁, r₂, hu, halone, hrefused⟩, rfl, hrests rfl hsorted rfl⟩

/-! ### What would not be harmless -/

/-- A handler that when it is called for the first time sleeps, and publishes to its own topic then. -/
def echoing : Binding where
  role := .event
  type := bit
  name := "echoing"
  play n _ _ := if n = 0 then .sleep 10 (.publish "bit" [⟨some "b", [1], ∅⟩] (.finish .ok)) else .finish .ok

/-- The queue has one place, and the handler is asleep. -/
def nodding : List Op := [Op.publish "bit" [⟨some "a", [1], ∅⟩]] ++ List.replicate 7 (Op.turn 2 .shutdown) ++
  List.replicate 8 (Op.turn 1 .shutdown)

def narrow : State := opened .masks echoing (some 1)

def dozing : State := (narrow.replay nodding).getD narrow

def undisturbed : List Op := [Op.tick 10] ++ List.replicate 28 (Op.turn 1 .shutdown)

/-- A message that cannot be read takes the place in the queue. -/
def crowding : List Op := [Op.publish "bit" [⟨some "x", [9], ∅⟩]] ++ List.replicate 7 (Op.turn 3 .shutdown) ++
  [Op.tick 10] ++ List.replicate 4 (Op.turn 1 .shutdown)

/-- A handler that publishes to its own topic unless it is called under the name that is drawn first. -/
def prying : Binding where
  role := .event
  type := bit
  name := "prying"
  play n c _ := if n = 0 ∧ c.correlationId ≠ some Uuid.mask.text then
    .publish "bit" [⟨some "b", [1], ∅⟩] (.finish .ok) else .finish .ok

/-- The identifier that is drawn first is not drawn again. -/
def oneMask : Supply := ⟨fun n => if n = 0 then .mask else { Uuid.mask with variant := ⟨1, by decide⟩ }, 0⟩

def watched : State := opened oneMask prying none

def named : List Op := [Op.publish "bit" [⟨some "a", [1], ∅⟩]] ++ List.replicate 7 (Op.turn 2 .shutdown) ++
  List.replicate 14 (Op.turn 1 .shutdown)

/-- A message that cannot be read has the first name. -/
def renamed : List Op := [Op.publish "bit" [⟨some "x", [9], ∅⟩, ⟨some "a", [1], ∅⟩]] ++
  List.replicate 9 (Op.turn 2 .shutdown) ++ List.replicate 47 (Op.turn 1 .shutdown)

/-- Where the queue has one place, a message that cannot be read may take the place of the handler's own publication;
    and a handler that looks at drawn identifiers may do another thing after such a message. In either case all comes
    to rest at the same time with and without the message, and the handler is not called as often. -/
theorem unread_in_the_way :
    (Runs Op.OfBroker (Broker.start (Broker.defaultStages {}) (.start .masks (some 1))) dozing ∧
      echoing.handler.canRead [9] = false ∧ ∃ t₁ t₂, dozing.replay undisturbed = some t₁ ∧
        dozing.replay crowding = some t₂ ∧ (t₁.isSettled = true ∧ t₁.timers = [] ∧ t₁.world.clock = 10) ∧
        (t₂.isSettled = true ∧ t₂.timers = [] ∧ t₂.world.clock = 10) ∧
        ∀ drawn, (t₁.world.called drawn 1).length = 2 ∧ (t₂.world.called drawn 1).length = 1) ∧
    (Runs Op.OfBroker (Broker.start (Broker.defaultStages {}) (.start oneMask none)) watched ∧
      prying.handler.canRead [9] = false ∧ ∃ t₁ t₂, watched.replay named = some t₁ ∧
        watched.replay renamed = some t₂ ∧ (t₁.isSettled = true ∧ t₁.timers = [] ∧ t₁.world.clock = 0) ∧
        (t₂.isSettled = true ∧ t₂.timers = [] ∧ t₂.world.clock = 0) ∧
        ∀ drawn, (t₁.world.called drawn 1).length = 1 ∧ (t₂.world.called drawn 1).length = 2) := by
  have hnarrow : Runs Op.OfBroker (Broker.start (Broker.defaultStages {}) (.start .masks (some 1))) narrow :=
    Runs.refl.replay (by decide) (show State.replay _ (opening echoing) = some narrow from rfl)
  have hwatched : Runs Op.OfBroker (Broker.start (Broker.defaultStages {}) (.start oneMask none)) watched :=
    Runs.refl.replay (by decide) (show State.replay _ (opening prying) = some watched from rfl)
  refine ⟨⟨hnarrow.replay (by decide) (show narrow.replay nodding = some dozing from rfl), rfl, _, _, rfl, rfl, ?_⟩,
    hwatched, rfl, _, _, rfl, rfl, ?_⟩
  · exact ⟨⟨rfl, rfl, rfl⟩, ⟨rfl, rfl, rfl⟩, fun _ => ⟨rfl, rfl⟩⟩
  · exact ⟨⟨rfl, rfl, rfl⟩, ⟨rfl, rfl, rfl⟩, fun _ => ⟨rfl, rfl⟩⟩

end State
end Relay
