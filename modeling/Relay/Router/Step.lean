import Relay.Router.Task

/-!
The steps of the whole system. A task moves by `State.micro`; between two waits of a task no other
task moves and nothing is done to the system from the outside. Time passes only when no task can
move, and never beyond a timer. `State.Reachable` is what any sequence of steps leads to, so it
covers every order in which tasks may be served.
-/

namespace Relay

namespace State

def setTask (s : State) (t : Nat) (k : Task) : State := { s with tasks := s.tasks.set t k }

def spawn (s : State) (k : Task) : State := { s with tasks := s.tasks ++ [k] }

def note (s : State) (t : Nat) (e : Event) : State := { s with world := s.world.note t e }

/-- Sees to it that every stage has counters and every route a count of calls. -/
def withRouter (s : State) (r : Router) : State :=
  { s with
    router := r
    world := { s.world with
      counters := s.world.counters
        ++ List.replicate (r.stages.length - s.world.counters.length) {}
      calls := s.world.calls ++ List.replicate (r.routes.length - s.world.calls.length) 0 } }

/-- The error that a failure of the router is reported as, and that it has been reported. -/
def report (s : State) (t : Nat) (e : LifecycleError) : Outcome × State :=
  if s.broker then
    let e : Error := .broker .runRouter (.lifecycle e)
    (.failed e, s.note t (.noticed (.routerFailed e)))
  else (.failed (.lifecycle e), s)

/-! ### Workers -/

def settle (s : State) (t : Nat) (w : Worker) (m : Message) (o : Outcome) : State :=
  let s := s.note t (.settled w.route m o)
  match o with
  | .ok => s.setTask t (.worker { w with lastError := none, occupation := .idle })
  | .failed e =>
    let lastError := if e.retryable then some (w.name ++ ": " ++ e.message) else none
    (s.note t (.noticed (.messageFailed w.name w.topic m.id e))).setTask t
      (.worker { w with lastError, occupation := .idle })
  | .panicked _ =>
    let s := { s with world := { s.world with exchange := s.world.exchange.drop w.subscription } }
    (s.note t (.noticed (.workerPanicked w.name))).setTask t
      (.worker { w with occupation := .ended (some (w.name ++ ": worker panicked")) })

def microWorker (s : State) (t : Nat) (w : Worker) : State :=
  match w.occupation with
  | .idle =>
    match s.world.exchange.poll s.world.tokens w.subscription with
    | (.pending, _) => s
    | (.ended, _) =>
      { s with world := { s.world with exchange := s.world.exchange.drop w.subscription } }.setTask t
        (.worker { w with occupation := .ended w.lastError })
    | (.item m, exchange) =>
      ({ s with world := { s.world with exchange } }.note t (.taken w.route m)).setTask t
        (.worker { w with
          occupation := .busy m (.start w.route w.stages w.handler w.context m) })
  | .busy m c =>
    match c.outcome? with
    | some o => s.settle t w m o
    | none =>
      let (world, c) := c.step t s.world
      { s with world }.setTask t (.worker { w with occupation := .busy m c })
  | .ended _ => s

/-! ### The supervisor -/

def drain (s : State) (t : Nat) (run : Context) (workers : List Nat) (failures : List String) :
    State :=
  { s with
    router := { s.router with lifecycle := .draining }
    world := s.world.cancel run.token }.setTask t (.run (.draining run workers failures))

/-- The failures with that of a worker that has ended. -/
def record (s : State) (failures : List String) (worker : Nat) : List String :=
  match s.ended? worker with
  | some (some failure) => failures ++ [failure]
  | _ => failures

/-- The worker of a route that has been subscribed. -/
def workerFor (s : State) (run : Context) (route subscription : Nat) : Option Task :=
  s.router.routes[route]?.map fun r => .worker {
    route, subscription
    name := r.name
    topic := r.topic
    handler := r.handler
    stages := s.router.pipeline r
    context := run }

/-- The supervisor subscribes a route, or gives up if that fails. If the work breaks off, nobody tells
the router. -/
def subscribeRoute (s : State) (t : Nat) (run : Context) (made : List (Nat × Nat)) (r : Nat)
    (rest : List Nat) : State :=
  match s.router.routes[r]? with
  | none => s.setTask t (.run (.subscribing run made rest))
  | some route =>
    let exchange := made.foldl (fun x m => x.drop m.2) s.world.exchange
    match s.world.subscribe .router run.token route.topic with
    | .ok (sub, world) =>
      { s with world }.setTask t (.run (.subscribing run (made ++ [(r, sub)]) rest))
    | .error (.refused e) =>
      let s := s.note t (.noticed (.subscribeFailed route.name route.topic e))
      let s := { s with
        router := { s.router with lifecycle := .closed }
        world := { s.world.cancel run.token with exchange } }
      let (o, s) := s.report t (.subscribe route.topic e)
      s.setTask t (.run (.ended o))
    | .error .brokeOff =>
      { s with world := { s.world with exchange } }.setTask t (.run (.ended (.panicked none)))

/-- One step of a supervisor; where several branches are open it takes `b`. -/
def microRun (s : State) (t : Nat) (v : Supervision) (b : Branch) : State :=
  match v with
  | .fresh c =>
    if s.router.started then
      let (o, s) := s.report t .alreadyRunning
      s.setTask t (.run (.ended o))
    else
      let (run, tokens) := c.child s.world.tokens
      { s with
        router := { s.router with started := true }
        world := { s.world with tokens } }.setTask t
          (.run (.subscribing run [] (List.range s.router.routes.length)))
  | .subscribing run made (r :: rest) => s.subscribeRoute t run made r rest
  | .subscribing run made [] =>
    let workers := made.filterMap fun m => s.workerFor run m.1 m.2
    { s with
      router := { s.router with lifecycle := .running }
      tasks := s.tasks ++ workers }.setTask t
        (.run (.watching run ((List.range workers.length).map (s.tasks.length + ·)) []))
  | .watching run workers failures =>
    if b ∈ s.branches v then
      match b with
      | .joined w =>
        let workers := workers.erase w
        let failures := s.record failures w
        if workers.isEmpty then s.drain t run workers failures
        else s.setTask t (.run (.watching run workers failures))
      | _ => s.drain t run workers failures
    else s
  | .draining run workers failures =>
    if workers.isEmpty then
      let s := if failures.isEmpty then s else s.note t (.noticed (.workersFailed failures))
      { s with
        router := { s.router with
          lifecycle := .closed
          failures := s.router.failures ++ failures } }.setTask t (.run (.ended .ok))
    else
      match b with
      | .joined w =>
        if b ∈ s.branches v then
          s.setTask t (.run (.draining run (workers.erase w) (s.record failures w)))
        else s
      | _ => s
  | .ended _ => s

/-! ### Callers -/

/-- One step of a caller that closes the router. It is told the failures in the order of their texts. -/
def microClose (s : State) (t : Nat) : Closing → State
  | .fresh =>
    if s.router.started then
      { s with router := { s.router with shutdown := true } }.setTask t (.close .waiting)
    else
      let (o, s) := s.report t .notStarted
      s.setTask t (.close (.ended o))
  | .waiting =>
    if s.router.lifecycle = .closed then
      let failures := s.router.failures.mergeSort (· ≤ ·)
      let s := { s with router := { s.router with failures := [] } }
      if failures.isEmpty then s.setTask t (.close (.ended .ok))
      else
        let (o, s) := s.report t (.workers failures)
        s.setTask t (.close (.ended o))
    else s
  | .ended _ => s

/-- A value has been sent, or not: a failure is reported. -/
def conclude (s : State) (t : Nat) (e : Errand) (c : Call) (o : Outcome) : State :=
  match o with
  | .failed cause =>
    let task : BrokerTask := match e.role with
      | .command => .sendCommand
      | .event => .sendEvent
    let err : Error := .broker task cause
    (s.note t (.noticed (.sendFailed e.role e.correlationId e.topic err))).setTask t
      (.errand e c (some (.failed err)))
  | o => s.setTask t (.errand e c (some o))

def micro (s : State) (t : Nat) (b : Branch) : State :=
  match s.tasks[t]? with
  | none => s
  | some k =>
    match k with
    | .worker w => s.microWorker t w
    | .run v => s.microRun t v b
    | .close c => s.microClose t c
    | .awaitStart _ =>
      if s.router.lifecycle = .notStarted then s else s.setTask t (.awaitStart true)
    | .call c =>
      let (world, c) := c.step t s.world
      { s with world }.setTask t (.call c)
    | .errand e c none =>
      match c.outcome? with
      | some o => s.conclude t e c o
      | none =>
        let (world, c) := c.step t s.world
        { s with world }.setTask t (.errand e c none)
    | .errand _ _ (some _) => s
    | .alarm timer token rung =>
      if !rung && s.world.isDue timer then
        { s with world := s.world.cancel token }.setTask t (.alarm timer token true)
      else s

def isReady (s : State) (t : Nat) : Bool :=
  match s.tasks[t]? with
  | some k => k.isReady s
  | none => false

/-- Whether a task is at a place where others may come in between. -/
def atWait (s : State) (t : Nat) : Bool :=
  match s.tasks[t]? with
  | some k => k.atWait
  | none => true

/-- One step of a task, after which it keeps the others out unless it is at a wait. -/
def turn (s : State) (t : Nat) (b : Branch) : State :=
  let s := s.micro t b
  { s with active := if s.atWait t then none else some t }

/-- Whether no task can move. -/
def isSettled (s : State) : Bool := (List.range s.tasks.length).all fun t => !s.isReady t

def timers (s : State) : List Timer := s.tasks.filterMap (·.timer?)

/-! ### Steps -/

/-- What may be done to a system from the outside, and what it does by itself. -/
inductive Op where
  | addStage (g : Stage)
  | addRoutes (rs : List Route)
  /-- Handlers of values are added on behalf of a context. -/
  | addHandlers (role : Role) (c : Context) (bs : List Binding)
  | token
  | derive (t : Token)
  | cancel (t : Token)
  | run (c : Context)
  | close
  | awaitStart
  | abandon (t : Nat)
  | publish (topic : String) (batch : List Draft)
  /-- A value is sent on behalf of a context. -/
  | send (v : Outgoing) (c : Context)
  /-- A message is put through a pipeline of its own. -/
  | call (stages : List Stage) (h : Handler) (c : Context) (d : Draft)
  /-- A token is to be cancelled after some time. -/
  | alarm (ms : Nat) (t : Token)
  | subscribe (t : Token) (topic : String)
  | poll (sub : Nat)
  | drop (sub : Nat)
  | closeExchange
  | tick (ms : Nat)
  /-- A task moves on; a supervisor takes the given branch. -/
  | turn (t : Nat) (b : Branch)

/-- The exchange that messages as they are go to. -/
def plainExchange (s : State) : Exchange := s.world.exchangeOf .plain

/-- Replaces the exchange that messages as they are go to. -/
def withExchange (s : State) (e : Exchange) : State :=
  { s with world := s.world.setExchange .plain e }

def withTokens (s : State) (t : Tokens) : State := { s with world := { s.world with tokens := t } }

/-- The router with what was registered, unless that was refused. -/
def register {ε : Type} (s : State) : Except ε Router → State
  | .ok r => s.withRouter r
  | .error _ => s

/-- Adds handlers of values, and says why if they are refused; a broker gives notice of that. -/
def addHandlers (s : State) (role : Role) (c : Context) (bs : List Binding) :
    Option Error × State :=
  let result := match role with
    | .command => s.router.addCommands bs
    | .event => s.router.addEvents bs
  match result with
  | .ok r => (none, s.withRouter r)
  | .error e =>
    if s.broker then
      let task : BrokerTask := match role with
        | .command => .addCommandHandlers
        | .event => .addEventHandlers
      let e : Error := .broker task (.registration e)
      (some e, s.note s.tasks.length (.noticed (.addFailed role (c.correlationId.getD "") e)))
    else (some (.registration e), s)

/-- What is done to a system from the outside. -/
def apply (s : State) : Op → State
  | .addStage g => s.register (s.router.addStage g)
  | .addRoutes rs => s.register (s.router.addRoutes rs)
  | .addHandlers role c bs => (s.addHandlers role c bs).2
  | .token => s.withTokens s.world.tokens.fresh
  | .derive t => s.withTokens (s.world.tokens.derive t)
  | .cancel t => s.withTokens (s.world.tokens.cancel t)
  | .run c => s.spawn (.run (.fresh c))
  | .close => s.spawn (.close .fresh)
  | .awaitStart => s.spawn (.awaitStart false)
  | .abandon t =>
    match s.tasks[t]? with
    | some (.close (.fresh)) | some (.close (.waiting)) =>
      s.setTask t (.close (.ended (.panicked none)))
    | _ => s
  | .publish topic batch =>
    s.spawn (.call (.ofProgram (.publish topic batch (.finish .ok)) { token := 0 }))
  | .send v c =>
    let call := Call.ofProgram (.send v (.finish .ok)) c
    if s.broker then s.spawn (.errand ⟨v.role, c.correlationId.getD "", v.topic⟩ call none)
    else s.spawn (.call call)
  | .call stages h c d =>
    let (m, world) := s.world.fulfilOne d
    { s with world }.spawn (.call (.start 0 stages h c m))
  | .alarm ms t =>
    { s with world := (s.world.setTimer ms).2 }.spawn (.alarm (s.world.setTimer ms).1 t false)
  | .subscribe t topic =>
    match s.world.subscribe .plain t topic with
    | .ok (_, world) => { s with world }
    | .error _ => s
  | .poll sub => s.withExchange (s.plainExchange.poll s.world.tokens sub).2
  | .drop sub => s.withExchange (s.plainExchange.drop sub)
  | .closeExchange => s.withExchange s.plainExchange.close
  | .tick ms => { s with world := { s.world with clock := s.world.clock + ms } }
  | .turn t b => s.turn t b

/-- Whether a task reads from a subscription to messages as they are, or is about to. -/
def holds (s : State) (sub : Nat) : Bool :=
  s.world.aside.isNone && s.tasks.any fun
    | .worker w => w.subscription == sub
    | .run (.subscribing _ made _) => made.any (·.2 == sub)
    | _ => false

/-- When a step is possible: a task that keeps the others out keeps everything out, time passes only
when no task can move, and not beyond a timer, and nobody reads from a task's subscription. -/
def Allows (s : State) : Op → Prop
  | .turn t _ => s.active = none ∨ s.active = some t
  | .tick ms =>
    s.active = none ∧ s.isSettled = true ∧ ∀ t ∈ s.timers, s.world.clock + ms ≤ t.due
  | .poll sub | .drop sub => s.active = none ∧ s.holds sub = false
  | _ => s.active = none

/-- What any sequence of steps makes of a system. -/
inductive Reachable (start : State) : State → Prop where
  | refl : Reachable start start
  | step {s : State} (o : Op) : Reachable start s → s.Allows o → Reachable start (s.apply o)

end State

end Relay
