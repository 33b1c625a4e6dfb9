import Relay.Pipeline.Call
import Relay.Router.Registration

/-!
The tasks that run side by side: workers that take messages from their subscription and see them
through the pipeline, the supervisor that starts workers and waits for their end, callers that wait
for the router, and programs of the outside world. Each says what it waits for.
-/

namespace Relay

/-- What a worker is doing. -/
inductive Occupation where
  | idle
  | busy (m : Message) (c : Call)
  | ended (failure : Option String)

/-- A worker: the loop that serves a route. -/
structure Worker where
  route : Nat
  /-- Its name, which its failures begin with. -/
  name : String
  topic : String
  handler : Handler
  stages : List Stage
  subscription : Nat
  context : Context
  /-- What the last message failed with, if it was worth another attempt. -/
  lastError : Option String := none
  occupation : Occupation := .idle

/-- What the supervisor of a run is doing. -/
inductive Supervision where
  | fresh (c : Context)
  /-- It subscribes the routes that are left; those it has subscribed, with their subscriptions. -/
  | subscribing (run : Context) (made : List (Nat × Nat)) (rest : List Nat)
  /-- It waits for an end of the run; the workers that it has not seen end, and the failures of
  the others. -/
  | watching (run : Context) (workers : List Nat) (failures : List String)
  | draining (run : Context) (workers : List Nat) (failures : List String)
  | ended (o : Outcome)

/-- What a caller that closes the router is doing. -/
inductive Closing where
  | fresh
  | waiting
  | ended (o : Outcome)

/-- A value that the broker sends for somebody: what a failure is reported with. -/
structure Errand where
  role : Role
  correlationId : String
  topic : String
deriving DecidableEq

/-- A task. -/
inductive Task where
  | worker (w : Worker)
  | run (s : Supervision)
  | close (c : Closing)
  /-- A caller that waits until the router has started. -/
  | awaitStart (done : Bool)
  | call (c : Call)
  /-- A program that sends a value for somebody, and how that ended. -/
  | errand (e : Errand) (c : Call) (o : Option Outcome)
  | alarm (t : Timer) (token : Token) (rung : Bool)

/-- The branch that a supervisor takes where several are open. -/
inductive Branch where
  | cancelled
  | shutdown
  | joined (task : Nat)
deriving DecidableEq

/-- Everything at one moment. -/
structure State where
  world : World
  router : Router := {}
  /-- Whether the router belongs to a broker, which reports failures in its own name. -/
  broker : Bool := false
  /-- All tasks ever begun. -/
  tasks : List Task := []
  /-- The task that cannot be interrupted now. -/
  active : Option Nat := none

namespace Occupation

/-- The failure with which a worker has ended, if it has ended. -/
def ended? : Occupation → Option (Option String)
  | ended failure => some failure
  | _ => none

end Occupation

namespace State

/-- The failure with which a worker has ended, if it has. -/
def ended? (s : State) (t : Nat) : Option (Option String) :=
  match s.tasks[t]? with
  | some (.worker w) => w.occupation.ended?
  | _ => none

/-- The branches that are open to a supervisor. -/
def branches (s : State) : Supervision → List Branch
  | .watching run workers _ =>
    (if s.world.isCancelled run then [.cancelled] else [])
      ++ (if s.router.shutdown then [.shutdown] else [])
      ++ (workers.filter fun t => (s.ended? t).isSome).map .joined
  | .draining _ workers _ => (workers.filter fun t => (s.ended? t).isSome).map .joined
  | _ => []

end State

namespace Task

def isReady (s : State) : Task → Bool
  | worker w =>
    match w.occupation with
    | .idle => s.world.exchange.isReadable s.world.tokens w.subscription
    | .busy _ c => c.outcome?.isSome || c.isReady s.world
    | .ended _ => false
  | run v =>
    match v with
    | .ended _ => false
    | .watching .. => !(s.branches v).isEmpty
    | .draining _ workers _ => workers.isEmpty || !(s.branches v).isEmpty
    | _ => true
  | close c =>
    match c with
    | .fresh => true
    | .waiting => s.router.lifecycle = .closed
    | .ended _ => false
  | awaitStart done => !done && s.router.lifecycle ≠ .notStarted
  | call c => c.isReady s.world
  | errand _ c o => o.isNone && (c.outcome?.isSome || c.isReady s.world)
  | alarm t _ rung => !rung && s.world.isDue t

/-- Whether a task is at a place where others may come in between. -/
def atWait : Task → Bool
  | worker w =>
    match w.occupation with
    | .busy _ c => c.atWait
    | _ => true
  | run v =>
    match v with
    | .subscribing _ _ rest => !rest.isEmpty
    | .draining _ workers _ => !workers.isEmpty
    | _ => true
  | call c => c.atWait || c.outcome?.isSome
  | errand _ c o => c.atWait || o.isSome
  | _ => true

def timer? : Task → Option Timer
  | worker w =>
    match w.occupation with
    | .busy _ c => c.timer?
    | _ => none
  | call c => c.timer?
  | errand _ c none => c.timer?
  | alarm t _ false => some t
  | _ => none

/-- How a task ended, if it has. -/
def outcome? : Task → Option Outcome
  | run (.ended o) => some o
  | close (.ended o) => some o
  | awaitStart true => some .ok
  | call c => c.outcome?
  | errand _ _ o => o
  | _ => none

end Task

end Relay
