import Relay.Schedule

/-!
A system in use. Requests are made of it one after the other, and after each one everything runs that
can run without time going on. A request that has to wait is answered later, with the report on the
request that made its end possible.
-/

namespace Relay

/-- A request to a system. -/
inductive Request where
  | addStage (g : Stage)
  | addRoutes (rs : List Route)
  | addHandlers (role : Role) (bs : List Binding)
  | handlerFor (topic : String)
  | handlersFor (topic : String)
  | names
  /-- Run the router; answered when the run has ended. -/
  | run
  | awaitStart
  | close
  /-- Close the router and let time go on until it is closed. -/
  | stop
  | publish (topic : String) (batch : List Draft)
  | send (v : Outgoing) (c : Context)
  | cancel
  | closeExchange
  | count (topic : String)
  | advance (ms : Nat)
  /-- Open a stream of the messages on a topic under a name, in place of one that has the name. -/
  | subscribe (stream topic : String)
  | read (stream : String)
  | drain (stream : String)
  | cancelStream (stream : String)
  | drop (stream : String)

/-- What a request is answered with. -/
inductive Answer where
  | nothing
  | outcome (o : Outcome)
  /-- It has not ended yet. -/
  | pending
  /-- It will not end any time soon. -/
  | stuck
  /-- A name, if there is one. -/
  | name? (n : Option String)
  | names (l : List String)
  | number (n : Nat)
  | flag (b : Bool)
  | read (p : Polled)
  /-- All that was read, the last of it no message. -/
  | drained (l : List Polled)

/-- A system in use. -/
structure Session where
  schedule : Schedule
  /-- The context on behalf of which requests are made. -/
  context : Context
  /-- The open streams by name, with their subscriptions and tokens. -/
  streams : List (String × Nat × Token) := []
  requests : Nat := 0
  /-- The requests that have not been answered, with their tasks. -/
  pending : List (Nat × Nat) := []
  /-- How many entries of the journal have been reported. -/
  reported : Nat := 0

namespace Session

/-- A bound on the steps of a run that is never met in practice. -/
def fuel : Nat := 100000000

/-- How long a caller waits for the end of a router, in milliseconds. -/
def patience : Nat := 1000000000

/-- A session with a system, under a context of its own. -/
def start (s : State) : Session :=
  let (context, tokens) := Context.new s.world.tokens
  { schedule := { state := s.withTokens tokens }, context }

def state (s : Session) : State := s.schedule.state

/-- The time, in milliseconds. -/
def clock (s : Session) : Nat := s.state.world.clock

def settle (s : Session) : Session := { s with schedule := s.schedule.wake.settle fuel }

/-- Something is done to the system, and nothing else yet. -/
def touch (s : Session) (o : State.Op) : Session :=
  { s with schedule := { s.schedule with state := s.state.apply o } }

/-- Something is done to the system, and everything runs that then can run. -/
def act (s : Session) (o : State.Op) : Session := (s.touch o).settle

/-- A context with a token of its own. -/
def newContext (s : Session) : Context × Session :=
  ((Context.new s.state.world.tokens).1, s.touch .token)

/-- How a task ended, if it has. -/
def outcome? (s : Session) (t : Nat) : Option Outcome := s.state.tasks[t]?.bind (·.outcome?)

/-- Lets time go on until a task has ended, perhaps only for some milliseconds. -/
def await (s : Session) (t : Nat) (patience : Option Nat) : Answer × Session :=
  let ended (x : State) : Bool := (x.tasks[t]?.bind (·.outcome?)).isSome
  let limit := patience.map (s.clock + ·)
  let s := { s with schedule := s.schedule.runUntil ended limit fuel }
  match s.outcome? t with
  | some o => (.outcome o, s)
  | none => (.stuck, s)

/-- Starts a task; it is answered now or later. -/
def begin (s : Session) (o : State.Op) : Answer × Session :=
  let t := s.state.tasks.length
  let s := s.act o
  match s.outcome? t with
  | some o => (.outcome o, s)
  | none => (.pending, { s with pending := s.pending ++ [(s.requests, t)] })

def verdict {α : Type} (f : α → Option Error) (r : α) : Answer :=
  match f r with
  | none => .outcome .ok
  | some e => .outcome (.failed e)

def error? {ε α : Type} (wrap : ε → Error) : Except ε α → Option Error
  | .ok _ => none
  | .error e => some (wrap e)

/-- Reads from a subscription, and nothing else yet. -/
def poll (s : Session) (sub : Nat) : Polled × Session :=
  ((s.state.plainExchange.poll s.state.world.tokens sub).1, s.touch (.poll sub))

/-- Reads from a subscription until nothing comes, at most so many times. What can run runs before
each reading. -/
def drain (sub : Nat) : Nat → Session → List Polled × Session
  | 0, s => ([], s)
  | n + 1, s =>
    match s.settle.poll sub with
    | (.item m, s) =>
      let (rest, s) := drain sub n s
      (.item m :: rest, s)
    | (p, s) => ([p], s.settle)

/-- Opens a stream in place of one of the same name. -/
def subscribe (s : Session) (stream topic : String) : Answer × Session :=
  let (c, s) := s.newContext
  match s.state.world.subscribe .plain c.token topic with
  | .error (.refused e) => (.outcome (.failed (.transport e)), s.settle)
  | .error .brokeOff => (.outcome (.panicked none), s.settle)
  | .ok (sub, _) =>
    let s := s.act (.subscribe c.token topic)
    let s := match s.streams.lookup stream with
      | some (old, _) => s.act (.drop old)
      | none => s
    let others := s.streams.filter (·.1 != stream)
    (.outcome .ok, { s with streams := (stream, sub, c.token) :: others })

def perform (s : Session) : Request → Answer × Session
  | .addStage g =>
    (verdict (error? .lifecycle) (s.state.router.addStage g), s.act (.addStage g))
  | .addRoutes rs =>
    (verdict (error? .registration) (s.state.router.addRoutes rs), s.act (.addRoutes rs))
  | .addHandlers role bs =>
    (verdict id (s.state.addHandlers role s.context bs).1, s.act (.addHandlers role s.context bs))
  | .handlerFor topic => (.name? (s.state.router.handlerFor? topic), s)
  | .handlersFor topic => (.names (s.state.router.handlersFor topic), s)
  | .names => (.names s.state.router.names, s)
  | .run => s.begin (.run s.context)
  | .awaitStart => s.begin .awaitStart
  | .close => s.begin .close
  | .stop =>
    let t := s.state.tasks.length
    match (s.touch .close).await t patience with
    | (.stuck, s) => (.stuck, s.act (.abandon t))
    | r => r
  | .publish topic batch => s.begin (.publish topic batch)
  | .send v c => s.begin (.send v c)
  | .cancel => (.nothing, s.act (.cancel s.context.token))
  | .closeExchange => (.outcome .ok, s.act .closeExchange)
  | .count topic => (.number (s.state.plainExchange.count topic), s)
  | .advance ms =>
    let time := s.clock + min ms World.longestWait
    (.nothing, { s with schedule := s.schedule.runUntil (fun _ => false) time fuel })
  | .subscribe stream topic => s.subscribe stream topic
  | .read stream =>
    match s.streams.lookup stream with
    | some (sub, _) => (.read (s.poll sub).1, (s.poll sub).2.settle)
    | none => (.nothing, s)
  | .drain stream =>
    match s.streams.lookup stream with
    | some (sub, _) => (.drained (drain sub fuel s).1, (drain sub fuel s).2)
    | none => (.nothing, s)
  | .cancelStream stream =>
    match s.streams.lookup stream with
    | some (_, t) => (.outcome .ok, s.act (.cancel t))
    | none => (.nothing, s)
  | .drop stream =>
    match s.streams.lookup stream with
    | some (sub, _) =>
      (.flag true,
        { s.act (.drop sub) with streams := s.streams.filter (·.1 != stream) })
    | none => (.flag false, s)

def handle (s : Session) (r : Request) : Answer × Session :=
  let (a, s) := s.perform r
  (a, { s with requests := s.requests + 1 })

/-! ### Reports -/

/-- The requests that have been answered since the last report. -/
def resolved (s : Session) : List (Nat × Outcome) :=
  s.pending.filterMap fun (i, t) => (s.outcome? t).map (i, ·)

/-- The entries of the journal since the last report, the earliest first. -/
def news (s : Session) : List Entry :=
  (s.state.world.journal.take (s.state.world.journal.length - s.reported)).reverse

def reportedAll (s : Session) : Session :=
  { s with
    pending := s.pending.filter fun (_, t) => (s.outcome? t).isNone
    reported := s.state.world.journal.length }

end Session

/-! ### What a journal says -/

namespace Journal

def notices (l : List Entry) : List (Nat × Notice) :=
  l.filterMap fun e => match e.event with
    | .noticed n => some (e.time, n)
    | _ => none

/-- The names and kinds of the spans that were opened, with their times. -/
def spans (l : List Entry) : List (Nat × String × SpanKind) :=
  l.filterMap fun e => match e.event with
    | .spanned name kind => some (e.time, name, kind)
    | _ => none

/-- The places in the pipeline that were entered. -/
def places (l : List Entry) : List Nat :=
  l.filterMap fun e => match e.event with
    | .entered place => some place
    | _ => none

/-- The labels of the stages of a pipeline that were entered. -/
def labels (stages : List Stage) (l : List Entry) : List String :=
  (places l).filterMap fun p => stages[p]?.bind (·.label?)

end Journal

/-- The counters of the retry stages of the router. -/
def State.retryCounters (s : State) : List Counters :=
  (s.router.stages.zip s.world.counters).filterMap fun (g, c) => match g with
    | .retry _ => some c
    | _ => none

end Relay
