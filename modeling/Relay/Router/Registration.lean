import Relay.Pipeline.Stage

/-!
Registration: the stages and routes of a router, and which handlers are bound to which topics. A
batch of handlers is added as a whole or not at all, and only as long as the router has not been
started.
-/

namespace Relay

/-- How far the life of a router has come. -/
inductive Lifecycle where
  | notStarted
  | running
  /-- No further message is taken; what is under way comes to its end. -/
  | draining
  | closed
deriving DecidableEq, Inhabited

def Lifecycle.text : Lifecycle → String
  | notStarted => "NotStarted"
  | running => "Running"
  | draining => "Draining"
  | closed => "Closed"

/-- A handler and the topic that it gets its messages from. -/
structure Route where
  /-- The name, by which it is told from other routes. -/
  name : String
  topic : String
  /-- The stages of its own, inside those of the router. -/
  stages : List Stage := []
  handler : Handler

/-- The route of a binding: its handler behind a dispatch stage, on the topic of its type. -/
def Binding.route (b : Binding) : Route where
  name := b.name
  topic := b.type.topic
  stages := [.dispatch b.role b.name]
  handler := b.handler

/-- A router, as far as it does not move. -/
structure Router where
  /-- The stages that every message passes, from the outside in. -/
  stages : List Stage := []
  routes : List Route := []
  started : Bool := false
  lifecycle : Lifecycle := .notStarted
  shutdown : Bool := false
  /-- The failures of workers that nobody has been told. -/
  failures : List String := []
  /-- The topics that are bound to a handler of commands, with its name, the latest first. -/
  commands : List (String × String) := []
  /-- The topics that are bound to handlers of events, with their names, the latest first. -/
  events : List (String × String) := []

namespace Router

/-- The first name that is taken or repeats an earlier one. -/
def duplicate? (taken : List String) : List String → Option String
  | [] => none
  | n :: ns => if n ∈ taken then some n else duplicate? (n :: taken) ns

/-- Adds a stage inside those that there are. -/
def addStage (r : Router) (s : Stage) : Except LifecycleError Router :=
  if r.started then .error .alreadyRunning else .ok { r with stages := r.stages ++ [s] }

def addRoutes (r : Router) (routes : List Route) : Except RegistrationError Router :=
  if r.started then .error .running
  else
    match duplicate? (r.routes.map (·.name)) (routes.map (·.name)) with
    | some name => .error (.duplicateName name)
    | none => .ok { r with routes := r.routes ++ routes }

def key (b : Binding) : String × String := (b.type.topic, b.name)

/-- The first binding whose topic is bound already or repeats that of an earlier one, as its topic
and the name that this is bound to. -/
def conflict? (bound : List (String × String)) : List (String × String) → Option (String × String)
  | [] => none
  | (topic, name) :: rest =>
    match bound.lookup topic with
    | some existing => some (topic, existing)
    | none => conflict? ((topic, name) :: bound) rest

/-- Adds handlers of commands: one for each topic. -/
def addCommands (r : Router) (bindings : List Binding) : Except RegistrationError Router :=
  if r.started then .error .running
  else
    match conflict? r.commands (bindings.map key) with
    | some (topic, existing) => .error (.duplicateCommand topic existing)
    | none =>
      (r.addRoutes (bindings.map (·.route))).map fun r =>
        { r with commands := (bindings.map key).reverse ++ r.commands }

/-- Adds handlers of events: any number for each topic. -/
def addEvents (r : Router) (bindings : List Binding) : Except RegistrationError Router :=
  (r.addRoutes (bindings.map (·.route))).map fun r =>
    { r with events := (bindings.map key).reverse ++ r.events }

/-- The name of the handler that commands on a topic are bound to. -/
def handlerFor? (r : Router) (topic : String) : Option String := r.commands.lookup topic

/-- The names of the handlers that events on a topic are bound to, in order. -/
def handlersFor (r : Router) (topic : String) : List String :=
  (((r.events.filter (·.1 == topic)).map (·.2)).eraseDups).mergeSort (· ≤ ·)

/-- The names of all routes, in order. -/
def names (r : Router) : List String := (r.routes.map (·.name)).mergeSort (· ≤ ·)

def pipeline (r : Router) (route : Route) : List Stage := r.stages ++ route.stages

end Router

end Relay
