import Relay.Error.Taxonomy
import Relay.Pipeline.Stage
import Relay.Span

/-!
What happens, as it is written down: notices for whoever runs the system, and the events from which
they, the spans and the calls of handlers are read off.
-/

namespace Relay

/-- How grave a notice is. -/
inductive Level where
  | warning
  | error
deriving DecidableEq

def Level.text : Level → String
  | warning => "WARN"
  | error => "ERROR"

/-- Something that whoever runs the system should know. -/
inductive Notice where
  /-- A route could not be subscribed. -/
  | subscribeFailed (handler topic : String) (e : TransportError)
  /-- A message is dropped because its handler's pipeline failed. -/
  | messageFailed (handler topic id : String) (e : Error)
  | workerPanicked (handler : String)
  | workersFailed (failures : List String)
  | panicRecovered (id topic reason : String)
  | retriesExhausted (id topic : String) (attempts : Nat) (e : Error)
  /-- The wait for the next attempt was cut short. -/
  | retryAborted (id : String) (attempt : Nat)
  /-- A message is dropped because its handler failed in a way that will not pass. -/
  | handlingFailed (role : Role) (handler id : String) (e : Error)
  /-- The broker could not be built. -/
  | buildFailed (invalid : Bool) (e : Error)
  | routerFailed (e : Error)
  /-- Handlers could not be added to the broker. -/
  | addFailed (role : Role) (correlationId : String) (e : Error)
  /-- A value could not be sent. -/
  | sendFailed (role : Role) (correlationId topic : String) (e : Error)

namespace Notice

def level : Notice → Level
  | retryAborted .. => .warning
  | _ => .error

def message : Notice → String
  | subscribeFailed .. => "Failed to subscribe"
  | messageFailed .. => "Handler returned error, message dropped"
  | workerPanicked _ => "Worker panicked"
  | workersFailed _ => "Router workers reported failures"
  | panicRecovered .. => "Recovered from handler panic"
  | retriesExhausted .. => "Max retries reached, dropping message"
  | retryAborted .. => "Retry aborted by cancellation"
  | handlingFailed role .. => role.text ++ " handling failed, message dropped"
  | buildFailed invalid _ =>
    if invalid then "Invalid broker configuration" else "Failed to build broker"
  | routerFailed _ => "Message router failed"
  | addFailed .command .. => "Failed to add command handlers"
  | addFailed .event .. => "Failed to add event handlers"
  | sendFailed .command .. => "Failed to send command"
  | sendFailed .event .. => "Failed to send event"

def errorData (e : Error) : List (String × Value) :=
  [("code", .text e.code), ("kind", .text e.kind.text), ("retryable", .flag e.retryable),
    ("error", .text e.message)]

/-- The severity of what must not go unnoticed. -/
def critical : String × Value := ("severity", .text "CRITICAL")

/-- The code of a message that is given up. -/
def exhaustedCode : String := "MAX_RETRIES_REACHED_ERROR"

def data : Notice → List (String × Value)
  | subscribeFailed handler topic e =>
    [("handler", .text handler), ("topic", .text topic), ("error", .text e.message)]
  | messageFailed handler topic id e =>
    [("handler", .text handler), ("topic", .text topic), ("message_id", .text id)] ++ errorData e
  | workerPanicked handler => [("handler", .text handler)]
  | workersFailed failures => [("failures", .text ("; ".intercalate failures))]
  | panicRecovered id topic reason =>
    [("message_id", .text id), ("topic", .text topic), ("panic", .text reason)]
  | retriesExhausted id topic attempts e =>
    [critical, ("code", .text exhaustedCode), ("message_id", .text id), ("topic", .text topic),
      ("attempts", .number attempts), ("error", .text e.message)]
  | retryAborted id attempt => [("message_id", .text id), ("retry_num", .number attempt)]
  | handlingFailed _ handler id e =>
    [("handler", .text handler), ("message_id", .text id)] ++ errorData e
  | buildFailed _ e =>
    [critical, ("code", .text "BUILD_ROUTER_ERROR"), ("error", .text e.message)]
  | routerFailed e => [("error", .text e.message)]
  | addFailed _ correlationId e =>
    [("correlation_id", .text correlationId), ("error", .text e.message)]
  | sendFailed role correlationId topic e =>
    [("correlation_id", .text correlationId), (role.text, .text topic), ("error", .text e.message)]

end Notice

/-- Something that happened. -/
inductive Event where
  | taken (route : Nat) (m : Message)
  | settled (route : Nat) (m : Message) (o : Outcome)
  /-- A stage of a pipeline was entered, given its place from the outside; the handler comes behind
  the last stage. -/
  | entered (place : Nat)
  | left (place : Nat)
  | called (handler : String) (n : Nat) (c : Context) (cancelled : Bool) (i : Input)
  | returned (handler : String) (n : Nat) (ok cancelled : Bool)
  | spanned (name : String) (kind : SpanKind)
  | noticed (n : Notice)

/-- An event with its time and the task that it is part of. -/
structure Entry where
  time : Nat
  task : Nat
  event : Event

end Relay
