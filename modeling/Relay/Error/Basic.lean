import Relay.Error.Refusal
import Relay.Trace.Parent

/-!
Errors as trees. A node says what went wrong, and its children say why: all causes of a custom
error, and the one source of any other error that has one. The text of a node is fixed here; what a
tree means to the retry stage and to the logs is read off in `Relay.Error.Taxonomy`.
-/

namespace Relay

/-- What kind of failure an error reports. -/
inductive Kind where
  | unknown
  /-- The request conflicts with the state of the system. -/
  | conflict
  | internal
  | invalidInput
  /-- A required resource does not exist. -/
  | notFound
  /-- The caller is not authenticated. -/
  | unauthenticated
  /-- The caller is not allowed to do this. -/
  | unauthorized
  | resourceExhausted
deriving DecidableEq, Inhabited

def Kind.text : Kind → String
  | unknown => "UNKNOWN"
  | conflict => "CONFLICT"
  | internal => "INTERNAL"
  | invalidInput => "INVALID_INPUT"
  | notFound => "NOT_FOUND"
  | unauthenticated => "UNAUTHENTICATED"
  | unauthorized => "UNAUTHORIZED"
  | resourceExhausted => "RESOURCE_EXHAUSTED"

/-- The code of an error that carries none. -/
def unknownCode : String := "UNKNOWN"

/-- Failures of the transport that carries messages. -/
inductive TransportError where
  | closed
  /-- Messages could not be published. -/
  | publish (topic message : String)
  /-- A subscription could not be opened. -/
  | subscribe (topic message : String)
deriving DecidableEq

/-- Reasons to refuse the registration of handlers. -/
inductive RegistrationError where
  | duplicateName (name : String)
  | running
  | duplicateCommand (topic existing : String)
deriving DecidableEq

/-- Failures of starting and stopping a router. -/
inductive LifecycleError where
  | alreadyRunning
  /-- The router has not been started. -/
  | notStarted
  /-- A route could not be subscribed to its topic. -/
  | subscribe (topic : String) (source : TransportError)
  | workers (failures : List String)
deriving DecidableEq

/-- Why a text could not be read as a payload. -/
inductive ReadFault where
  | ended
  | malformed
  /-- The text is well formed but holds a wrong value. -/
  | unsuitable
deriving DecidableEq

/-- The place-holder that stands for the description of a fault. -/
def ReadFault.text : ReadFault → String
  | ended => "<eof>"
  | malformed => "<syntax>"
  | unsuitable => "<data>"

/-- Failures of turning values into payloads and back. -/
inductive CodecError where
  /-- The value cannot be written. -/
  | encode (name : String) (refusal : Refusal)
  /-- The payload cannot be read. -/
  | decode (name : String) (fault : ReadFault)
deriving DecidableEq

/-- Failures of publishing a value. -/
inductive PublishError where
  /-- The value could not be written. -/
  | codec (e : CodecError)
  /-- The transport did not take the message. -/
  | transport (e : TransportError)
deriving DecidableEq

/-- What the broker was doing when it failed. -/
inductive BrokerTask where
  | buildRouter
  | buildCommandBus
  | buildCommandProcessor
  | buildEventBus
  | buildEventProcessor
  | addCommandHandlers
  | addEventHandlers
  | runRouter
  | sendCommand
  | sendEvent
deriving DecidableEq

/-- What a custom error says about itself. -/
structure Label where
  message : String
  kind : Kind := .unknown
  code : String := unknownCode
  retryable : Bool := false
deriving DecidableEq

/-- An error with everything that caused it. -/
inductive Error where
  | plain (message : String)
  /-- A description of another error, of a type that says nothing about itself. -/
  | wrapper (message : String) (source : Error)
  /-- An error that says what it is, with its causes in the order in which they were attached. -/
  | custom (label : Label) (causes : List Error)
  | transport (e : TransportError)
  | registration (e : RegistrationError)
  | lifecycle (e : LifecycleError)
  /-- A failure of the broker, with what it came from. -/
  | broker (task : BrokerTask) (source : Error)
  /-- A failure to publish. It shows what it wraps and says nothing itself. -/
  | publish (e : PublishError)
  | codec (e : CodecError)
  /-- A text that is no trace parent. -/
  | traceParent (e : TraceParentError)
  | configuration (message : String)

/-! ### Texts -/

def TransportError.message : TransportError → String
  | closed => "pubsub is closed"
  | publish topic message => "Publish failed on topic '" ++ topic ++ "': " ++ message
  | subscribe topic message => "Subscribe failed on topic '" ++ topic ++ "': " ++ message

def RegistrationError.message : RegistrationError → String
  | duplicateName name => "handler '" ++ name ++ "' is already registered"
  | running => "router is already running, handlers must be added before run"
  | duplicateCommand topic existing =>
    "command topic '" ++ topic ++ "' already has handler '" ++ existing ++ "'"

def LifecycleError.message : LifecycleError → String
  | alreadyRunning => "router is already running"
  | notStarted => "router is not started"
  | subscribe topic _ => "failed to subscribe to topic '" ++ topic ++ "'"
  | workers failures => "router workers failed: " ++ "; ".intercalate failures

/-- The text of what a codec error came from. -/
def CodecError.reason : CodecError → String
  | encode _ refusal => refusal.message
  | decode _ fault => fault.text

def CodecError.message : CodecError → String
  | encode name refusal => "failed to encode '" ++ name ++ "': " ++ refusal.message
  | decode name fault => "failed to decode '" ++ name ++ "': " ++ fault.text

/-- The text of a failure to publish is that of what failed. -/
def PublishError.message : PublishError → String
  | codec e => e.message
  | transport e => e.message

/-- The text of a failure of the broker. -/
def BrokerTask.message : BrokerTask → String
  | buildRouter => "failed to build router"
  | buildCommandBus => "failed to build command bus"
  | buildCommandProcessor => "failed to build command processor"
  | buildEventBus => "failed to build event bus"
  | buildEventProcessor => "failed to build event processor"
  | addCommandHandlers => "failed to add command handlers into command processor"
  | addEventHandlers => "failed to add event handlers into event processor"
  | runRouter => "something went wrong with message router"
  | sendCommand => "failed to send command to the command bus"
  | sendEvent => "failed to send event to the event bus"

namespace Error

mutual

/-- The text of an error: its own description, and behind a custom error those of its causes. -/
def message : Error → String
  | plain message => message
  | wrapper message _ => message
  | custom label causes => label.message ++ causeTexts causes
  | transport e => e.message
  | registration e => e.message
  | lifecycle e => e.message
  | broker task _ => task.message
  | publish e => e.message
  | codec e => e.message
  | traceParent e => e.message
  | configuration message => "Invalid configuration: " ++ message

/-- The texts of causes, each behind a colon. -/
def causeTexts : List Error → String
  | [] => ""
  | e :: es => ": " ++ e.message ++ causeTexts es

end

/-- What an error came from: of several causes, the first. -/
def source? : Error → Option Error
  | wrapper _ source => some source
  | custom _ (cause :: _) => some cause
  | lifecycle (.subscribe _ source) => some (transport source)
  | broker _ source => some source
  | publish (.codec e) => some (plain e.reason)
  | codec e => some (plain e.reason)
  | _ => none

/-- The texts along the chain of sources, the error itself left out. -/
def sourceTexts : Error → List String
  | wrapper _ source => source.message :: sourceTexts source
  | custom _ (cause :: _) => cause.message :: sourceTexts cause
  | lifecycle (.subscribe _ source) => [source.message]
  | broker _ source => source.message :: sourceTexts source
  | publish (.codec e) => [e.reason]
  | codec e => [e.reason]
  | _ => []

/-- The refusal at the end of the chain of sources, if there is one. -/
def refusal? : Error → Option Refusal
  | wrapper _ source => refusal? source
  | custom _ (cause :: _) => refusal? cause
  | broker _ source => refusal? source
  | publish (.codec (.encode _ r)) => some r
  | codec (.encode _ r) => some r
  | _ => none

/-! ### Building custom errors -/

/-- A custom error that says nothing about itself but its description. -/
def ofMessage (message : String) : Error := custom { message } []

/-- The custom error with a further cause behind those it has; other errors stay as they are. -/
def attach : Error → Error → Error
  | custom label causes, cause => custom label (causes ++ [cause])
  | e, _ => e

/-- A collaborator that was not supplied. -/
def missingDependency (name : String) : Error :=
  custom ⟨"Missing required dependency: " ++ name, .invalidInput, "MISSING_REQUIRED_DEPENDENCY",
    false⟩ []

def validation (description : String) : Error :=
  custom ⟨description, .invalidInput, "VALIDATION_ERROR", false⟩ []

/-- A resource that does not exist. -/
def notFound : Error :=
  custom ⟨"resource not found", .notFound, "RESOURCE_NOT_FOUND", false⟩ []

end Error

end Relay
