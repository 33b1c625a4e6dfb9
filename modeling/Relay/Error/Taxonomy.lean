import Relay.Error.Basic

/-!
What an error tree means: its kind, its code, and whether the failed work is worth trying again. The
first node of a depth-first walk that knows its kind or code decides it, and one retryable node
makes the whole tree retryable. `Error.links` is that walk as a list.
-/

namespace Relay

def TransportError.code : TransportError → String
  | closed => "PUBSUB_CLOSED"
  | publish .. => "PUBLISH_ERROR"
  | subscribe .. => "SUBSCRIBE_ERROR"

def RegistrationError.code : RegistrationError → String
  | duplicateName _ => "DUPLICATE_HANDLER_NAME"
  | running => "ROUTER_RUNNING"
  | duplicateCommand .. => "DUPLICATE_COMMAND_HANDLER"

/-- The kind of a registration error: a conflict with an earlier handler, or too late. -/
def RegistrationError.kind : RegistrationError → Kind
  | running => .internal
  | _ => .conflict

def LifecycleError.code : LifecycleError → String
  | alreadyRunning => "ROUTER_ALREADY_RUNNING"
  | notStarted => "ROUTER_NOT_STARTED"
  | subscribe .. => "SUBSCRIBE_ERROR"
  | workers _ => "WORKER_FAILURES"

/-- The code of a failure of the broker. -/
def BrokerTask.code : BrokerTask → String
  | buildRouter => "BUILD_ROUTER_ERROR"
  | buildCommandBus => "BUILD_COMMAND_BUS_ERROR"
  | buildCommandProcessor => "BUILD_COMMAND_PROCESSOR_ERROR"
  | buildEventBus => "BUILD_EVENT_BUS_ERROR"
  | buildEventProcessor => "BUILD_EVENT_PROCESSOR_ERROR"
  | addCommandHandlers => "ADD_COMMAND_HANDLERS_ERROR"
  | addEventHandlers => "ADD_EVENT_HANDLERS_ERROR"
  | runRouter => "RUN_ROUTER_ERROR"
  | sendCommand => "SEND_COMMAND_ERROR"
  | sendEvent => "SEND_EVENT_ERROR"

/-- What one node of an error tree says about itself. -/
structure Taxon where
  kind : Kind
  code : String
  /-- Whether the node calls the failed work worth trying again. -/
  retryable : Bool
deriving DecidableEq

namespace Error

/-- What the root of a tree says about itself, if it is of a type that does. -/
def taxon? : Error → Option Taxon
  | custom label _ => some ⟨label.kind, label.code, label.retryable⟩
  | transport e => some ⟨.internal, e.code, false⟩
  | registration e => some ⟨e.kind, e.code, false⟩
  | lifecycle e => some ⟨.internal, e.code, false⟩
  | broker task _ => some ⟨.internal, task.code, false⟩
  | _ => none

/-- The children of the root: all causes of a custom error, otherwise its source. -/
def children : Error → List Error
  | custom _ causes => causes
  | e => e.source?.toList

mutual

/-- The first known kind of the tree. -/
def kind : Error → Kind
  | wrapper _ source => source.kind
  | custom label causes => if label.kind = .unknown then firstKind causes else label.kind
  | transport _ => .internal
  | registration e => e.kind
  | lifecycle _ => .internal
  | broker .. => .internal
  | _ => .unknown

/-- The first known kind among trees. -/
def firstKind : List Error → Kind
  | [] => .unknown
  | e :: es => if e.kind = .unknown then firstKind es else e.kind

end

mutual

/-- The first known code of the tree. -/
def code : Error → String
  | wrapper _ source => source.code
  | custom label causes => if label.code = unknownCode then firstCode causes else label.code
  | transport e => e.code
  | registration e => e.code
  | lifecycle e => e.code
  | broker task _ => task.code
  | _ => unknownCode

/-- The first known code among trees. -/
def firstCode : List Error → String
  | [] => unknownCode
  | e :: es => if e.code = unknownCode then firstCode es else e.code

end

mutual

/-- Whether some node of the tree calls the failed work worth trying again. -/
def retryable : Error → Bool
  | wrapper _ source => source.retryable
  | custom label causes => label.retryable || anyRetryable causes
  | broker _ source => source.retryable
  | _ => false

def anyRetryable : List Error → Bool
  | [] => false
  | e :: es => e.retryable || anyRetryable es

end

mutual

/-- The nodes of the tree as subtrees, the root first, then those of each child in turn. -/
def links : Error → List Error
  | wrapper message source => wrapper message source :: source.links
  | custom label causes => custom label causes :: linksOf causes
  | broker task source => broker task source :: source.links
  | lifecycle (.subscribe topic source) =>
    [lifecycle (.subscribe topic source), transport source]
  | publish (.codec e) => [publish (.codec e), plain e.reason]
  | codec e => [codec e, plain e.reason]
  | e => [e]

/-- The nodes of several trees, one tree after the other. -/
def linksOf : List Error → List Error
  | [] => []
  | e :: es => e.links ++ linksOf es

end

end Error

end Relay
