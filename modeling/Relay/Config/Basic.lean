import Relay.Error.Basic
import Relay.Json.Read
import Relay.Retry.Policy

/-!
The configuration of a broker: how it retries, and how many messages the queue of a subscription
holds. It can be read from JSON, where everything that is missing keeps its default.
-/

namespace Relay

/-- The configuration of a broker. -/
structure Config where
  retry : RetryPolicy := {}
  /-- How many messages a queue holds; without a number, any. -/
  buffer : Option Nat := none
deriving DecidableEq, Inhabited

namespace Config

def quick : Config := { retry := .quick }

/-- What is wrong with a configuration. -/
inductive Fault where
  /-- The retries cannot be done. -/
  | retry (f : RetryPolicy.Fault)
  | noBuffer
deriving DecidableEq

def Fault.message : Fault → String
  | retry f => f.message
  | noBuffer => "pubsub.subscriber_buffer must be at least 1"

def Fault.toError (f : Fault) : Error := .configuration f.message

/-- The first fault of a configuration. -/
def validate (c : Config) : Except Fault Unit :=
  match c.retry.validate with
  | .error f => .error (.retry f)
  | .ok () => if c.buffer = some 0 then .error .noBuffer else .ok ()

/-! ### Reading -/

/-- The names of the fields of a retry policy, in order. -/
def retryNames : List String :=
  ["initial_interval_ms", "multiplier", "max_interval_ms", "max_attempts"]

/-- The name of the field that says how much a queue holds. -/
def bufferName : String := "subscriber_buffer"

def retryValue (p : RetryPolicy) : Value := .record [
  ("initial_interval_ms", .number p.initialInterval),
  ("multiplier", .real p.multiplier),
  ("max_interval_ms", .number p.maxInterval),
  ("max_attempts", .number p.maxAttempts)]

def bufferValue (n : Option Nat) : Value := .record [(bufferName, match n with
  | some n => .number n
  | none => .absent)]

/-- The shape of a retry policy, in which everything may be missing. -/
def retryShape (p : RetryPolicy) : Shape := .record true [
  .mk "initial_interval_ms" .word64 (some (.number p.initialInterval)),
  .mk "multiplier" .real (some (.real p.multiplier)),
  .mk "max_interval_ms" .word64 (some (.number p.maxInterval)),
  .mk "max_attempts" .word32 (some (.number p.maxAttempts))]

def bufferShape (n : Option Nat) : Shape := .record true [
  .mk bufferName (.optional .word64) ((bufferValue n).get? bufferName)]

/-- The shape of a configuration, in which everything may be missing. -/
def shape (c : Config) : Shape := .record true [
  .mk "retry" (retryShape c.retry) (some (retryValue c.retry)),
  .mk "pubsub" (bufferShape c.buffer) (some (bufferValue c.buffer))]

/-- The natural number of a field, if it is one. -/
def natural? (v : Value) (name : String) : Option Nat :=
  match v.get? name with
  | some (.number n) => some n.toNat
  | _ => none

/-- The retry policy that a value describes; what is missing is as in `p`. -/
def retryOf (p : RetryPolicy) (v : Value) : RetryPolicy where
  initialInterval := (natural? v "initial_interval_ms").getD p.initialInterval
  multiplier := match v.get? "multiplier" with
    | some (.real x) => x
    | _ => p.multiplier
  maxInterval := (natural? v "max_interval_ms").getD p.maxInterval
  maxAttempts := (natural? v "max_attempts").getD p.maxAttempts

def ofValue (v : Value) : Config where
  retry := match v.get? "retry" with
    | some r => retryOf {} r
    | none => {}
  buffer := match v.get? "pubsub" with
    | some b => natural? b bufferName
    | none => none

def readJson (bs : List UInt8) : Except ReadFault Config :=
  (Json.read (shape {}) bs).map ofValue

end Config

end Relay
