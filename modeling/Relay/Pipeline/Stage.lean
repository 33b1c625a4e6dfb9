import Relay.Pipeline.Handler
import Relay.Retry.Policy

/-!
The stages that a message passes on its way to a handler, and what each of them remembers while the
rest of the way is under way.
-/

namespace Relay

/-- What a filter does with a message. -/
inductive Verdict where
  | pass (c : Context) (m : Message)
  | answer (o : Outcome)

/-- A stage of a user's own: it looks at a message on the way in and at the outcome on the way
out, unless the work broke off. -/
structure Filter where
  label : Option String := none
  enter : Context → Message → Verdict := .pass
  leave : Outcome → Outcome := id

namespace Filter

def marker (label : String) : Filter := { label := some label }

def setting (key value : String) : Filter := { enter := fun c m => .pass c (m.withMetadata key value) }

def removing (key : String) : Filter :=
  { enter := fun c m => .pass c { m with metadata := m.metadata.erase key } }

def rejecting (e : Error) : Filter := { enter := fun _ _ => .answer (.failed e) }

end Filter

/-- A stage. -/
inductive Stage where
  | recoverer
  /-- Sees to it that the message has a correlation identifier. -/
  | correlation
  /-- Puts the causal fields of the message in place of those of the context. -/
  | propagation
  /-- Tries the rest of the way again while it fails for a passing reason. -/
  | retry (policy : RetryPolicy)
  | filter (f : Filter)
  /-- Opens a span for a handler, and keeps failures that another attempt would not mend. -/
  | dispatch (role : Role) (handler : String)

/-- The name of a stage, if it is one of the library's that can be asked for it. -/
def Stage.name? : Stage → Option String
  | recoverer => some "recoverer"
  | correlation => some "correlation_id"
  | propagation => some "propagation"
  | retry _ => some "retry"
  | _ => none

/-- The label of a stage of a user's own. -/
def Stage.label? : Stage → Option String
  | filter f => f.label
  | _ => none

/-- A stage that has been entered, with what it needs when the rest of the way is done. -/
inductive Frame where
  | plain
  | guard (id topic : String)
  /-- Which attempt this is, and where the next one starts. -/
  | retry (policy : RetryPolicy) (attempt : Nat) (c : Context) (m : Message) (rest : List Stage)
  | filter (leave : Outcome → Outcome)
  /-- The handler and the message that it is given. -/
  | dispatch (role : Role) (handler id : String)

/-- The code of a failure that was a break-off. -/
def panicCode : String := "PANIC_RECOVERED"

/-- What is said of a break-off whose reason is no text. -/
def unknownReason : String := "unknown panic payload"

/-- The failure that a break-off is turned into. -/
def panicError (reason : String) : Error :=
  .custom ⟨"panic recovered: " ++ reason, .internal, panicCode, false⟩ []

/-- How often a retry stage did what. -/
structure Counters where
  attempts : Nat := 0
  retries : Nat := 0
  /-- Messages that were given up after the last attempt. -/
  exhausted : Nat := 0
  aborted : Nat := 0
deriving DecidableEq

end Relay
