import Relay.Number.Shortest

/-!
How often and after which waits a failed message is tried again: waits grow by a factor from an
initial interval up to a cap, and the number of attempts is bounded.
-/

namespace Relay

/-- The settings of retries. -/
structure RetryPolicy where
  /-- The wait before the second attempt, in milliseconds. -/
  initialInterval : Nat := 1000
  multiplier : Binary64 := .ofNat 2
  /-- No wait is longer than this, in milliseconds. -/
  maxInterval : Nat := 120000
  /-- How often a message is tried at most, the first time included. -/
  maxAttempts : Nat := 100
deriving DecidableEq, Inhabited

namespace RetryPolicy

/-- A short policy for tests: few attempts, milliseconds apart. -/
def quick : RetryPolicy := ⟨10, .ofNat 2, 100, 3⟩

/-- The greatest exponent that a wait is computed with. -/
def maxPower : Nat := Nat.pow 2 31 - 1

def maxWait : Nat := Nat.pow 2 64 - 1

/-- The wait after the failure of an attempt, counted from one, in milliseconds. -/
def delay (p : RetryPolicy) (attempt : Nat) : Nat :=
  if attempt = 0 then 0
  else
    let grown := Binary64.ofNat p.initialInterval * p.multiplier.pow (Nat.min (attempt - 1) maxPower)
    (grown.min (.ofNat p.maxInterval)).toNatUpTo maxWait

/-- How many waits there are before a message is given up. -/
def waits (p : RetryPolicy) : Nat := p.maxAttempts - 1

/-- What is wrong with a policy. -/
inductive Fault where
  | noAttempts
  /-- The waits would shrink, or the factor is not a finite number. -/
  | multiplier (m : Binary64)
  | interval (max initial : Nat)
deriving DecidableEq

def Fault.message : Fault → String
  | noAttempts => "retry.max_attempts must be at least 1"
  | multiplier m => "retry.multiplier must be >= 1.0, got " ++ m.text
  | interval max initial =>
    "retry.max_interval_ms (" ++ toString max ++ ") is below retry.initial_interval_ms ("
      ++ toString initial ++ ")"

/-- The first fault of a policy. -/
def validate (p : RetryPolicy) : Except Fault Unit :=
  if p.maxAttempts = 0 then .error .noAttempts
  else if !(p.multiplier.isFinite && Binary64.le .one p.multiplier) then
    .error (.multiplier p.multiplier)
  else if p.maxInterval < p.initialInterval then
    .error (.interval p.maxInterval p.initialInterval)
  else .ok ()

end RetryPolicy

end Relay
