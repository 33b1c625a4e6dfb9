import Relay.Pipeline.Handler

/-!
Handlers that follow a script: the n-th call does what the n-th entry says, and all calls beyond the
script do what its last entry says.
-/

namespace Relay

namespace Script

/-- The entry that a call follows, given how often there was a call before. -/
def nth? {α : Type} (script : List α) (n : Nat) : Option α :=
  match script[n]? with
  | some a => some a
  | none => script.getLast?

end Script

/-- Whether a program does anything before it ends. -/
def Program.hasEffects : Program → Bool
  | finish _ => false
  | _ => true

/-- Whether a call does anything before it ends. -/
def Invocation.hasEffects : Invocation → Bool
  | refused _ => false
  | started p => p.hasEffects

/-- A handler that follows a script; without entries, it succeeds. -/
def Handler.scripted (name : String) (script : List Invocation) : Handler where
  name
  reads := none
  play n _ _ := (Script.nth? script n).getD (.started (.finish .ok))

/-- A binding whose handler follows a script; without entries, it succeeds. -/
def Binding.scripted (role : Role) (type : PayloadType) (name : String) (script : List Program) :
    Binding where
  role
  type
  name
  play n _ _ := (Script.nth? script n).getD (.finish .ok)

end Relay
