import Relay.Payload

/-!
Handlers. What a handler does with one message is a program: a list of effects, some of which wait,
and an outcome at its end. A handler chooses its program by how often it has been called, by the
context, and by what it is given.
-/

namespace Relay

/-- How a piece of work ends. -/
inductive Outcome where
  | ok
  | failed (e : Error)
  /-- It broke off without an answer; the reason, if it is a text. -/
  | panicked (reason : Option String)

/-- A message to be: without an identifier, it gets a random one. -/
structure Draft where
  id : Option String
  payload : Payload
  metadata : Dict
deriving DecidableEq

/-- A value on its way to those who handle its type. -/
structure Outgoing where
  role : Role
  topic : String
  /-- The written value, or why it could not be written. -/
  written : Except String Payload

/-- A value of a type, to be sent in a role. -/
def PayloadType.outgoing (t : PayloadType) (role : Role) (v : Value) : Outgoing :=
  ⟨role, t.topic, t.write v⟩

/-- What a handler does. -/
inductive Program where
  | finish (o : Outcome)
  /-- It waits for some milliseconds. -/
  | sleep (ms : Nat) (next : Program)
  | cancel (next : Program)
  | awaitCancel (next : Program)
  /-- It publishes messages, and ends if that fails. -/
  | publish (topic : String) (batch : List Draft) (next : Program)
  /-- It sends a value, and ends if that fails. -/
  | send (value : Outgoing) (next : Program)

/-- What a handler is called with. -/
inductive Input where
  | message (m : Message)
  | value (v : Value)

/-- What comes of calling a handler. -/
inductive Invocation where
  | refused (reason : Option String)
  | started (p : Program)

/-- A handler. -/
structure Handler where
  name : String
  /-- How it reads payloads, if it wants to be given values. -/
  reads : Option (Payload → Except ReadFault Value)
  /-- What it does when it is called, given how often it has been called before. -/
  play : Nat → Context → Input → Invocation

/-- A handler of values of a type. -/
structure Binding where
  role : Role
  type : PayloadType
  name : String
  /-- What it does when it is called, given how often it has been called before. -/
  play : Nat → Context → Value → Program

def Binding.handler (b : Binding) : Handler where
  name := b.name
  reads := some b.type.read
  play n c
    | .value v => .started (b.play n c v)
    | .message _ => .refused none

end Relay
