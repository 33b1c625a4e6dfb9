import Relay.Context

/-!
Spans: a piece of work under a name, as a child of the span in whose context it starts. The random
identifiers are drawn from a supply.
-/

namespace Relay

/-- A supply of random identifiers. -/
structure Supply where
  /-- The identifiers in the order in which they are drawn. -/
  draws : Nat → Uuid
  used : Nat := 0

namespace Supply

def head (s : Supply) : Uuid := s.draws s.used

def tail (s : Supply) : Supply := { s with used := s.used + 1 }

end Supply

/-- The part that a span plays in an exchange of messages. -/
inductive SpanKind where
  | producer
  | consumer
  | internal
deriving DecidableEq

def SpanKind.text : SpanKind → String
  | producer => "producer"
  | consumer => "consumer"
  | internal => "internal"

/-- What is held of an open span: nothing, where spans are not recorded. -/
structure SpanHandle where
  span : Option TraceParent
deriving DecidableEq

namespace SpanHandle

/-- The handle on no span. -/
def disabled : SpanHandle := ⟨none⟩

/-- Whether there is no span. -/
def isDisabled (h : SpanHandle) : Bool := h.span.isNone

end SpanHandle

/-- The context of a new span: in the trace of the given context, or in a new trace if that has
none. -/
def Context.startSpan (c : Context) (s : Supply) : Context × Supply :=
  match c.trace with
  | some p => (c.withTrace (p.child s.head), s.tail)
  | none => (c.withTrace (.root s.head s.tail.head), s.tail.tail)

end Relay
