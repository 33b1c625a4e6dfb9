import Relay.Cancellation
import Relay.Dict
import Relay.Trace.Parent

/-!
Contexts: the cancellation token and the causal fields that every handler is given. All
derivations but `child` keep the token that they are given.
-/

namespace Relay

/-- What a piece of work runs under. -/
structure Context where
  token : Token
  /-- The name of the exchange of messages to which the work belongs. -/
  correlationId : Option String := none
  trace : Option TraceParent := none
  baggage : Dict := ∅
deriving DecidableEq

namespace Context

/-- A context with a token of its own and no causal fields, and the tokens with that token. -/
def new (s : Tokens) : Context × Tokens := ({ token := s.next }, s.fresh)

/-- A copy that is cancelled along with the context, but not the other way round. -/
def child (c : Context) (s : Tokens) : Context × Tokens :=
  ({ c with token := s.next }, s.derive c.token)

def withToken (c : Context) (t : Token) : Context := { c with token := t }

def withCorrelationId (c : Context) (id : String) : Context := { c with correlationId := some id }

def withTrace (c : Context) (p : TraceParent) : Context := { c with trace := some p }

/-- The context with this baggage in place of its own. -/
def withBaggage (c : Context) (b : Dict) : Context := { c with baggage := b }

/-- The context with one more member of baggage. -/
def withBaggageItem (c : Context) (key value : String) : Context :=
  { c with baggage := c.baggage.insert key value }

def isCancelled (c : Context) (s : Tokens) : Bool := s.isCancelled c.token

end Context

end Relay
