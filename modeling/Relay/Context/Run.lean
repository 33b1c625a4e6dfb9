import Relay.Propagation
import Relay.Span

/-!
Contexts in use: everything that may be done with them, in any order. A derivation makes a new context
and leaves the one that it is made from; where that one is used up by it, a drop follows.
-/

namespace Relay

/-- The derivations that keep the token of the context that they are given. -/
inductive Derivation where
  | clone
  | correlationId (id : String)
  | trace (p : TraceParent)
  | baggage (b : Dict)
  | baggageItem (key value : String)
  /-- Takes the causal fields out of the metadata of a message. -/
  | extract (metadata : Dict)
  /-- Starts a span. -/
  | span
deriving DecidableEq

def Derivation.run (d : Derivation) (c : Context) (s : Supply) : Context × Supply :=
  match d with
  | .clone => (c, s)
  | .correlationId id => (c.withCorrelationId id, s)
  | .trace p => (c.withTrace p, s)
  | .baggage b => (c.withBaggage b, s)
  | .baggageItem key value => (c.withBaggageItem key value, s)
  | .extract metadata => (Relay.extract c metadata, s)
  | .span => c.startSpan s

/-- The contexts of a program. -/
structure Contexts where
  supply : Supply
  tokens : Tokens := {}
  /-- All contexts ever made, each named by the place at which it was made. -/
  made : List Context := []
  /-- Those of which nobody has a hold any more. -/
  dropped : List Nat := []

namespace Contexts

/-- What may be done with contexts. -/
inductive Op where
  | new
  | child (i : Nat)
  | derive (i : Nat) (d : Derivation)
  /-- Derives a context from `i` that has the token of `j`. -/
  | withToken (i j : Nat)
  | cancel (i : Nat)
  | drop (i : Nat)
deriving DecidableEq

/-- The contexts that an operation is given. -/
def Op.uses : Op → List Nat
  | .new => []
  | .child i | .derive i _ | .cancel i | .drop i => [i]
  | .withToken i j => [i, j]

/-- A context that has been made and not been dropped. -/
def held? (s : Contexts) (i : Nat) : Option Context := if i ∈ s.dropped then none else s.made[i]?

/-- Whether a context is cancelled. Those that have been dropped have a token as well. -/
def isCancelled (s : Contexts) (i : Nat) : Bool := (s.made[i]?).any (·.isCancelled s.tokens)

/-- One operation. Nothing can be done with a context that is not held. -/
def step (s : Contexts) : Op → Contexts
  | .new =>
    let (c, tokens) := Context.new s.tokens
    { s with tokens, made := s.made ++ [c] }
  | .child i =>
    match s.held? i with
    | none => s
    | some c =>
      let (c, tokens) := c.child s.tokens
      { s with tokens, made := s.made ++ [c] }
  | .derive i d =>
    match s.held? i with
    | none => s
    | some c =>
      let (c, supply) := d.run c s.supply
      { s with supply, made := s.made ++ [c] }
  | .withToken i j =>
    match s.held? i, s.held? j with
    | some c, some c' => { s with made := s.made ++ [c.withToken c'.token] }
    | _, _ => s
  | .cancel i =>
    match s.held? i with
    | none => s
    | some c => { s with tokens := s.tokens.cancel c.token }
  | .drop i =>
    match s.held? i with
    | none => s
    | some _ => { s with dropped := i :: s.dropped }

/-- Several operations, one after the other. -/
def run (s : Contexts) (ops : List Op) : Contexts := ops.foldl step s

/-- No contexts, and identifiers for those to come. -/
def start (supply : Supply) : Contexts := { supply }

end Contexts

end Relay
