import Relay.Exchange.Basic

/-!
An exchange in use: the operations of everyone who shares it, in any order. A publication is begun,
and then moves whenever its turn comes. A call for a subscription that finds the exchange open is
registered at any time later, and so are the lists cleared when it has been closed.
-/

namespace Relay

/-- An exchange with the tokens that end its streams. -/
structure Hub where
  tokens : Tokens := {}
  exchange : Exchange := {}
deriving DecidableEq

namespace Hub

/-- What may happen to an exchange. -/
inductive Op where
  | token
  | derive (t : Token)
  | cancel (t : Token)
  /-- A call for a subscription begins. -/
  | subscribe (t : Token) (topic : String)
  /-- One of those that have been admitted comes to its end. -/
  | register (k : Nat)
  | publish (topic : String) (batch : List Message)
  | advance (p : Nat)
  | poll (s : Nat)
  | drop (s : Nat)
  /-- A call that closes the exchange begins. -/
  | close
  /-- It comes to its end. -/
  | clear
deriving DecidableEq

def step (h : Hub) : Op → Hub
  | .token => { h with tokens := h.tokens.fresh }
  | .derive t => { h with tokens := h.tokens.derive t }
  | .cancel t => { h with tokens := h.tokens.cancel t }
  | .subscribe t topic =>
    match h.exchange.letIn t topic with
    | .error _ => h
    | .ok e => { h with exchange := e }
  | .register k => { h with exchange := h.exchange.register k }
  | .publish topic batch => { h with exchange := (h.exchange.publish topic batch).2 }
  | .advance p => { h with exchange := h.exchange.advance p }
  | .poll s => { h with exchange := (h.exchange.poll h.tokens s).2 }
  | .drop s => { h with exchange := h.exchange.drop s }
  | .close => { h with exchange := h.exchange.shut }
  | .clear => { h with exchange := h.exchange.clear }

/-- A new exchange whose queues hold this many messages. -/
def start (capacity : Option Nat) : Hub := { exchange := { capacity } }

/-- What any sequence of operations makes of a new exchange. -/
inductive Reachable (capacity : Option Nat) : Hub → Prop where
  | start : Reachable capacity (start capacity)
  | step {h : Hub} (o : Op) : Reachable capacity h → Reachable capacity (h.step o)

end Hub

end Relay
