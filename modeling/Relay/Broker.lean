import Relay.Config.Basic
import Relay.Router.Step

/-!
A broker: a router whose messages are guarded against break-offs, given a correlation identifier,
put in their own causal context and retried, in this order from the outside in, before they pass the
stages of the user's own.
-/

namespace Relay

namespace Broker

/-- The stages of every broker, from the outside in. -/
def defaultStages (p : RetryPolicy) : List Stage := [.recoverer, .correlation, .propagation, .retry p]

def retryPlace : Nat := 3

/-- A failure to build a broker, and the notice of it. -/
def refuse (invalid : Bool) (f : Config.Fault) : Error × Notice :=
  let e : Error := .broker .buildRouter f.toError
  (e, .buildFailed invalid e)

/-- The stages of a broker with further ones of the user's own. -/
def build (p : RetryPolicy) (extra : List Stage) : Except (Error × Notice) (List Stage) :=
  match p.validate with
  | .error f => .error (refuse false (.retry f))
  | .ok () => .ok (defaultStages p ++ extra)

/-- The stages of a broker with nothing but what its configuration says. -/
def ofConfig (c : Config) : Except (Error × Notice) (List Stage) :=
  match c.validate with
  | .error f => .error (refuse true f)
  | .ok () => build c.retry []

/-- A broker with these stages that has not been started. -/
def start (stages : List Stage) (w : World) : State :=
  { world := w, broker := true : State }.withRouter { stages }

end Broker

end Relay
