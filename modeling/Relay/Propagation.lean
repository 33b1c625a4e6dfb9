import Relay.Context
import Relay.Message

/-!
Carrying the causal fields of a context across the transport: `inject` writes them into the metadata
of a message, `extract` reads them back. Baggage takes one entry per member, under a common prefix.
-/

namespace Relay

def correlationKey : String := "correlation_id"

def traceKey : String := "traceparent"

/-- What the metadata keys of baggage members begin with. -/
def baggagePrefix : String := "baggage."

def nameKey : String := "name"

def baggageKey (member : String) : String := baggagePrefix ++ member

/-- What follows `start` in a text that begins with it. -/
def dropStart? : List Char → List Char → Option (List Char)
  | [], cs => some cs
  | _ :: _, [] => none
  | s :: start, c :: cs => if s = c then dropStart? start cs else none

/-- The member that a metadata key names: never the empty one. -/
def baggageMember? (key : String) : Option String :=
  match dropStart? baggagePrefix.toList key.toList with
  | some (c :: cs) => some (String.ofList (c :: cs))
  | _ => none

/-- Writes every causal field of the context into the metadata. -/
def inject (c : Context) (m : Dict) : Dict :=
  let m := match c.correlationId with
    | some id => m.insert correlationKey id
    | none => m
  let m := match c.trace with
    | some p => m.insert traceKey p.render
    | none => m
  c.baggage.toList.foldl (fun m e => m.insert (baggageKey e.1) e.2) m

/-- The baggage with what one entry of metadata says. -/
def addMember (b : Dict) (entry : String × String) : Dict :=
  match baggageMember? entry.1 with
  | some member => b.insert member entry.2
  | none => b

/-- The context with every causal field of the metadata. A malformed trace parent is passed over. -/
def extract (c : Context) (m : Dict) : Context :=
  { c with
    correlationId := (m.get? correlationKey).or c.correlationId
    trace := ((m.get? traceKey).bind fun s => (TraceParent.parse s).toOption).or c.trace
    baggage := m.toList.foldl addMember c.baggage }

end Relay
