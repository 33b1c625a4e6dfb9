import Relay.Exchange.Basic
import Relay.Journal

/-!
What all work shares: the clock, the tokens, the exchange in which the router subscribes, perhaps
another one for messages as they are, the supply of identifiers, the counters of the retry stages, how
often each handler has been called, and the journal.
-/

namespace Relay

/-- A point in time that a piece of work waits for; of two that fall together, the one that was set
first comes first. -/
structure Timer where
  due : Nat
  order : Nat
deriving DecidableEq

/-- The transport that the work runs on: an exchange, behind which topics may be refused. -/
structure Transport where
  /-- The topics to which nothing can be published, with the reasons. -/
  refusePublish : Dict := ∅
  /-- The topics that cannot be subscribed, with the reasons. -/
  refuseSubscribe : Dict := ∅
deriving DecidableEq

/-- Another exchange, with the topics that are refused before it. -/
structure Outlet where
  exchange : Exchange := {}
  transport : Transport := {}
deriving DecidableEq

/-- Where something is published: values go where the router subscribes, and messages as they are may
go elsewhere. -/
inductive Port where
  | router
  | plain
deriving DecidableEq

/-- What all work shares. -/
structure World where
  clock : Nat := 0
  timers : Nat := 0
  tokens : Tokens := {}
  ids : Supply
  exchange : Exchange := {}
  transport : Transport := {}
  /-- Where messages as they are go, if they do not go to the router's exchange. -/
  aside : Option Outlet := none
  /-- The counters of the stages of the pipeline, by place; only retry stages count. -/
  counters : List Counters := []
  /-- How often the handler of each route has been called. -/
  calls : List Nat := []
  /-- What has happened, the latest first. -/
  journal : List Entry := []

namespace World

/-- The beginning: nothing has happened, and queues hold this many messages. -/
def start (ids : Supply) (capacity : Option Nat) (transport : Transport := {}) : World :=
  { ids, exchange := { capacity }, transport }

def note (w : World) (task : Nat) (e : Event) : World :=
  { w with journal := ⟨w.clock, task, e⟩ :: w.journal }

def draw (w : World) : Uuid × World := (w.ids.head, { w with ids := w.ids.tail })

/-- The longest that anything waits for a time, in milliseconds: thirty years of 365 days. -/
def longestWait : Nat := 946080000000

/-- Sets a timer. A time that is too far away is not waited for to its end. -/
def setTimer (w : World) (ms : Nat) : Timer × World :=
  (⟨w.clock + min ms longestWait, w.timers⟩, { w with timers := w.timers + 1 })

/-- Whether the time of a timer has come. -/
def isDue (w : World) (t : Timer) : Bool := t.due ≤ w.clock

def isCancelled (w : World) (c : Context) : Bool := c.isCancelled w.tokens

def cancel (w : World) (t : Token) : World := { w with tokens := w.tokens.cancel t }

def count (w : World) (place : Nat) (f : Counters → Counters) : World :=
  { w with counters := w.counters.modify place f }

def startSpan (w : World) (task : Nat) (c : Context) (name : String) (kind : SpanKind) :
    Context × World :=
  let (c, ids) := c.startSpan w.ids
  (c, { w with ids }.note task (.spanned name kind))

def fulfilOne (w : World) (d : Draft) : Message × World :=
  match d.id with
  | some id => ({ id, payload := d.payload, metadata := d.metadata }, w)
  | none => ({ id := w.draw.1.text, payload := d.payload, metadata := d.metadata }, w.draw.2)

def fulfil (w : World) : List Draft → List Message × World
  | [] => ([], w)
  | d :: ds =>
    let (m, w) := w.fulfilOne d
    let (ms, w) := w.fulfil ds
    (m :: ms, w)

/-! ### Publishing and subscribing -/

def exchangeOf (w : World) : Port → Exchange
  | .router => w.exchange
  | .plain => (w.aside.map (·.exchange)).getD w.exchange

/-- The topics that are refused at a port. -/
def transportOf (w : World) : Port → Transport
  | .router => w.transport
  | .plain => (w.aside.map (·.transport)).getD w.transport

def setExchange (w : World) (p : Port) (exchange : Exchange) : World :=
  match p, w.aside with
  | .plain, some o => { w with aside := some { o with exchange } }
  | _, _ => { w with exchange }

/-- Begins a publication, unless the transport refuses the topic. -/
def publish (w : World) (p : Port) (topic : String) (batch : List Message) :
    Except TransportError (Nat × World) :=
  match (w.transportOf p).refusePublish.get? topic with
  | some reason => .error (.publish topic reason)
  | none =>
    let (pub, exchange) := (w.exchangeOf p).publish topic batch
    .ok (pub, w.setExchange p exchange)

/-- Opens a subscription, unless the transport refuses the topic. -/
def subscribe (w : World) (p : Port) (t : Token) (topic : String) :
    Except SubscribeFault (Nat × World) :=
  match (w.transportOf p).refuseSubscribe.get? topic with
  | some reason => .error (.refused (.subscribe topic reason))
  | none =>
    match (w.exchangeOf p).subscribe t topic with
    | .error e => .error e
    | .ok (s, exchange) => .ok (s, w.setExchange p exchange)

end World

end Relay
