import Relay.Cancellation
import Relay.Error.Basic
import Relay.Message

/-!
The exchange: topics, the subscriptions on them, and the publications under way. A publication takes
the list of a topic's subscriptions once and then puts its messages into their queues one by one,
first all queues for one message, then the next message. Where a queue is full it waits; places that
become free go to those that wait, first come, first served.

A publication moves in small steps (`Exchange.advance`), between which anything else may happen. A call
for a subscription has two: it looks whether the exchange is open (`Exchange.letIn`), and later, without
looking again, it is put on the list (`Exchange.register`). So has a call that closes the exchange
(`Exchange.shut`, `Exchange.clear`). For calls that nothing comes between there are `Exchange.subscribe`
and `Exchange.close`.
-/

namespace Relay

/-- A subscription: the queue between those who publish and the one who reads. -/
structure Subscription where
  topic : String
  token : Token
  /-- The messages that have not been read, the oldest first. -/
  queue : List Message := []
  /-- The publications that wait for a place, in order. -/
  waiting : List Nat := []
  /-- The publications that have been given a place and have not used it. -/
  granted : List Nat := []
  dropped : Bool := false
  /-- Everything that was ever put into the queue, with its publication, the oldest first. -/
  accepted : List (Nat × Message) := []
  /-- Everything that was ever read, the oldest first. -/
  taken : List Message := []
deriving DecidableEq

namespace Subscription

/-- Puts a message of a publication into the queue, using up the place that it was given, if any. -/
def accept (s : Subscription) (p : Nat) (m : Message) : Subscription :=
  { s with
    queue := s.queue ++ [m]
    granted := s.granted.erase p
    accepted := s.accepted ++ [(p, m)] }

/-- Gives a place that has become free to the first that waits. -/
def grant (s : Subscription) : Subscription :=
  match s.waiting with
  | [] => s
  | p :: ps => { s with waiting := ps, granted := s.granted ++ [p] }

/-- Removes the oldest message from the queue. -/
def take (s : Subscription) (m : Message) (rest : List Message) : Subscription :=
  { s with queue := rest, taken := s.taken ++ [m] }.grant

def await (s : Subscription) (p : Nat) : Subscription := { s with waiting := s.waiting ++ [p] }

/-- Forgets a publication that waited; a place that it was given goes to the next. -/
def withdraw (s : Subscription) (p : Nat) : Subscription :=
  if p ∈ s.granted then { s with granted := s.granted.erase p }.grant
  else { s with waiting := s.waiting.erase p }

/-- The reader goes, and what it had not read goes with it. -/
def drop (s : Subscription) : Subscription :=
  { s with queue := [], waiting := [], granted := [], dropped := true }

end Subscription

/-- How far a publication has come. -/
inductive Progress where
  | fresh
  /-- These messages are still to be sent, the first of them to these subscriptions. -/
  | sending (rest : List Message) (ahead : List Nat)
  | ended (error : Option TransportError)
deriving DecidableEq

/-- Messages on their way to the subscriptions of a topic. -/
structure Publication where
  topic : String
  batch : List Message
  /-- The subscriptions that were listed when it began. -/
  targets : List Nat := []
  /-- Whether it met a subscription whose reader had gone. -/
  missed : Bool := false
  progress : Progress := .fresh
deriving DecidableEq

abbrev Registry := List (String × List Nat)

namespace Registry

def enlist (topic : String) (s : Nat) : Registry → Registry
  | [] => [(topic, [s])]
  | (t, l) :: rest => if t = topic then (t, l ++ [s]) :: rest else (t, l) :: enlist topic s rest

/-- Keeps under a topic only the subscriptions of which `keep` holds, and not the topic if there are
none. -/
def prune (topic : String) (keep : Nat → Bool) : Registry → Registry
  | [] => []
  | (t, l) :: rest =>
    if t = topic then
      match l.filter keep with
      | [] => rest
      | l => (t, l) :: rest
    else (t, l) :: prune topic keep rest

end Registry

/-- A call for a subscription that has found the exchange open and is still to be registered. -/
structure Admission where
  token : Token
  topic : String
deriving DecidableEq

/-- An exchange. -/
structure Exchange where
  /-- The number of messages that a queue holds; without one, any number. -/
  capacity : Option Nat := none
  /-- All subscriptions ever made. -/
  subscriptions : List Subscription := []
  publications : List Publication := []
  admitted : List Admission := []
  /-- The subscriptions to which a new publication goes. -/
  registry : Registry := []
  closed : Bool := false
  /-- Whether the call that has closed it is still to clear the registry. -/
  clearing : Bool := false
deriving DecidableEq

/-- Why there is no new subscription. -/
inductive SubscribeFault where
  | refused (e : TransportError)
  /-- The work breaks off, because no queue can hold that many messages. -/
  | brokeOff
deriving DecidableEq

/-- What a reader finds. -/
inductive Polled where
  | item (m : Message)
  | pending
  | ended
deriving DecidableEq

namespace Exchange

/-- The capacity of queues that hold this many messages, and at least one. -/
def bounded (n : Nat) : Option Nat := some (max n 1)

/-- The greatest number of messages that a queue can be made for. -/
def greatestCapacity : Nat := 2305843009213693951

/-- Whether no queue can be made. -/
def isOversized (e : Exchange) : Bool := e.capacity.any (greatestCapacity < ·)

def updateSubscription (e : Exchange) (s : Nat) (f : Subscription → Subscription) : Exchange :=
  { e with subscriptions := e.subscriptions.modify s f }

def updatePublication (e : Exchange) (p : Nat) (f : Publication → Publication) : Exchange :=
  { e with publications := e.publications.modify p f }

def setProgress (e : Exchange) (p : Nat) (g : Progress) : Exchange :=
  e.updatePublication p fun q => { q with progress := g }

/-- Whether a queue has a place that has been given to nobody. A queue has at least one place. -/
def hasRoom (e : Exchange) (s : Subscription) : Bool :=
  match e.capacity with
  | none => true
  | some n => s.queue.length + s.granted.length < max n 1

/-- Whether the reader of a subscription has gone. -/
def isDropped (e : Exchange) (s : Nat) : Bool :=
  match e.subscriptions[s]? with
  | some s => s.dropped
  | none => true

/-- How many subscriptions with a reader are listed under a topic. -/
def count (e : Exchange) (topic : String) : Nat :=
  (((e.registry.lookup topic).getD []).filter fun s => !e.isDropped s).length

/-! ### Subscribing and reading -/

/-- The first step of a call for a subscription. -/
def letIn (e : Exchange) (t : Token) (topic : String) : Except SubscribeFault Exchange :=
  if e.closed then .error (.refused .closed)
  else .ok { e with admitted := e.admitted ++ [⟨t, topic⟩] }

/-- Makes a subscription that ends with a token, and lists it. -/
def enlist (e : Exchange) (t : Token) (topic : String) : Except SubscribeFault (Nat × Exchange) :=
  if e.isOversized then .error .brokeOff
  else .ok (e.subscriptions.length,
    { e with
      subscriptions := e.subscriptions ++ [{ topic, token := t }]
      registry := e.registry.enlist topic e.subscriptions.length })

/-- The second step of the `k`-th of the calls that have been admitted. -/
def register (e : Exchange) (k : Nat) : Exchange :=
  match e.admitted[k]? with
  | none => e
  | some a =>
    let e := { e with admitted := e.admitted.eraseIdx k }
    match e.enlist a.token a.topic with
    | .error _ => e
    | .ok (_, e) => e

/-- Both steps of a call for a subscription. -/
def subscribe (e : Exchange) (t : Token) (topic : String) :
    Except SubscribeFault (Nat × Exchange) :=
  if e.closed then .error (.refused .closed) else e.enlist t topic

/-- Whether the stream of a subscription has ended: what is left in the queue is not read any
more. -/
def hasEnded (e : Exchange) (tokens : Tokens) (s : Subscription) : Bool :=
  e.closed || tokens.isCancelled s.token

def poll (e : Exchange) (tokens : Tokens) (s : Nat) : Polled × Exchange :=
  match e.subscriptions[s]? with
  | none => (.ended, e)
  | some sub =>
    if e.hasEnded tokens sub then (.ended, e)
    else
      match sub.queue with
      | [] => (.pending, e)
      | m :: rest => (.item m, e.updateSubscription s (·.take m rest))

/-- Whether a reader would not find `pending`. -/
def isReadable (e : Exchange) (tokens : Tokens) (s : Nat) : Bool :=
  match e.subscriptions[s]? with
  | none => true
  | some sub => e.hasEnded tokens sub || !sub.queue.isEmpty

/-- The reader of a subscription goes. It stays listed until a publication finds out. -/
def drop (e : Exchange) (s : Nat) : Exchange := e.updateSubscription s (·.drop)

/-- The first step of a call that closes the exchange, and the only one if it is closed. -/
def shut (e : Exchange) : Exchange := if e.closed then e else { e with closed := true, clearing := true }

/-- The second step. -/
def clear (e : Exchange) : Exchange := if e.clearing then { e with registry := [], clearing := false } else e

/-- Both steps of a call that closes the exchange. -/
def close (e : Exchange) : Exchange := if e.closed then e else e.shut.clear

/-! ### Publishing -/

def publish (e : Exchange) (topic : String) (batch : List Message) : Nat × Exchange :=
  (e.publications.length, { e with publications := e.publications ++ [{ topic, batch }] })

def isBlocked (e : Exchange) (p : Nat) : Bool :=
  match e.publications[p]? with
  | some { progress := .sending (_ :: _) (s :: _), .. } =>
    !e.closed &&
      match e.subscriptions[s]? with
      | some sub => p ∈ sub.waiting
      | none => false
  | _ => false

/-- Sends the first message that is left to the first subscription that has not got it. -/
def send (e : Exchange) (p : Nat) (m : Message) (rest : List Message) (s : Nat) (ahead : List Nat) :
    Exchange :=
  if e.closed then
    (e.updateSubscription s (·.withdraw p)).setProgress p (.ended (some .closed))
  else
    match e.subscriptions[s]? with
    | none => e.setProgress p (.sending (m :: rest) ahead)
    | some sub =>
      if sub.dropped then
        e.updatePublication p fun q =>
          { q with missed := true, progress := .sending (m :: rest) ahead }
      else if p ∈ sub.granted ∨ (p ∉ sub.waiting ∧ e.hasRoom sub) then
        (e.updateSubscription s (·.accept p m)).setProgress p (.sending (m :: rest) ahead)
      else if p ∈ sub.waiting then e
      else e.updateSubscription s (·.await p)

def advance (e : Exchange) (p : Nat) : Exchange :=
  match e.publications[p]? with
  | none => e
  | some q =>
    match q.progress with
    | .ended _ => e
    | .fresh =>
      if e.closed then e.setProgress p (.ended (some .closed))
      else
        match e.registry.lookup q.topic with
        | none => e.setProgress p (.ended none)
        | some targets =>
          e.updatePublication p fun q =>
            { q with targets, progress := .sending (q.batch.map (·.onTopic q.topic)) targets }
    | .sending [] _ =>
      let e := if q.missed then
          { e with registry := e.registry.prune q.topic fun s => !e.isDropped s }
        else e
      e.setProgress p (.ended none)
    | .sending (_ :: rest) [] => e.setProgress p (.sending rest q.targets)
    | .sending (m :: rest) (s :: ahead) => e.send p m rest s ahead

/-- What a publication returned, if it has. -/
def returned? (e : Exchange) (p : Nat) : Option (Option TransportError) :=
  match e.publications[p]? with
  | some { progress := .ended r, .. } => some r
  | _ => none

end Exchange

end Relay
