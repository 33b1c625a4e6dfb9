import Relay.World

/-!
One message on its way through a pipeline: in through the stages to the handler, through the handler's
program, and out again. A call moves in small steps. Between most of them nothing else can happen;
where the call waits, or could wait, it says so (`Call.atWait`).
-/

namespace Relay

/-- Where a call stands. -/
inductive Phase where
  /-- On its way in, with the stages that are still ahead. -/
  | entering (rest : List Stage) (c : Context) (m : Message)
  /-- In the handler, which has been called `n` times before. -/
  | acting (n : Nat) (p : Program) (c : Context)
  | asleep (t : Timer) (n : Nat) (p : Program) (c : Context)
  /-- In the handler, waiting for its context to be cancelled. -/
  | awaiting (n : Nat) (p : Program) (c : Context)
  /-- In the handler, waiting for a publication; as what its failure is reported. -/
  | sending (port : Port) (pub : Nat) (wrap : TransportError → Error) (n : Nat) (p : Program) (c : Context)
  /-- In the innermost stage, a retry stage, waiting for the next attempt. -/
  | backoff (t : Timer) (e : Error)
  | leaving (o : Outcome)

/-- A message on its way through a pipeline. -/
structure Call where
  route : Nat
  /-- The handler; without one, the call is a program run for its own sake. -/
  handler : Option Handler
  /-- The stages that it is in, the innermost first. -/
  frames : List Frame := []
  phase : Phase

namespace Call

/-- A call that is about to enter a pipeline. -/
def start (route : Nat) (stages : List Stage) (h : Handler) (c : Context) (m : Message) : Call :=
  { route, handler := some h, phase := .entering stages c m }

def ofProgram (p : Program) (c : Context) : Call :=
  { route := 0, handler := none, phase := .acting 0 p c }

/-- How the call ended, if it has. -/
def outcome? (c : Call) : Option Outcome :=
  match c.phase, c.frames with
  | .leaving o, [] => some o
  | _, _ => none

/-- Whether the call is at a place where it waits or could wait. -/
def atWait (c : Call) : Bool :=
  match c.phase with
  | .asleep .. | .awaiting .. | .sending .. | .backoff .. => true
  | _ => false

def isReady (w : World) (c : Call) : Bool :=
  match c.phase with
  | .asleep t .. => w.isDue t
  | .awaiting _ _ ctx => w.isCancelled ctx
  | .sending port pub .. => !(w.exchangeOf port).isBlocked pub
  | .backoff t _ =>
    w.isDue t ||
      match c.frames with
      | .retry _ _ ctx _ _ :: _ => w.isCancelled ctx
      | _ => false
  | _ => c.outcome?.isNone

def timer? (c : Call) : Option Timer :=
  match c.phase with
  | .asleep t .. | .backoff t _ => some t
  | _ => none

def goto (c : Call) (p : Phase) : Call := { c with phase := p }

/-- Enters a stage: what it remembers, and how the way goes on. -/
def enter (task : Nat) (w : World) (c : Call) (s : Stage) (rest : List Stage) (ctx : Context)
    (m : Message) : World × Call :=
  let place := c.frames.length
  let w := w.note task (.entered place)
  let go (w : World) (f : Frame) (ctx : Context) (m : Message) : World × Call :=
    (w, { c with frames := f :: c.frames, phase := .entering rest ctx m })
  match s with
  | .recoverer => go w (.guard m.id m.topic) ctx m
  | .correlation =>
    if (m.metadata.get? correlationKey).getD "" = "" then
      go w.draw.2 .plain ctx (m.withMetadata correlationKey w.draw.1.text)
    else go w .plain ctx m
  | .propagation => go w .plain (extract { token := ctx.token } m.metadata) m
  | .retry policy =>
    go (w.count place fun k => { k with attempts := k.attempts + 1 })
      (.retry policy 1 ctx m rest) ctx m
  | .filter f =>
    match f.enter ctx m with
    | .pass ctx m => go w (.filter f.leave) ctx m
    | .answer o => (w.note task (.left place), c.goto (.leaving o))
  | .dispatch role handler =>
    let (ctx, w) := w.startSpan task ctx handler .consumer
    go w (.dispatch role handler m.id) ctx m

/-- Calls the handler with what it wants to be given. -/
def play (task : Nat) (w : World) (c : Call) (h : Handler) (ctx : Context) (i : Input) :
    World × Call :=
  let n := w.calls[c.route]?.getD 0
  let w := { w with calls := w.calls.modify c.route (· + 1) }.note task (.entered c.frames.length)
  match h.play n ctx i with
  | .refused reason => (w, c.goto (.leaving (.panicked reason)))
  | .started p =>
    (w.note task (.called h.name n ctx (w.isCancelled ctx) i), c.goto (.acting n p ctx))

def invoke (task : Nat) (w : World) (c : Call) (ctx : Context) (m : Message) : World × Call :=
  match c.handler with
  | none => (w, c.goto (.leaving .ok))
  | some h =>
    match h.reads with
    | none => c.play task w h ctx (.message m)
    | some read =>
      match unmarshal read m with
      | .error e => (w, c.goto (.leaving (.failed e.toError)))
      | .ok v => c.play task w h ctx (.value v)

/-- Waits for a publication that has begun, or ends the handler if it was refused. -/
def follow (w : World) (c : Call) (port : Port) (wrap : TransportError → Error) (n : Nat)
    (next : Program) (ctx : Context) (topic : String) (batch : List Message) : World × Call :=
  match w.publish port topic batch with
  | .error e => (w, c.goto (.acting n (.finish (.failed (wrap e))) ctx))
  | .ok (pub, w) => (w, c.goto (.sending port pub wrap n next ctx))

def act (task : Nat) (w : World) (c : Call) (n : Nat) (p : Program) (ctx : Context) :
    World × Call :=
  match p with
  | .finish o =>
    match c.handler, o with
    | some h, .ok => (w.note task (.returned h.name n true (w.isCancelled ctx)), c.goto (.leaving o))
    | some h, .failed _ =>
      (w.note task (.returned h.name n false (w.isCancelled ctx)), c.goto (.leaving o))
    | _, _ => (w, c.goto (.leaving o))
  | .sleep ms next => (w.setTimer ms |>.2, c.goto (.asleep (w.setTimer ms).1 n next ctx))
  | .cancel next => (w.cancel ctx.token, c.goto (.acting n next ctx))
  | .awaitCancel next => (w, c.goto (.awaiting n next ctx))
  | .publish topic drafts next =>
    let (batch, w) := w.fulfil drafts
    c.follow w .plain .transport n next ctx topic batch
  | .send v next =>
    let operation := match v.role with
      | .command => "send"
      | .event => "publish"
    let (span, w) := w.startSpan task ctx (v.topic ++ " " ++ operation) .producer
    match marshal v.topic v.written w.draw.1 with
    | .error e => (w, c.goto (.acting n (.finish (.failed (.publish (.codec e)))) ctx))
    | .ok m =>
      let m := { m with metadata := inject span m.metadata }
      c.follow w.draw.2 .router (fun e => .publish (.transport e)) n next ctx v.topic [m]

/-- Leaves the innermost stage with an outcome. -/
def leave (task : Nat) (w : World) (c : Call) (f : Frame) (outer : List Frame) (o : Outcome) :
    World × Call :=
  let place := outer.length
  let out (w : World) (o : Outcome) : World × Call :=
    (w.note task (.left place), { c with frames := outer, phase := .leaving o })
  match f, o with
  | .guard id topic, .panicked reason =>
    let reason := reason.getD unknownReason
    out (w.note task (.noticed (.panicRecovered id topic reason))) (.failed (panicError reason))
  | _, .panicked reason => out w (.panicked reason)
  | .filter g, o => out w (g o)
  | .retry policy attempt _ m _, .failed e =>
    if !e.retryable then out w (.failed e)
    else if attempt ≤ policy.waits then
      (w.setTimer (policy.delay attempt) |>.2,
        c.goto (.backoff (w.setTimer (policy.delay attempt)).1 e))
    else
      let w := w.count place fun k => { k with exhausted := k.exhausted + 1 }
      out (w.note task (.noticed (.retriesExhausted m.id m.topic attempt e))) .ok
  | .dispatch role handler id, .failed e =>
    if e.retryable then out w (.failed e)
    else out (w.note task (.noticed (.handlingFailed role handler id e))) .ok
  | _, o => out w o

/-- Goes on after the wait for the next attempt, if it is over: it has been cut short if the context
is cancelled, even if the time has come as well. -/
def resume (task : Nat) (w : World) (c : Call) (t : Timer) (e : Error) : World × Call :=
  match c.frames with
  | .retry policy attempt ctx m rest :: outer =>
    let place := outer.length
    if w.isCancelled ctx then
      let w := w.count place fun k => { k with aborted := k.aborted + 1 }
      let w := w.note task (.noticed (.retryAborted m.id attempt))
      (w.note task (.left place), { c with frames := outer, phase := .leaving (.failed e) })
    else if w.isDue t then
      (w.count place fun k => { k with retries := k.retries + 1, attempts := k.attempts + 1 },
        { c with
          frames := .retry policy (attempt + 1) ctx m rest :: outer
          phase := .entering rest ctx m })
    else (w, c)
  | _ => (w, c.goto (.leaving (.failed e)))

/-- One step of a call. A call that cannot move on stays as it is. -/
def step (task : Nat) (w : World) (c : Call) : World × Call :=
  match c.phase with
  | .entering [] ctx m => c.invoke task w ctx m
  | .entering (s :: rest) ctx m => c.enter task w s rest ctx m
  | .acting n p ctx => c.act task w n p ctx
  | .asleep t n p ctx => if w.isDue t then (w, c.goto (.acting n p ctx)) else (w, c)
  | .awaiting n p ctx => if w.isCancelled ctx then (w, c.goto (.acting n p ctx)) else (w, c)
  | .sending port pub wrap n p ctx =>
    match (w.exchangeOf port).returned? pub with
    | some none => (w, c.goto (.acting n p ctx))
    | some (some e) => (w, c.goto (.acting n (.finish (.failed (wrap e))) ctx))
    | none => (w.setExchange port ((w.exchangeOf port).advance pub), c)
  | .backoff t e => c.resume task w t e
  | .leaving o =>
    match c.frames with
    | [] => (w, c)
    | f :: outer => c.leave task w f outer o

end Call

end Relay
