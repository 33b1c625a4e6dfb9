import Relay.Pipeline.Call

/-! Everything that one step of a call can do. `Call.Moves` has one case for each way in which a call
    can move, with what it finds and what it makes of the world and of itself; what a step keeps is
    proved from these cases and not from the functions. -/

namespace Relay

/-- What a handler that is called for a message is given. -/
def Handler.Given (h : Handler) (m : Message) (i : Input) : Prop :=
  (h.reads = none ∧ i = .message m) ∨
    ∃ read v, h.reads = some read ∧ unmarshal read m = .ok v ∧ i = .value v

namespace Call

/-- The call behind one more stage. -/
def push (c : Call) (f : Frame) (rest : List Stage) (ctx : Context) (m : Message) : Call :=
  { c with frames := f :: c.frames, phase := .entering rest ctx m }

/-- The call out of its innermost stage. -/
def pop (c : Call) (outer : List Frame) (o : Outcome) : Call := { c with frames := outer, phase := .leaving o }

/-- The world when a call has arrived at its handler. -/
def arrived (c : Call) (task : Nat) (w : World) : World :=
  { w with calls := w.calls.modify c.route (· + 1) }.note task (.entered c.frames.length)

/-- The world when a call has come to its next stage. -/
def reached (c : Call) (task : Nat) (w : World) : World := w.note task (.entered c.frames.length)

/-- The message of a value that a handler sends, and the world afterwards. -/
def posted (task : Nat) (w : World) (ctx : Context) (v : Outgoing) : Context × World :=
  w.startSpan task ctx (v.topic ++ " " ++ match v.role with
    | .command => "send"
    | .event => "publish") .producer

/-- What one step of a call makes of the world and of the call. -/
inductive Moves (task : Nat) (w : World) (c : Call) : World → Call → Prop where
  | stays : Moves task w c w c
  -- At the end of the pipeline.
  | unhandled {ctx : Context} {m : Message} : c.phase = .entering [] ctx m → c.handler = none →
      Moves task w c w (c.goto (.leaving .ok))
  | undecoded {ctx : Context} {m : Message} {h : Handler} {read : Payload → Except ReadFault Value}
      {e : CodecError} : c.phase = .entering [] ctx m → c.handler = some h → h.reads = some read →
      unmarshal read m = .error e → Moves task w c w (c.goto (.leaving (.failed e.toError)))
  | refused {ctx : Context} {m : Message} {h : Handler} {i : Input} {reason : Option String} :
      c.phase = .entering [] ctx m → c.handler = some h → h.Given m i →
      h.play (w.calls[c.route]?.getD 0) ctx i = .refused reason →
      Moves task w c (c.arrived task w) (c.goto (.leaving (.panicked reason)))
  | called {ctx : Context} {m : Message} {h : Handler} {i : Input} {p : Program} :
      c.phase = .entering [] ctx m → c.handler = some h → h.Given m i →
      h.play (w.calls[c.route]?.getD 0) ctx i = .started p →
      Moves task w c
        ((c.arrived task w).note task (.called h.name (w.calls[c.route]?.getD 0) ctx (w.isCancelled ctx) i))
        (c.goto (.acting (w.calls[c.route]?.getD 0) p ctx))
  -- Into a stage.
  | guarded {rest : List Stage} {ctx : Context} {m : Message} :
      c.phase = .entering (.recoverer :: rest) ctx m →
      Moves task w c (c.reached task w) (c.push (.guard m.id m.topic) rest ctx m)
  | marked {rest : List Stage} {ctx : Context} {m : Message} :
      c.phase = .entering (.correlation :: rest) ctx m → (m.metadata.get? correlationKey).getD "" = "" →
      Moves task w c (c.reached task w).draw.2
        (c.push .plain rest ctx (m.withMetadata correlationKey w.draw.1.text))
  | unmarked {rest : List Stage} {ctx : Context} {m : Message} :
      c.phase = .entering (.correlation :: rest) ctx m → (m.metadata.get? correlationKey).getD "" ≠ "" →
      Moves task w c (c.reached task w) (c.push .plain rest ctx m)
  | restored {rest : List Stage} {ctx : Context} {m : Message} :
      c.phase = .entering (.propagation :: rest) ctx m →
      Moves task w c (c.reached task w) (c.push .plain rest (extract { token := ctx.token } m.metadata) m)
  | tried {policy : RetryPolicy} {rest : List Stage} {ctx : Context} {m : Message} :
      c.phase = .entering (.retry policy :: rest) ctx m →
      Moves task w c ((c.reached task w).count c.frames.length fun k => { k with attempts := k.attempts + 1 })
        (c.push (.retry policy 1 ctx m rest) rest ctx m)
  | passed {f : Filter} {rest : List Stage} {ctx ctx' : Context} {m m' : Message} :
      c.phase = .entering (.filter f :: rest) ctx m → f.enter ctx m = .pass ctx' m' →
      Moves task w c (c.reached task w) (c.push (.filter f.leave) rest ctx' m')
  | answered {f : Filter} {rest : List Stage} {ctx : Context} {m : Message} {o : Outcome} :
      c.phase = .entering (.filter f :: rest) ctx m → f.enter ctx m = .answer o →
      Moves task w c ((c.reached task w).note task (.left c.frames.length)) (c.goto (.leaving o))
  | dispatched {role : Role} {handler : String} {rest : List Stage} {ctx : Context} {m : Message} :
      c.phase = .entering (.dispatch role handler :: rest) ctx m →
      Moves task w c ((c.reached task w).startSpan task ctx handler .consumer).2
        (c.push (.dispatch role handler m.id) rest
          ((c.reached task w).startSpan task ctx handler .consumer).1 m)
  -- In the handler.
  | returned {n : Nat} {o : Outcome} {ctx : Context} {h : Handler} {ok : Bool} :
      c.phase = .acting n (.finish o) ctx → c.handler = some h →
      (o = .ok ∧ ok = true ∨ (∃ e, o = .failed e) ∧ ok = false) →
      Moves task w c (w.note task (.returned h.name n ok (w.isCancelled ctx))) (c.goto (.leaving o))
  | brokeOff {n : Nat} {o : Outcome} {ctx : Context} : c.phase = .acting n (.finish o) ctx →
      (c.handler = none ∨ ∃ reason, o = .panicked reason) → Moves task w c w (c.goto (.leaving o))
  | slept {n ms : Nat} {p : Program} {ctx : Context} : c.phase = .acting n (.sleep ms p) ctx →
      Moves task w c (w.setTimer ms).2 (c.goto (.asleep (w.setTimer ms).1 n p ctx))
  | cancelled {n : Nat} {p : Program} {ctx : Context} : c.phase = .acting n (.cancel p) ctx →
      Moves task w c (w.cancel ctx.token) (c.goto (.acting n p ctx))
  | awaited {n : Nat} {p : Program} {ctx : Context} : c.phase = .acting n (.awaitCancel p) ctx →
      Moves task w c w (c.goto (.awaiting n p ctx))
  | unpublished {n : Nat} {topic : String} {drafts : List Draft} {p : Program} {ctx : Context}
      {e : TransportError} : c.phase = .acting n (.publish topic drafts p) ctx →
      (w.fulfil drafts).2.publish .plain topic (w.fulfil drafts).1 = .error e →
      Moves task w c (w.fulfil drafts).2 (c.goto (.acting n (.finish (.failed (.transport e))) ctx))
  | published {n : Nat} {topic : String} {drafts : List Draft} {p : Program} {ctx : Context} {pub : Nat}
      {w' : World} : c.phase = .acting n (.publish topic drafts p) ctx →
      (w.fulfil drafts).2.publish .plain topic (w.fulfil drafts).1 = .ok (pub, w') →
      Moves task w c w' (c.goto (.sending .plain pub .transport n p ctx))
  | unwritten {n : Nat} {v : Outgoing} {p : Program} {ctx : Context} {e : CodecError} :
      c.phase = .acting n (.send v p) ctx →
      marshal v.topic v.written (posted task w ctx v).2.draw.1 = .error e →
      Moves task w c (posted task w ctx v).2 (c.goto (.acting n (.finish (.failed (.publish (.codec e)))) ctx))
  | unsent {n : Nat} {v : Outgoing} {p : Program} {ctx : Context} {m : Message} {e : TransportError} :
      c.phase = .acting n (.send v p) ctx →
      marshal v.topic v.written (posted task w ctx v).2.draw.1 = .ok m →
      (posted task w ctx v).2.draw.2.publish .router v.topic
        [{ m with metadata := inject (posted task w ctx v).1 m.metadata }] = .error e →
      Moves task w c (posted task w ctx v).2.draw.2
        (c.goto (.acting n (.finish (.failed (.publish (.transport e)))) ctx))
  | sent {n : Nat} {v : Outgoing} {p : Program} {ctx : Context} {m : Message} {pub : Nat} {w' : World} :
      c.phase = .acting n (.send v p) ctx →
      marshal v.topic v.written (posted task w ctx v).2.draw.1 = .ok m →
      (posted task w ctx v).2.draw.2.publish .router v.topic
        [{ m with metadata := inject (posted task w ctx v).1 m.metadata }] = .ok (pub, w') →
      Moves task w c w' (c.goto (.sending .router pub (fun e => .publish (.transport e)) n p ctx))
  | woke {t : Timer} {n : Nat} {p : Program} {ctx : Context} : c.phase = .asleep t n p ctx →
      w.isDue t = true → Moves task w c w (c.goto (.acting n p ctx))
  | freed {n : Nat} {p : Program} {ctx : Context} : c.phase = .awaiting n p ctx →
      w.isCancelled ctx = true → Moves task w c w (c.goto (.acting n p ctx))
  | delivered {port : Port} {pub : Nat} {wrap : TransportError → Error} {n : Nat} {p : Program}
      {ctx : Context} : c.phase = .sending port pub wrap n p ctx →
      (w.exchangeOf port).returned? pub = some none → Moves task w c w (c.goto (.acting n p ctx))
  | undelivered {port : Port} {pub : Nat} {wrap : TransportError → Error} {n : Nat} {p : Program}
      {ctx : Context} {e : TransportError} : c.phase = .sending port pub wrap n p ctx →
      (w.exchangeOf port).returned? pub = some (some e) →
      Moves task w c w (c.goto (.acting n (.finish (.failed (wrap e))) ctx))
  | delivers {port : Port} {pub : Nat} {wrap : TransportError → Error} {n : Nat} {p : Program}
      {ctx : Context} : c.phase = .sending port pub wrap n p ctx → (w.exchangeOf port).returned? pub = none →
      Moves task w c (w.setExchange port ((w.exchangeOf port).advance pub)) c
  -- Between two attempts.
  | aborted {t : Timer} {e : Error} {policy : RetryPolicy} {attempt : Nat} {ctx : Context} {m : Message}
      {rest : List Stage} {outer : List Frame} : c.phase = .backoff t e →
      c.frames = .retry policy attempt ctx m rest :: outer → w.isCancelled ctx = true →
      Moves task w c
        (((w.count outer.length fun k => { k with aborted := k.aborted + 1 }).note task
          (.noticed (.retryAborted m.id attempt))).note task (.left outer.length))
        (c.pop outer (.failed e))
  | retried {t : Timer} {e : Error} {policy : RetryPolicy} {attempt : Nat} {ctx : Context} {m : Message}
      {rest : List Stage} {outer : List Frame} : c.phase = .backoff t e →
      c.frames = .retry policy attempt ctx m rest :: outer → w.isCancelled ctx = false → w.isDue t = true →
      Moves task w c
        (w.count outer.length fun k => { k with retries := k.retries + 1, attempts := k.attempts + 1 })
        { c with frames := .retry policy (attempt + 1) ctx m rest :: outer, phase := .entering rest ctx m }
  | strayed {t : Timer} {e : Error} : c.phase = .backoff t e →
      (∀ policy attempt ctx m rest outer, c.frames ≠ .retry policy attempt ctx m rest :: outer) →
      Moves task w c w (c.goto (.leaving (.failed e)))
  -- Out of a stage.
  | recovered {id topic : String} {outer : List Frame} {reason : Option String} :
      c.phase = .leaving (.panicked reason) → c.frames = .guard id topic :: outer →
      Moves task w c
        ((w.note task (.noticed (.panicRecovered id topic (reason.getD unknownReason)))).note task
          (.left outer.length))
        (c.pop outer (.failed (panicError (reason.getD unknownReason))))
  | unwound {f : Frame} {outer : List Frame} {reason : Option String} :
      c.phase = .leaving (.panicked reason) → c.frames = f :: outer → (∀ id topic, f ≠ .guard id topic) →
      Moves task w c (w.note task (.left outer.length)) (c.pop outer (.panicked reason))
  | filtered {g : Outcome → Outcome} {outer : List Frame} {o : Outcome} : c.phase = .leaving o →
      (∀ reason, o ≠ .panicked reason) → c.frames = .filter g :: outer →
      Moves task w c (w.note task (.left outer.length)) (c.pop outer (g o))
  | unretryable {policy : RetryPolicy} {attempt : Nat} {ctx : Context} {m : Message} {rest : List Stage}
      {outer : List Frame} {e : Error} : c.phase = .leaving (.failed e) →
      c.frames = .retry policy attempt ctx m rest :: outer → e.retryable = false →
      Moves task w c (w.note task (.left outer.length)) (c.pop outer (.failed e))
  | backsOff {policy : RetryPolicy} {attempt : Nat} {ctx : Context} {m : Message} {rest : List Stage}
      {outer : List Frame} {e : Error} : c.phase = .leaving (.failed e) →
      c.frames = .retry policy attempt ctx m rest :: outer → e.retryable = true → attempt ≤ policy.waits →
      Moves task w c (w.setTimer (policy.delay attempt)).2
        (c.goto (.backoff (w.setTimer (policy.delay attempt)).1 e))
  | exhausted {policy : RetryPolicy} {attempt : Nat} {ctx : Context} {m : Message} {rest : List Stage}
      {outer : List Frame} {e : Error} : c.phase = .leaving (.failed e) →
      c.frames = .retry policy attempt ctx m rest :: outer → e.retryable = true → policy.waits < attempt →
      Moves task w c
        (((w.count outer.length fun k => { k with exhausted := k.exhausted + 1 }).note task
          (.noticed (.retriesExhausted m.id m.topic attempt e))).note task (.left outer.length))
        (c.pop outer .ok)
  | propagated {role : Role} {handler id : String} {outer : List Frame} {e : Error} :
      c.phase = .leaving (.failed e) → c.frames = .dispatch role handler id :: outer → e.retryable = true →
      Moves task w c (w.note task (.left outer.length)) (c.pop outer (.failed e))
  | swallowed {role : Role} {handler id : String} {outer : List Frame} {e : Error} :
      c.phase = .leaving (.failed e) → c.frames = .dispatch role handler id :: outer → e.retryable = false →
      Moves task w c
        ((w.note task (.noticed (.handlingFailed role handler id e))).note task (.left outer.length))
        (c.pop outer .ok)
  | left {f : Frame} {outer : List Frame} {o : Outcome} : c.phase = .leaving o → c.frames = f :: outer →
      (∀ reason, o ≠ .panicked reason) → (∀ g, f ≠ .filter g) →
      ((∃ e, o = .failed e) → (f = .plain ∨ ∃ id topic, f = .guard id topic)) →
      Moves task w c (w.note task (.left outer.length)) (c.pop outer o)

/-- A call stays on its route and with its handler. -/
theorem Moves.same {task : Nat} {w w' : World} {c c' : Call} (h : c.Moves task w w' c') :
    c'.handler = c.handler ∧ c'.route = c.route := by
  cases h <;> exact ⟨rfl, rfl⟩

theorem enter_moves {task : Nat} {w : World} {c : Call} {s : Stage} {rest : List Stage} {ctx : Context}
    {m : Message} (hp : c.phase = .entering (s :: rest) ctx m) :
    c.Moves task w (c.enter task w s rest ctx m).1 (c.enter task w s rest ctx m).2 := by
  unfold enter
  cases s with
  | recoverer => exact .guarded hp
  | correlation =>
    dsimp only
    split
    · rename_i h
      exact .marked hp h
    · rename_i h
      exact .unmarked hp h
  | propagation => exact .restored hp
  | retry policy => exact .tried hp
  | filter f =>
    dsimp only
    split
    · rename_i h
      exact .passed hp h
    · rename_i h
      exact .answered hp h
  | dispatch role handler => exact .dispatched hp

theorem play_moves {task : Nat} {w : World} {c : Call} {h : Handler} {ctx : Context} {m : Message} {i : Input}
    (hp : c.phase = .entering [] ctx m) (hh : c.handler = some h) (hi : h.Given m i) :
    c.Moves task w (c.play task w h ctx i).1 (c.play task w h ctx i).2 := by
  unfold play
  dsimp only
  split
  · rename_i hr
    exact .refused hp hh hi hr
  · rename_i hr
    exact .called hp hh hi hr

theorem invoke_moves {task : Nat} {w : World} {c : Call} {ctx : Context} {m : Message}
    (hp : c.phase = .entering [] ctx m) :
    c.Moves task w (c.invoke task w ctx m).1 (c.invoke task w ctx m).2 := by
  unfold invoke
  split
  · rename_i hh
    exact .unhandled hp hh
  · rename_i h hh
    split
    · rename_i hr
      exact play_moves hp hh (.inl ⟨hr, rfl⟩)
    · rename_i read hr
      split
      · rename_i e he
        exact .undecoded hp hh hr he
      · rename_i v hv
        exact play_moves hp hh (.inr ⟨read, v, hr, hv, rfl⟩)

theorem act_moves {task : Nat} {w : World} {c : Call} {n : Nat} {p : Program} {ctx : Context}
    (hp : c.phase = .acting n p ctx) : c.Moves task w (c.act task w n p ctx).1 (c.act task w n p ctx).2 := by
  unfold act
  cases p with
  | finish o =>
    dsimp only
    cases hh : c.handler with
    | none => exact .brokeOff hp (.inl hh)
    | some h =>
      cases o with
      | ok => exact .returned hp hh (.inl ⟨rfl, rfl⟩)
      | failed e => exact .returned hp hh (.inr ⟨⟨e, rfl⟩, rfl⟩)
      | panicked reason => exact .brokeOff hp (.inr ⟨reason, rfl⟩)
  | sleep ms next => exact .slept hp
  | cancel next => exact .cancelled hp
  | awaitCancel next => exact .awaited hp
  | publish topic drafts next =>
    dsimp only [follow]
    split
    · rename_i he
      exact .unpublished hp he
    · rename_i he
      exact .published hp he
  | send v next =>
    dsimp only
    split
    · rename_i he
      exact .unwritten hp he
    · rename_i m hm
      dsimp only [follow]
      split
      · rename_i he
        exact .unsent hp hm he
      · rename_i he
        exact .sent hp hm he

theorem resume_moves {task : Nat} {w : World} {c : Call} {t : Timer} {e : Error} (hp : c.phase = .backoff t e) :
    c.Moves task w (c.resume task w t e).1 (c.resume task w t e).2 := by
  unfold resume
  split
  · rename_i policy attempt ctx m rest outer hf
    dsimp only
    split
    · rename_i hc
      exact .aborted hp hf hc
    · rename_i hc
      split
      · rename_i hd
        exact .retried hp hf (Bool.eq_false_iff.mpr hc) hd
      · exact .stays
  · rename_i hf
    exact .strayed hp fun policy attempt ctx m rest outer h => hf _ _ _ _ _ _ h

theorem leave_moves {task : Nat} {w : World} {c : Call} {f : Frame} {outer : List Frame} {o : Outcome}
    (hp : c.phase = .leaving o) (hf : c.frames = f :: outer) :
    c.Moves task w (c.leave task w f outer o).1 (c.leave task w f outer o).2 := by
  unfold leave
  cases o with
  | panicked reason =>
    cases f with
    | guard id topic => exact .recovered hp hf
    | plain | retry _ _ _ _ _ | filter _ | dispatch _ _ _ => exact .unwound hp hf (by simp)
  | ok =>
    cases f with
    | filter g => exact .filtered hp (by simp) hf
    | guard _ _ | plain | retry _ _ _ _ _ | dispatch _ _ _ => exact .left hp hf (by simp) (by simp) (by simp)
  | failed e =>
    cases f with
    | filter g => exact .filtered hp (by simp) hf
    | guard _ _ | plain => exact .left hp hf (by simp) (by simp) (by simp)
    | retry policy attempt ctx m rest =>
      dsimp only
      split
      · rename_i hr
        exact .unretryable hp hf (by simpa using hr)
      · rename_i hr
        split
        · rename_i ha
          exact .backsOff hp hf (by simpa using hr) ha
        · rename_i ha
          exact .exhausted hp hf (by simpa using hr) (Nat.lt_of_not_le ha)
    | dispatch role handler id =>
      dsimp only
      split
      · rename_i hr
        exact .propagated hp hf hr
      · rename_i hr
        exact .swallowed hp hf (Bool.eq_false_iff.mpr hr)

theorem step_moves (task : Nat) (w : World) (c : Call) : c.Moves task w (c.step task w).1 (c.step task w).2 := by
  unfold step
  split
  · rename_i hp
    exact invoke_moves hp
  · rename_i hp
    exact enter_moves hp
  · rename_i hp
    exact act_moves hp
  · rename_i hp
    split
    · rename_i hd
      exact .woke hp hd
    · exact .stays
  · rename_i hp
    split
    · rename_i hc
      exact .freed hp hc
    · exact .stays
  · rename_i hp
    split
    · rename_i hr
      exact .delivered hp hr
    · rename_i hr
      exact .undelivered hp hr
    · rename_i hr
      exact .delivers hp hr
  · rename_i hp
    exact resume_moves hp
  · rename_i o hp
    split
    · exact .stays
    · rename_i hf
      exact leave_moves hp hf

end Call
end Relay
