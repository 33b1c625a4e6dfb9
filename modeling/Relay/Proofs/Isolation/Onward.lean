import Relay.Proofs.Call.Place
import Relay.Proofs.Isolation.Blind
import Relay.Proofs.Isolation.Posting
import Relay.Proofs.Router.Supervisor

/-! Calls that publish and cancel, up to generated identifiers. As long as no publication of its own is held up, a call
    needs to know of the world no more than the time, whether it is cancelled, how often its handler has been called
    and which topics are refused; where these are the same, it takes the same step behind the veil
    (`Call.step_likened`). -/

namespace Relay
variable {drawn : Uuid → Prop}

/-- A world that is the same for a call on route `r` under token `tok`, but draws nothing but the mask, and has nothing
    written down. -/
structure World.Resembles (drawn : Uuid → Prop) (tok : Token) (r : Nat) (w x : World) : Prop where
  clock : x.clock = w.clock
  cancelled : x.tokens.isCancelled tok = w.tokens.isCancelled tok
  made : tok < w.tokens.next ∧ tok < x.tokens.next
  calls : x.calls[r]? = w.calls[r]?
  refused : ∀ port, (x.transportOf port).refusePublish = (w.transportOf port).refusePublish
  hidden : w.ids.Hidden drawn
  masked : x.ids = Supply.masks
  journal : x.journal = []

namespace World
variable {task : Nat} {w w₁ w₂ : World}

/-- Something is done that a call of this task takes no notice of. -/
structure Spared (task : Nat) (w w₁ : World) : Prop where
  tokens : w₁.tokens = w.tokens
  calls : w₁.calls = w.calls
  refused : ∀ port, (w₁.transportOf port).refusePublish = (w.transportOf port).refusePublish
  arrivals : w₁.arrivals task = w.arrivals task

namespace Spared

theorem refl : w.Spared task w := ⟨rfl, rfl, fun _ => rfl, rfl⟩

theorem trans (h : w.Spared task w₁) (h' : w₁.Spared task w₂) : w.Spared task w₂ :=
  ⟨h'.tokens.trans h.tokens, h'.calls.trans h.calls, fun port => (h'.refused port).trans (h.refused port),
    h'.arrivals.trans h.arrivals⟩

theorem note {u : Nat} {e : Event} (h : e.isArrival = false) : w.Spared task (w.note u e) :=
  ⟨rfl, rfl, fun _ => rfl, World.arrivals_note h⟩

theorem draw : w.Spared task w.draw.2 := ⟨rfl, rfl, fun _ => rfl, rfl⟩

theorem setTimer (ms : Nat) : w.Spared task (w.setTimer ms).2 := ⟨rfl, rfl, fun _ => rfl, rfl⟩

theorem startSpan {u : Nat} {ctx : Context} {name : String} {kind : SpanKind} :
    w.Spared task (w.startSpan u ctx name kind).2 :=
  ⟨rfl, rfl, fun _ => rfl, (World.arrivals_note rfl).trans (World.arrivals_congr rfl)⟩

theorem fulfil {ds : List Draft} : w.Spared task (w.fulfil ds).2 := by
  obtain ⟨used, h⟩ := w.fulfil_eq ds
  rw [h]
  exact ⟨rfl, rfl, fun _ => rfl, rfl⟩

theorem setExchange {port : Port} {e : Exchange} : w.Spared task (w.setExchange port e) := by
  unfold World.setExchange
  split
  · rename_i o ha
    refine ⟨rfl, rfl, fun port => ?_, rfl⟩
    cases port with
    | router => rfl
    | plain => simp [World.transportOf, ha]
  · exact ⟨rfl, rfl, fun _ => rfl, rfl⟩

end Spared

theorem Resembles.arrivals {tok : Token} {r u : Nat} {x : World} (h : w.Resembles drawn tok r x) :
    x.arrivals u = [] := by
  rw [World.arrivals, h.journal]
  rfl

end World

/-- The world with other tokens. -/
def World.retold (w : World) (tokens : Tokens) : World := { w with tokens }

theorem Entered.veil {tok : Token} {stages rest : List Stage} {fs : List Frame} (h : Entered tok stages fs rest) :
    Entered tok stages (fs.map (Frame.veil drawn)) rest := by
  induction h with
  | nil => exact .nil
  | guard _ ih => exact .guard ih
  | correlation _ ih => exact .correlation ih
  | propagation _ ih => exact .propagation ih
  | retry _ ht ih => exact .retry ih ht
  | dispatch _ ih => exact .dispatch ih

namespace Call
variable {task task' : Nat} {tok : Token} {stages : List Stage} {w x : World} {c : Call}

/-- The call as it will be when its publication has returned, which it does with an error if the exchange is closed. -/
def onward (closed : Bool) (c : Call) : Call :=
  match c.phase with
  | .sending _ _ wrap n p ctx => c.goto (.acting n (if closed then .finish (.failed (wrap .closed)) else p) ctx)
  | _ => c

theorem onward_of_unsent (h : c.Unsent) (closed : Bool) : c.onward closed = c := by
  unfold onward
  split
  · rename_i hp
    exact absurd hp (h _ _ _ _ _ _)
  · rfl

theorem onward_of_sending {port : Port} {pub : Nat} {wrap : TransportError → Error} {n : Nat} {p : Program}
    {ctx : Context} (h : c.phase = .sending port pub wrap n p ctx) (closed : Bool) :
    c.onward closed = c.goto (.acting n (if closed then .finish (.failed (wrap .closed)) else p) ctx) := by
  rw [onward, h]

@[simp] theorem onward_veil (closed : Bool) : (c.veil drawn).onward closed = (c.onward closed).veil drawn := by
  obtain ⟨route, handler, frames, phase⟩ := c
  cases phase <;> rfl

theorem Unsent.veil (h : c.Unsent) : (c.veil drawn).Unsent := fun port pub wrap n p ctx hp => by
  obtain ⟨route, handler, frames, phase⟩ := c
  cases phase with
  | sending _ _ _ _ _ _ => exact h _ _ _ _ _ _ rfl
  | entering _ _ _ | acting _ _ _ | asleep _ _ _ _ | awaiting _ _ _ | backoff _ _ | leaving _ => cases hp

theorem unacting_veil (h : ∀ n p ctx, c.phase ≠ .acting n p ctx) : ∀ n p ctx, (c.veil drawn).phase ≠ .acting n p ctx :=
    fun n p ctx hp => by
  obtain ⟨route, handler, frames, phase⟩ := c
  cases phase with
  | acting n' p' ctx' => exact h _ _ _ rfl
  | entering _ _ _ | asleep _ _ _ _ | awaiting _ _ _ | sending _ _ _ _ _ _ | backoff _ _ | leaving _ => cases hp

theorem invoke_tokens {ctx : Context} {m : Message} : (c.invoke task w ctx m).1.tokens = w.tokens := by
  have plays : ∀ h i, (c.play task w h ctx i).1.tokens = w.tokens := fun h i => by
    unfold play
    dsimp only
    split <;> rfl
  unfold invoke
  split
  · rfl
  · split
    · exact plays _ _
    · split
      · rfl
      · exact plays _ _

theorem Stands.veil (h : c.Stands tok stages) : (c.veil drawn).Stands tok stages := by
  obtain ⟨route, handler, frames, phase⟩ := c
  cases phase with
  | entering _ _ _ | acting _ _ _ | asleep _ _ _ _ | awaiting _ _ _ | sending _ _ _ _ _ _ => exact ⟨h.1.veil, h.2⟩
  | backoff t e =>
    obtain ⟨policy, n, ctx, m, rest, outer, rfl, he⟩ := h
    exact ⟨policy, n, _, _, rest, _, rfl, he.veil⟩
  | leaving o =>
    obtain ⟨rest, he⟩ := h
    exact ⟨rest, he.veil⟩

/-! ### Other tokens -/

theorem invoke_retold {tokens : Tokens} {ctx : Context} {m : Message} (hctx : ctx.token = tok)
    (ht : tokens.isCancelled tok = x.tokens.isCancelled tok) :
    c.invoke task (x.retold tokens) ctx m = ((c.invoke task x ctx m).1.retold tokens, (c.invoke task x ctx m).2) := by
  have plays : ∀ (h : Handler) (i : Input), c.play task (x.retold tokens) h ctx i =
      ((c.play task x h ctx i).1.retold tokens, (c.play task x h ctx i).2) := fun h i => by
    unfold Call.play
    dsimp only [World.retold]
    cases h.play (x.calls[c.route]?.getD 0) ctx i with
    | refused reason => rfl
    | started p =>
      refine Prod.ext ?_ rfl
      simp only [World.isCancelled, Context.isCancelled, World.note, hctx, ht]
  unfold invoke
  cases c.handler with
  | none => rfl
  | some h =>
    dsimp only
    cases h.reads with
    | none => exact plays h _
    | some read =>
      dsimp only
      cases unmarshal read m with
      | error e => rfl
      | ok v => exact plays h _

theorem enter_retold {tokens : Tokens} {g : Stage} {rest : List Stage} {ctx : Context} {m : Message} :
    c.enter task (x.retold tokens) g rest ctx m =
      ((c.enter task x g rest ctx m).1.retold tokens, (c.enter task x g rest ctx m).2) := by
  cases g with
  | recoverer | propagation | retry _ | dispatch _ _ => rfl
  | correlation =>
    by_cases hm : (m.metadata.get? correlationKey).getD "" = ""
    · simp only [enter, if_pos hm]
      rfl
    · simp only [enter, if_neg hm]
      rfl
  | filter f => cases hf : f.enter ctx m <;> simp [enter, hf] <;> rfl

theorem leave_retold {tokens : Tokens} {f : Frame} {outer : List Frame} {o : Outcome} :
    c.leave task (x.retold tokens) f outer o =
      ((c.leave task x f outer o).1.retold tokens, (c.leave task x f outer o).2) := by
  cases f with
  | plain | guard _ _ | filter _ => cases o <;> rfl
  | dispatch role handler id =>
    cases o with
    | failed e => cases hr : e.retryable <;> simp [leave, hr] <;> rfl
    | ok | panicked _ => rfl
  | retry policy n ctx m rest =>
    cases o with
    | failed e =>
      cases hr : e.retryable
      · simp [leave, hr]
        rfl
      · by_cases hn : n ≤ policy.waits
        · simp [leave, hr, hn]
          exact ⟨rfl, rfl⟩
        · simp [leave, hr, hn]
          rfl
    | ok | panicked _ => rfl

/-- In the tokens, a call looks at its own one only. -/
theorem step_retold {tokens : Tokens} (hs : c.Stands tok stages) (hu : c.Unsent)
    (ha : ∀ n p ctx, c.phase ≠ .acting n p ctx) (ht : tokens.isCancelled tok = x.tokens.isCancelled tok) :
    c.step task (x.retold tokens) = ((c.step task x).1.retold tokens, (c.step task x).2) := by
  have hcancel : ∀ {y : World} {ctx : Context}, y.tokens = x.tokens → ctx.token = tok →
      (y.retold tokens).isCancelled ctx = y.isCancelled ctx := fun hy h => by
    simp only [World.isCancelled, Context.isCancelled, World.retold, h, ht, hy]
  obtain ⟨route, handler, frames, phase⟩ := c
  cases phase with
  | acting n p ctx => exact absurd rfl (ha _ _ _)
  | sending port pub wrap n p ctx => exact absurd rfl (hu _ _ _ _ _ _)
  | entering rest ctx m =>
    cases rest with
    | nil => exact invoke_retold hs.2 ht
    | cons g rest => exact enter_retold
  | asleep t n p ctx =>
    have hdue : (x.retold tokens).isDue t = x.isDue t := rfl
    cases hd : x.isDue t <;> simp [step, hdue, hd]
  | awaiting n p ctx =>
    have hctx : (x.retold tokens).isCancelled ctx = x.isCancelled ctx := hcancel rfl hs.2
    cases hd : x.isCancelled ctx <;> simp [step, hctx, hd]
  | backoff t e =>
    obtain ⟨policy, n, ctx, m, rest, outer, rfl, he⟩ := hs.backoff rfl
    have hctx : (x.retold tokens).isCancelled ctx = x.isCancelled ctx := hcancel rfl he.ahead.2.1
    have hdue : (x.retold tokens).isDue t = x.isDue t := rfl
    cases hc : x.isCancelled ctx
    · cases hd : x.isDue t
      · simp [step, resume, hctx, hc, hdue, hd]
      · simp [step, resume, hctx, hc, hdue, hd]
        rfl
    · simp [step, resume, hctx, hc]
      rfl
  | leaving o =>
    cases frames with
    | nil => rfl
    | cons f outer => exact leave_retold

/-- A call is ready wherever its own token is as it is here. -/
theorem isReady_retold {tokens : Tokens} (hs : c.Stands tok stages) (hu : c.Unsent)
    (ht : tokens.isCancelled tok = x.tokens.isCancelled tok) : c.isReady (x.retold tokens) = c.isReady x := by
  have hcancel : ∀ {ctx : Context}, ctx.token = tok → (x.retold tokens).isCancelled ctx = x.isCancelled ctx :=
    fun h => by simp only [World.isCancelled, Context.isCancelled, World.retold, h, ht]
  obtain ⟨route, handler, frames, phase⟩ := c
  cases phase with
  | entering _ _ _ | acting _ _ _ | asleep _ _ _ _ | leaving _ => rfl
  | awaiting n p ctx => exact hcancel hs.2
  | sending port pub wrap n p ctx => exact absurd rfl (hu _ _ _ _ _ _)
  | backoff t e =>
    obtain ⟨policy, n, ctx, m, rest, outer, rfl, he⟩ := hs.backoff rfl
    exact congrArg (x.isDue t || ·) (hcancel he.ahead.2.1)

/-! ### One step -/

/-- What a step comes to in the open, and what it comes to behind the veil. -/
structure Likened (drawn : Uuid → Prop) (tok : Token) (task task' : Nat) (w : World) (r r' : World × Call) : Prop where
  call : ∀ closed, (r.2.onward closed).veil drawn = (r'.2.onward closed).veil drawn
  cancelled : r'.1.tokens.isCancelled tok = r.1.tokens.isCancelled tok
  calls : r'.1.calls[r.2.route]? = r.1.calls[r.2.route]?
  arrivals : (r.1.arrivals task).map (·.veil drawn) =
    (w.arrivals task).map (·.veil drawn) ++ (r'.1.arrivals task').map (·.veil drawn)

theorem Likened.of_spared {r r' : World × Call} (h : w.Resembles drawn tok c.route x) (hw : w.Spared task r.1)
    (hx : x.Spared task' r'.1) (hr : r.2.route = c.route)
    (hc : ∀ closed, (r.2.onward closed).veil drawn = (r'.2.onward closed).veil drawn) :
    Likened drawn tok task task' w r r' where
  call := hc
  cancelled := by rw [hw.tokens, hx.tokens, h.cancelled]
  calls := by rw [hw.calls, hx.calls, hr, h.calls]
  arrivals := by rw [hw.arrivals, hx.arrivals, h.arrivals, List.map_nil, List.append_nil]

theorem follow_likened {w₁ x₁ : World} {port : Port} {wrap : TransportError → Error} {n : Nat} {next : Program}
    {ctx : Context} {topic : String} {batch batch' : List Message} (h : w.Resembles drawn tok c.route x)
    (hw : w.Spared task w₁) (hx : x.Spared task' x₁) :
    Likened drawn tok task task' w (c.follow w₁ port wrap n next ctx topic batch)
      ((c.veil drawn).follow x₁ port wrap n next (ctx.veil drawn) topic batch') := by
  have hsame : (x₁.transportOf port).refusePublish = (w₁.transportOf port).refusePublish := by
    rw [hw.refused, hx.refused, h.refused]
  unfold follow World.publish
  rw [hsame]
  cases (w₁.transportOf port).refusePublish.get? topic with
  | some reason => exact .of_spared h hw hx rfl fun _ => (veil_veil (c.goto (.acting n _ ctx))).symm
  | none =>
    exact .of_spared h (hw.trans .setExchange) (hx.trans .setExchange) rfl fun closed =>
      (veil_veil (c.goto (.acting n _ ctx))).symm

theorem act_likened {n : Nat} {p : Program} {ctx : Context} (h : w.Resembles drawn tok c.route x)
    (hctx : ctx.token = tok) :
    Likened drawn tok task task' w (c.act task w n p ctx) ((c.veil drawn).act task' x n p (ctx.veil drawn)) := by
  cases p with
  | finish o =>
    obtain ⟨route, handler, frames, phase⟩ := c
    cases handler with
    | none => exact .of_spared h .refl .refl rfl fun _ => (veil_veil _).symm
    | some hd =>
      cases o with
      | panicked reason => exact .of_spared h .refl .refl rfl fun _ => (veil_veil _).symm
      | ok | failed _ => exact .of_spared h (.note rfl) (.note rfl) rfl fun _ => (veil_veil _).symm
  | sleep ms next =>
    refine .of_spared h (.setTimer ms) (.setTimer ms) rfl fun _ => ?_
    show (c.goto _).veil drawn = ((c.veil drawn).goto _).veil drawn
    rw [veil_goto, veil_goto, veil_veil]
    simp only [Phase.veil, World.setTimer, Timer.bare, h.clock, Context.veil_veil]
  | cancel next =>
    have hself : ∀ {t : Tokens}, tok < t.next → (t.cancel ctx.token).isCancelled tok = true := fun ht =>
      hctx.symm ▸ Tokens.isCancelled_cancel_self ht
    refine ⟨fun _ => (veil_veil (c.goto (.acting n next ctx))).symm, ?_, h.calls, ?_⟩
    · exact (hself h.made.2).trans (hself h.made.1).symm
    · show (w.arrivals task).map _ = _ ++ (x.arrivals task').map _
      rw [h.arrivals, List.map_nil, List.append_nil]
  | awaitCancel next => exact .of_spared h .refl .refl rfl fun _ => (veil_veil _).symm
  | publish topic drafts next => exact follow_likened h .fulfil .fulfil
  | send v next =>
    obtain ⟨role, topic, written⟩ := v
    cases written with
    | error reason => exact .of_spared h .startSpan .startSpan rfl fun _ => (veil_veil (c.goto (.acting n _ ctx))).symm
    | ok payload => exact follow_likened h (.trans .startSpan .draw) (.trans .startSpan .draw)

/-- On its way through the stages and at its waits, a call does nothing that it would take notice of. -/
theorem Moves.spared {w' : World} {c' : Call} (h : c.Moves task w w' c') (hq : ∀ ctx m, c.phase ≠ .entering [] ctx m)
    (ha : ∀ n p ctx, c.phase ≠ .acting n p ctx) (hu : c.Unsent) : w.Spared task w' := by
  have quiet : ∀ {x : World}, x.tokens = w.tokens → x.calls = w.calls → x.transport = w.transport → x.aside = w.aside →
      x.arrivals task = w.arrivals task → w.Spared task x := fun ht hc hr hs he =>
    ⟨ht, hc, fun port => by unfold World.transportOf; rw [hr, hs], he⟩
  have harrivals := h.arrivals (u := task) hq
  cases h with
  | unhandled hp _ | undecoded hp _ _ _ | refused hp _ _ _ | called hp _ _ _ => exact absurd hp (hq _ _)
  | returned hp _ _ | brokeOff hp _ | slept hp | cancelled hp | awaited hp | unpublished hp _ | published hp _
  | unwritten hp _ | unsent hp _ _ | sent hp _ _ => exact absurd hp (ha _ _ _)
  | delivered hp _ | undelivered hp _ | delivers hp _ => exact absurd hp (hu _ _ _ _ _ _)
  | stays | guarded _ | marked _ _ | unmarked _ _ | restored _ | tried _ | passed _ _ | answered _ _ | dispatched _
  | woke _ _ | freed _ _ | aborted _ _ _ | retried _ _ _ _ | strayed _ _ | recovered _ _ | unwound _ _ _
  | filtered _ _ _ | unretryable _ _ _ | backsOff _ _ _ _ | exhausted _ _ _ _ | propagated _ _ _ | swallowed _ _ _
  | left _ _ _ _ _ => exact quiet rfl rfl rfl rfl harrivals

/-- Behind the veil a call takes the same step as in the open, unless it waits for a publication. -/
theorem step_likened (hs : c.Stands tok stages) (hn : ∀ f, .filter f ∉ stages) (hu : c.Unsent)
    (hb : ∀ hd, c.handler = some hd → hd.Blind drawn) (h : w.Resembles drawn tok c.route x) :
    Likened drawn tok task task' w (c.step task w) ((c.veil drawn).step task' x) := by
  by_cases ha : ∃ n p ctx, c.phase = .acting n p ctx
  · obtain ⟨n, p, ctx, hp⟩ := ha
    rw [c.step_acting hp, (c.veil drawn).step_acting (congrArg (Phase.veil drawn) hp)]
    exact act_likened h (hs.acting hp).2
  · have hacting : ∀ n p ctx, c.phase ≠ .acting n p ctx := fun n p ctx hp => ha ⟨n, p, ctx, hp⟩
    have hacting' : ∀ n p ctx, (c.veil drawn).phase ≠ .acting n p ctx := unacting_veil hacting
    -- With the same tokens, the step is the same behind the veil.
    have hretold : (c.veil drawn).step task' (x.retold w.tokens) =
        (((c.veil drawn).step task' x).1.retold w.tokens, ((c.veil drawn).step task' x).2) :=
      step_retold hs.veil hu.veil hacting' h.cancelled.symm
    have hmirrors : w.Mirrors drawn c.route (x.retold w.tokens) :=
      ⟨h.clock, rfl, h.calls, h.hidden, h.masked, h.journal⟩
    have hmoves := c.step_moves task w
    have hmoves' := (c.veil drawn).step_moves task' x
    by_cases hq : ∃ ctx m, c.phase = .entering [] ctx m
    · obtain ⟨ctx, m, hp⟩ := hq
      have hp' : (c.veil drawn).phase = .entering [] (ctx.veil drawn) (m.veil drawn) := congrArg (Phase.veil drawn) hp
      have hinvoke : Mirrored drawn task task' w (c.invoke task w ctx m)
          ((c.veil drawn).invoke task' (x.retold w.tokens) (ctx.veil drawn) (m.veil drawn)) := invoke_veil hmirrors hb
      rw [← c.step_entering hp, ← (c.veil drawn).step_entering hp', hretold] at hinvoke
      refine ⟨fun _ => ?_, ?_, hinvoke.calls, hinvoke.arrivals⟩
      · rw [← onward_veil, hinvoke.call, onward_veil]
      · rw [c.step_entering hp, (c.veil drawn).step_entering hp', invoke_tokens, invoke_tokens, h.cancelled]
    · have hquiet : ∀ ctx m, c.phase ≠ .entering [] ctx m := fun ctx m hp => hq ⟨ctx, m, hp⟩
      have hquiet' : ∀ ctx m, (c.veil drawn).phase ≠ .entering [] ctx m := unarrived_veil hquiet
      refine .of_spared h (hmoves.spared hquiet hacting hu) (hmoves'.spared hquiet' hacting' hu.veil) hmoves.same.2
        fun _ => ?_
      have hpass : (c.step task w).2.veil drawn = ((c.veil drawn).step task' (x.retold w.tokens)).2.veil drawn :=
        pass_veil (fun hp f hf => absurd (hf ▸ (hs.entering hp).1.suffix.mem List.mem_cons_self) (hn f)) hquiet hacting
          hu hmirrors
      rw [hretold] at hpass
      rw [← onward_veil, hpass, onward_veil]

theorem isReady_likened (hs : c.Stands tok stages) (hu : c.Unsent) (hclock : x.clock = w.clock)
    (hcancelled : x.tokens.isCancelled tok = w.tokens.isCancelled tok) : (c.veil drawn).isReady x = c.isReady w := by
  have hretold : (c.veil drawn).isReady (x.retold w.tokens) = (c.veil drawn).isReady x :=
    isReady_retold hs.veil hu.veil hcancelled.symm
  rw [← hretold]
  exact isReady_veil hu hclock rfl

theorem Stands.stuck (hs : c.Stands tok stages) (hu : c.Unsent) (ho : c.outcome? = none) (hr : c.isReady w = false) :
    c.step task w = (w, c) :=
  step_of_not_ready hu (fun hp => by
    obtain ⟨policy, n, ctx, m, rest, outer, hf, -⟩ := hs.backoff hp
    exact ⟨policy, n, ctx, m, rest, outer, hf⟩) ho hr

end Call
end Relay
