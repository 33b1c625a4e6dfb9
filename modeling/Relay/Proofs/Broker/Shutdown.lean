import Relay.Proofs.Broker.Chain
import Relay.Proofs.Router.Settled

/-! Shutdown. Once the token of a run is cancelled no handler is called any more, no worker waits for a
    message or for its next attempt, and when the last one has come out of its handler the router is
    closed. -/

namespace Relay

/-- A call is in the same invocation of its handler as before, unless it has just called it. -/
theorem Call.Moves.invocation {task n : Nat} {w w' : World} {c c' : Call} (h : c.Moves task w w' c')
    (hn : c'.invocation? = some n) : c.invocation? = some n ∨ ∃ ctx m, c.phase = .entering [] ctx m := by
  cases h with
  | stays | delivers _ _ => exact .inl hn
  | called hp _ _ _ => exact .inr ⟨_, _, hp⟩
  | slept hp | cancelled hp | awaited hp | unpublished hp _ | published hp _ | unwritten hp _ | unsent hp _ _
  | sent hp _ _ | woke hp _ | freed hp _ | delivered hp _ | undelivered hp _ =>
    rw [invocation?, hp]
    exact .inl hn
  | unhandled _ _ | undecoded _ _ _ _ | refused _ _ _ _ | guarded _ | marked _ _ | unmarked _ _ | restored _ | tried _
  | passed _ _ | answered _ _ | dispatched _ | returned _ _ _ | brokeOff _ _ | aborted _ _ _ | retried _ _ _ _
  | strayed _ _ | recovered _ _ | unwound _ _ _ | filtered _ _ _ | unretryable _ _ _ | backsOff _ _ _ _
  | exhausted _ _ _ _ | propagated _ _ _ | swallowed _ _ _ | left _ _ _ _ _ => cases hn

/-- A worker on the way in runs under a token that has not been cancelled. -/
def Worker.Prompt (w : Worker) (x : World) : Prop :=
  ∀ {m : Message} {c : Call} {rest : List Stage} {ctx : Context} {m' : Message}, w.occupation = .busy m c →
    c.phase = .entering rest ctx m' → x.isCancelled w.context = false

theorem Worker.Moves.prompt {t : Nat} {x x' : World} {w w' : Worker} (hm : w.Moves t x x' w') (hp : w.Prompt x)
    (hs : ∀ sub, x.exchange.subscriptions[w.subscription]? = some sub → sub.token = w.context.token)
    (hc : ∀ {m : Message} {c : Call}, w.occupation = .busy m c → c.Stands w.context.token w.stages) :
    w'.Prompt x' := by
  intro m c rest ctx m' ho' hphase
  cases hm with
  | stays => exact hp ho' hphase
  | takes _ hsub he _ =>
    -- A message is taken only from a subscription that has not ended.
    rw [Exchange.hasEnded, Bool.or_eq_false_iff, hs _ hsub] at he
    exact he.2
  | works ho _ hm =>
    cases ho'
    exact hm.entering_token (hc ho) (fun _ _ _ => hp ho) _ _ _ hphase
  | stops _ _ | succeeds _ _ | fails _ _ _ | breaksOff _ _ => cases ho'

namespace State
variable {p : RetryPolicy} {s s' : State} {o : Op} {t : Nat} {tok : Token}

/-- Every worker on the way in runs under a token that has not been cancelled. -/
def Prompt (s : State) : Prop :=
  ∀ {t : Nat} {w : Worker}, s.tasks[t]? = some (.worker w) → w.Prompt s.world

theorem Prompt.step (hp : s.Prompt) (hi : s.Orderly p) (h : s.Step o s') : s'.Prompt := by
  intro t w' hw'
  rcases h.worker_from hw' with ⟨b, w, -, hw, hm⟩ | ⟨hn, hw | ⟨_, _, _, _, _, _, -, -, -, -, hidle⟩⟩
  · obtain ⟨t₀, base, run, hserving⟩ := hi.course.serving_of_worker hw
    obtain ⟨sub, hsub, -, htoken⟩ := hserving.reads hw
    refine hm.prompt (hp hw) (fun sub' hsub' => ?_) fun ho => (hi.placed.calls hw ho).1
    rw [hsub] at hsub'
    cases hsub'
    exact htoken
  · -- A worker on the way in is not at a wait, so nobody else moves.
    intro m c rest ctx m' ho hphase
    obtain ⟨b, ho'⟩ := h.alone hi.locked hw (by simp [Task.atWait, ho, Call.atWait, hphase])
    exact absurd ho' (hn b)
  · intro m c rest ctx m' ho
    rw [hidle] at ho
    cases ho

/-! ### The run and its token -/

/-- A run of the router is under way under this token: its supervisor is at work, or it has workers. -/
def RunsUnder (s : State) (tok : Token) : Prop :=
  (∃ (t : Nat) (v : Supervision) (run : Context), s.tasks[t]? = some (.run v) ∧ v.run? = some run ∧ run.token = tok) ∨
    ∃ (t : Nat) (w : Worker), s.tasks[t]? = some (.worker w) ∧ w.context.token = tok

/-- All that is under way, or will be, of a run that has begun is under this token. -/
structure Under (tok : Token) (s : State) : Prop where
  started : s.router.started = true
  supervisor : ∀ {t : Nat} {v : Supervision} {run : Context}, s.tasks[t]? = some (.run v) → v.run? = some run →
    run.token = tok
  workers : ∀ {t : Nat} {w : Worker}, s.tasks[t]? = some (.worker w) → w.context.token = tok

/-- The only run that is under way is that of task `t`. -/
theorem supervisor_of_lone {run : Context} {v : Supervision} (ht : s.tasks[t]? = some (.run v))
    (hv : ∀ run', v.run? = some run' → run' = run)
    (hl : ∀ {u : Nat} {v : Supervision}, s.tasks[u]? = some (.run v) → u ≠ t → v.Idle)
    {u : Nat} {v' : Supervision} {run' : Context} (hu : s.tasks[u]? = some (.run v')) (hr : v'.run? = some run') :
    run' = run := by
  by_cases he : u = t
  · subst he
    rw [ht] at hu
    cases hu
    exact hv _ hr
  · rw [(hl hu he).run?] at hr
    cases hr

theorem Course.under (hc : s.Course) (hr : s.RunsUnder tok) : s.Under tok := by
  -- The run is under one token, so it is under this one.
  suffices h : ∃ tok', s.Under tok' by
    obtain ⟨tok', hu⟩ := h
    obtain rfl : tok' = tok := by
      rcases hr with ⟨t, v, run, ht, hv, he⟩ | ⟨t, w, hw, he⟩
      · exact (hu.supervisor ht hv).symm.trans he
      · exact (hu.workers hw).symm.trans he
    exact hu
  cases hc with
  | waiting _ _ hn hi =>
    rcases hr with ⟨t, v, run, ht, hv, -⟩ | ⟨t, w, hw, -⟩
    · rw [(hi ht).run?] at hv
      cases hv
    · exact absurd hw hn
  | @subscribing t run made rest hs =>
    refine ⟨run.token, hs.started, fun hu hv => ?_, fun hw => absurd hw hs.unmanned⟩
    rw [supervisor_of_lone hs.owner (fun _ h => (Option.some.inj h).symm) hs.lone hu hv]
  | @serving t base run hs =>
    refine ⟨run.token, hs.started, fun hu hv => ?_, fun hw => by rw [(hs.serves hw).2.1]⟩
    cases hs.oversees with
    | watching ht _ _ | draining ht _ _ _ =>
      rw [supervisor_of_lone ht (fun _ h => (Option.some.inj h).symm) hs.lone hu hv]
    | ended ht _ _ _ => rw [supervisor_of_lone ht (fun _ h => nomatch h) hs.lone hu hv]
  | failed ho =>
    refine ⟨tok, ho.started, fun ht hv => ?_, fun hw => absurd hw ho.unmanned⟩
    rw [(ho.idle ht).run?] at hv
    cases hv

theorem Under.step (hu : s.Under tok) (h : s.Step o s') : s'.Under tok := by
  rcases h.keeps_or with ⟨hk, -⟩ | ⟨t, v, v', x, r, new, active, ht, hm, rfl⟩
  · refine ⟨hk.started.trans hu.started, fun ht hv => ?_, fun hw' => ?_⟩
    · rcases hk.runs ht with ht | hi
      · exact hu.supervisor ht hv
      · rw [hi.run?] at hv
        cases hv
    · obtain ⟨w, hw, hg⟩ := hk.workers hw'
      rw [hg.context, hu.workers hw]
  · obtain ⟨hst, hrun, hnew⟩ := hm.under hu.started
    refine ⟨hst, fun hu' hv => ?_, fun hw => ?_⟩
    · rcases set_append_back hu' with ⟨-, he⟩ | ⟨-, hu'⟩ | ⟨-, hn⟩
      · cases he
        exact hu.supervisor ht (hrun _ hv)
      · exact hu.supervisor hu' hv
      · obtain ⟨w, he, -⟩ := Task.Moves.new_idle (.run hm) (List.mem_of_getElem? hn)
        cases he
    · rcases set_append_back hw with ⟨-, he⟩ | ⟨-, hw⟩ | ⟨-, hn⟩
      · cases he
      · exact hu.workers hw
      · exact hu.supervisor ht (hnew _ (List.mem_of_getElem? hn))

/-! ### After the cancellation -/

/-- Worker `t` is in the invocation of its handler with this number, for message `m`. -/
def Invoking (s : State) (t : Nat) (m : Message) (n : Nat) : Prop :=
  ∃ w c, s.tasks[t]? = some (.worker w) ∧ w.occupation = .busy m c ∧ c.invocation? = some n

/-- The state of a broker whose run is under a token that has been cancelled. -/
structure Halted (p : RetryPolicy) (tok : Token) (s : State) : Prop where
  orderly : s.Orderly p
  prompt : s.Prompt
  under : s.Under tok
  cancelled : s.world.tokens.isCancelled tok = true

namespace Halted

theorem step (hs : s.Halted p tok) (hk : o.OfBroker) (h : s.Step o s') : s'.Halted p tok :=
  ⟨hs.orderly.step hk h, Prompt.step hs.prompt hs.orderly h, hs.under.step h, h.cancelled hs.cancelled⟩

/-- No worker is on its way in. -/
theorem not_entering (hs : s.Halted p tok) {w : Worker} {m m' : Message} {c : Call} {rest : List Stage}
    {ctx : Context} (hw : s.tasks[t]? = some (.worker w)) (ho : w.occupation = .busy m c) :
    c.phase ≠ .entering rest ctx m' := fun hp => by
  have hc := hs.prompt hw ho hp
  rw [World.isCancelled, Context.isCancelled, hs.under.workers hw, hs.cancelled] at hc
  cases hc

/-- No handler is called any more. -/
theorem invocations (hs : s.Halted p tok) (h : s.Step o s') : s'.world.invocations = s.world.invocations := by
  exact hs.orderly.placed.others.invocations h fun hw ho => hs.not_entering hw ho

theorem invoking_of_moves (hs : s.Halted p tok) {w w' : Worker} {x' : World} {m : Message} {c' : Call} {n : Nat}
    (hw : s.tasks[t]? = some (.worker w)) (hm : w.Moves t s.world x' w') (ho' : w'.occupation = .busy m c')
    (hn : c'.invocation? = some n) : s.Invoking t m n := by
  cases hm with
  | stays => exact ⟨w, c', hw, ho', hn⟩
  | works ho _ hm =>
    cases ho'
    rcases hm.invocation hn with hn | ⟨ctx, m', hp⟩
    · exact ⟨w, _, hw, ho, hn⟩
    · exact absurd hp (hs.not_entering hw ho)
  | takes _ _ _ _ =>
    cases ho'
    cases hn
  | stops _ _ | succeeds _ _ | fails _ _ _ | breaksOff _ _ => cases ho'

/-- A worker in its handler was there before. -/
theorem invoking (hs : s.Halted p tok) (h : s.Step o s') {m : Message} {n : Nat} (hi : s'.Invoking t m n) :
    s.Invoking t m n := by
  obtain ⟨w', c', hw', ho', hn⟩ := hi
  rcases h.worker_from hw' with ⟨b, w, -, hw, hm⟩ | ⟨-, hw | ⟨_, _, _, _, _, _, -, -, -, -, hidle⟩⟩
  · exact hs.invoking_of_moves hw hm ho' hn
  · exact ⟨w', c', hw, ho', hn⟩
  · rw [hidle] at ho'
    cases ho'

/-- When nothing can move any more, a worker has ended or is in its handler. -/
theorem settled (hs : s.Halted p tok) (hset : s.isSettled = true) {w : Worker} (hw : s.tasks[t]? = some (.worker w)) :
    (∃ f, w.occupation = .ended f) ∨ ∃ m n, s.Invoking t m n := by
  have htok := hs.under.workers hw
  rcases settled_worker hset hw with he | ⟨-, hr⟩ | ⟨m, c, ho, ⟨n, hn⟩ | ⟨timer, e, hp, -, hc⟩⟩
  · exact .inl he
  · -- The subscription has ended with the token, so there is something to read.
    obtain ⟨t₀, base, run, hserving⟩ := hs.orderly.course.serving_of_worker hw
    obtain ⟨sub, hsub, -, htoken⟩ := hserving.reads hw
    have hend : s.world.exchange.hasEnded s.world.tokens sub = true := by
      rw [Exchange.hasEnded, htoken, htok, hs.cancelled, Bool.or_true]
    rw [Exchange.isReadable, hsub] at hr
    dsimp only at hr
    rw [hend] at hr
    cases hr
  · exact .inr ⟨m, n, w, c, hw, ho, hn⟩
  · -- A wait for the next attempt is over with the token.
    obtain ⟨hstands, -⟩ := hs.orderly.placed.calls hw ho
    obtain ⟨policy, attempt, ctx, m', rest, outer, hf, he⟩ := hstands.backoff hp
    have hc := hc _ _ _ _ _ _ hf
    rw [hf] at he
    rw [World.isCancelled, Context.isCancelled, he.ahead.2.1, htok, hs.cancelled] at hc
    cases hc

/-- When nothing can move any more and all workers have ended, the router is closed. -/
theorem closed (hs : s.Halted p tok) (hset : s.isSettled = true)
    (he : ∀ {t : Nat} {w : Worker}, s.tasks[t]? = some (.worker w) → ∃ f, w.occupation = .ended f) :
    s.router.lifecycle = .closed ∨
      (∀ {t : Nat} {w : Worker}, s.tasks[t]? ≠ some (.worker w)) ∧ s.world.exchange.isOversized = true := by
  cases hs.orderly.course with
  | waiting hst _ _ _ =>
    rw [hs.under.started] at hst
    cases hst
  | subscribing h => exact nomatch not_ready_of_settled hset h.owner
  | failed h => exact h.lifecycle.imp id fun hl => ⟨h.unmanned, hl.2⟩
  | @serving t₀ base run h =>
    refine .inl ?_
    -- A worker that the supervisor waits for has ended, so the supervisor can see that it has.
    have joined : ∀ {workers : List Nat} {u : Nat}, s.Awaits workers → u ∈ workers → (s.ended? u).isSome := by
      intro workers u ha hu
      obtain ⟨w, hw⟩ := ha.awaited u hu
      obtain ⟨f, hf⟩ := he hw
      simp [ended?, hw, hf, Occupation.ended?]
    cases h.oversees with
    | ended _ hl _ _ => exact hl
    | @watching workers failures ht _ _ =>
      have hr := not_ready_of_settled hset ht
      have hb : s.world.isCancelled run = true := (congrArg _ (hs.under.supervisor ht rfl)).trans hs.cancelled
      simp [Task.isReady, branches, hb] at hr
    | @draining workers failures ht _ _ ha =>
      have hr := not_ready_of_settled hset ht
      cases workers with
      | nil => simp [Task.isReady] at hr
      | cons u workers =>
        have hb : Branch.joined u ∈ s.branches (.draining run (u :: workers) failures) :=
          mem_branches_draining.mpr ⟨List.mem_cons_self, joined ha List.mem_cons_self⟩
        rw [Task.isReady, Bool.or_eq_false_iff, Bool.not_eq_false', List.isEmpty_iff] at hr
        rw [hr.2] at hb
        cases hb

end Halted

theorem Prompt.start (stages : List Stage) (x : World) : (Broker.start stages x).Prompt := by
  intro t w hw
  rw [show (Broker.start stages x).tasks = [] from rfl] at hw
  cases hw

/-- Shutdown. Once the token under which a broker's router runs has been cancelled, no handler is called
    any more; whenever nothing can move after that, each worker has ended or is still in the invocation
    of its handler that it was in when the token was cancelled; and when all have ended the router is
    closed, unless it broke off before it had a worker, at queues that are too long to be made. -/
theorem shutdown {x : World} (h₀ : Runs Op.OfBroker (Broker.start (Broker.defaultStages p) x) s)
    (hr : s.RunsUnder tok) (hc : s.world.tokens.isCancelled tok = true) (h : Runs Op.OfBroker s s') :
    s'.world.invocations = s.world.invocations ∧
      (s'.isSettled = true → ∀ (t : Nat) (w : Worker), s'.tasks[t]? = some (.worker w) →
        (∃ f, w.occupation = .ended f) ∨ ∃ m n, s'.Invoking t m n ∧ s.Invoking t m n) ∧
      (s'.isSettled = true → (∀ t m n, ¬s'.Invoking t m n) → s'.router.lifecycle = .closed ∨
        (∀ (t : Nat) (w : Worker), s'.tasks[t]? ≠ some (.worker w)) ∧ s'.world.exchange.isOversized = true) := by
  have hi : s.Orderly p ∧ s.Prompt :=
    h₀.keeps (P := fun s => s.Orderly p ∧ s.Prompt) ⟨.start p x, Prompt.start _ x⟩
      fun hk h hi => ⟨hi.1.step hk h, Prompt.step hi.2 hi.1 h⟩
  have hs : s.Halted p tok := ⟨hi.1, hi.2, hi.1.course.under hr, hc⟩
  have hs' : s'.Halted p tok ∧ s'.world.invocations = s.world.invocations ∧
      ∀ t m n, s'.Invoking t m n → s.Invoking t m n :=
    h.keeps (P := fun s' => s'.Halted p tok ∧ s'.world.invocations = s.world.invocations ∧
        ∀ t m n, s'.Invoking t m n → s.Invoking t m n) ⟨hs, rfl, fun _ _ _ => id⟩
      fun hk h ⟨hs', hcalls, hin⟩ => ⟨hs'.step hk h, (hs'.invocations h).trans hcalls,
        fun t m n hn => hin t m n (hs'.invoking h hn)⟩
  obtain ⟨hs', hcalls, hin⟩ := hs'
  refine ⟨hcalls, fun hset t w hw => ?_, fun hset hno => ?_⟩
  · exact (hs'.settled hset hw).imp id fun ⟨m, n, hn⟩ => ⟨m, n, hn, hin t m n hn⟩
  · refine (hs'.closed hset fun {t w} hw => ?_).imp id fun ⟨hn, ho⟩ => ⟨fun _ _ => hn, ho⟩
    exact (hs'.settled hset hw).resolve_right fun ⟨m, n, hn⟩ => hno t m n hn

/-- A broker gets a handler that always fails, and its worker comes to wait for the second attempt at a
    message. -/
def tryingOnce : List Op :=
  [Op.addHandlers .command { token := 0 } [{
      role := .command
      type := Broker.flag
      name := "fail"
      play := fun _ _ _ => .finish (.failed (.custom ⟨"busy", .internal, "BUSY", true⟩ [])) }],
    .token, .run { token := 0 }] ++ List.replicate 3 (Op.turn 0 .shutdown) ++
  [Op.publish "flag" [⟨some "a", [1], ∅⟩]] ++ List.replicate 7 (Op.turn 2 .shutdown) ++
  List.replicate 10 (Op.turn 1 .shutdown)

def triedOnce : State := (Broker.sample.replay tryingOnce).getD Broker.sample

/-- The context of the start is cancelled, and with it that of the run. -/
def calledOff : State :=
  { triedOnce with world := { triedOnce.world with tokens := ⟨[⟨none, true⟩, ⟨some 0, true⟩]⟩ } }

def windingUp : List Op :=
  List.replicate 7 (Op.turn 1 .shutdown) ++ [Op.turn 0 .cancelled, .turn 0 (.joined 1), .turn 0 .shutdown]

def woundUp : State := (calledOff.replay windingUp).getD calledOff

theorem triedOnce_called_off : triedOnce.apply (.cancel 0) = calledOff := by
  have ht : triedOnce.world.tokens = ⟨[⟨none, false⟩, ⟨some 0, false⟩]⟩ := rfl
  have h₀ : triedOnce.world.tokens.below 0 0 = true := by
    rw [Tokens.below]
    rfl
  have h₁ : triedOnce.world.tokens.below 0 1 = true := by
    rw [Tokens.below, ht]
    show (if 0 < 1 then triedOnce.world.tokens.below 0 0 else false) = true
    rw [h₀]
    rfl
  have hc : triedOnce.world.tokens.cancel 0 = ⟨[⟨none, true⟩, ⟨some 0, true⟩]⟩ := by
    show (⟨[if triedOnce.world.tokens.below 0 0 then _ else _,
      if triedOnce.world.tokens.below 0 1 then _ else _]⟩ : Tokens) = _
    rw [h₀, h₁]
    rfl
  show { triedOnce with world := { triedOnce.world with tokens := triedOnce.world.tokens.cancel 0 } } = calledOff
  rw [hc]
  rfl

theorem shutdown_in_backoff : Runs Op.OfBroker Broker.sample calledOff ∧ calledOff.RunsUnder 1 ∧
    calledOff.world.tokens.isCancelled 1 = true ∧ Runs Op.OfBroker calledOff woundUp ∧ woundUp.isSettled = true ∧
    woundUp.world.invocations = calledOff.world.invocations ∧ woundUp.router.lifecycle = .closed := by
  have h₀ : Runs Op.OfBroker Broker.sample calledOff := by
    have hr : Runs Op.OfBroker Broker.sample triedOnce :=
      Runs.refl.replay (by decide) (show Broker.sample.replay tryingOnce = some triedOnce from rfl)
    rw [← triedOnce_called_off]
    exact hr.step trivial rfl
  have h : Runs Op.OfBroker calledOff woundUp :=
    Runs.refl.replay (by decide) (show calledOff.replay windingUp = some woundUp from rfl)
  have hr : calledOff.RunsUnder 1 := .inr ⟨1, _, rfl, rfl⟩
  obtain ⟨hcalls, hworkers, hclosed⟩ := shutdown h₀ hr rfl h
  refine ⟨h₀, hr, rfl, h, rfl, hcalls, ?_⟩
  have hidle : woundUp.everyWorker (fun w => w.occupation.ended?.isSome) = true := rfl
  have hno : ∀ t m n, ¬woundUp.Invoking t m n := by
    rintro t m n ⟨w, c, hw, ho, -⟩
    have he := of_everyWorker hidle hw
    rw [ho] at he
    cases he
  exact (hclosed rfl hno).resolve_right fun h => h.1 1 _ rfl

end State
end Relay
