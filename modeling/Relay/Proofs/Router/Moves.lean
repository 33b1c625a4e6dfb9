import Relay.Proofs.Call.Moves
import Relay.Router.Step

/-! Everything that one step of a task can do: one case for each way in which a worker, a supervisor or
    a caller can move, with what it finds. A task changes the world, the router and itself, and only a
    supervisor begins other tasks (`State.micro_moves`). -/

namespace Relay

namespace State

/-- The state after a task has moved. -/
def moved (s : State) (t : Nat) (x : World) (r : Router) (new : List Task) (k : Task) : State :=
  { s with world := x, router := r, tasks := s.tasks.set t k ++ new }

/-- The world after a failure of the router has been reported. -/
def reported (s : State) (t : Nat) (e : LifecycleError) : World :=
  if s.broker then s.world.note t (.noticed (.routerFailed (.broker .runRouter (.lifecycle e)))) else s.world

/-- How somebody is told of a failure of the router: a broker speaks in its own name. -/
def verdict (s : State) (e : LifecycleError) : Outcome :=
  .failed (if s.broker then .broker .runRouter (.lifecycle e) else .lifecycle e)

theorem report_eq (s : State) (t : Nat) (e : LifecycleError) :
    s.report t e = (s.verdict e, { s with world := s.reported t e }) := by
  obtain ⟨x, r, broker, tasks, active⟩ := s
  cases broker <;> rfl

theorem setTask_self {s : State} {t : Nat} {k : Task} (h : s.tasks[t]? = some k) : s.setTask t k = s := by
  obtain ⟨ht, rfl⟩ := List.getElem?_eq_some_iff.mp h
  simp [setTask]

end State

/-! ### Workers -/

/-- What one step of a worker makes of the world and of the worker. -/
inductive Worker.Moves (t : Nat) (x : World) (w : Worker) : World → Worker → Prop where
  | stays : Moves t x w x w
  | takes {sub : Subscription} {m : Message} {rest : List Message} : w.occupation = .idle →
      x.exchange.subscriptions[w.subscription]? = some sub → x.exchange.hasEnded x.tokens sub = false →
      sub.queue = m :: rest →
      Moves t x w
        ({ x with exchange := x.exchange.updateSubscription w.subscription (·.take m rest) }.note t
          (.taken w.route m))
        { w with occupation := .busy m (.start w.route w.stages w.handler w.context m) }
  | stops : w.occupation = .idle →
      (∀ sub, x.exchange.subscriptions[w.subscription]? = some sub → x.exchange.hasEnded x.tokens sub = true) →
      Moves t x w { x with exchange := x.exchange.drop w.subscription } { w with occupation := .ended w.lastError }
  | works {m : Message} {c c' : Call} {x' : World} : w.occupation = .busy m c → c.outcome? = none →
      c.Moves t x x' c' → Moves t x w x' { w with occupation := .busy m c' }
  | succeeds {m : Message} {c : Call} : w.occupation = .busy m c → c.outcome? = some .ok →
      Moves t x w (x.note t (.settled w.route m .ok)) { w with lastError := none, occupation := .idle }
  | fails {m : Message} {c : Call} {e : Error} {lastError : Option String} : w.occupation = .busy m c →
      c.outcome? = some (.failed e) →
      lastError = (if e.retryable then some (w.name ++ ": " ++ e.message) else none) →
      Moves t x w
        ((x.note t (.settled w.route m (.failed e))).note t (.noticed (.messageFailed w.name w.topic m.id e)))
        { w with lastError, occupation := .idle }
  | breaksOff {m : Message} {c : Call} {reason : Option String} : w.occupation = .busy m c →
      c.outcome? = some (.panicked reason) →
      Moves t x w
        ({ x.note t (.settled w.route m (.panicked reason)) with
          exchange := x.exchange.drop w.subscription }.note t (.noticed (.workerPanicked w.name)))
        { w with occupation := .ended (some (w.name ++ ": worker panicked")) }

/-! ### The supervisor -/

/-- What one step of a supervisor makes of the world, the router and itself, and the tasks that it
    begins. -/
inductive Supervision.Moves (s : State) (t : Nat) (v : Supervision) :
    World → Router → List Task → Supervision → Prop where
  | stays : Moves s t v s.world s.router [] v
  | rejected {c : Context} : v = .fresh c → s.router.started = true →
      Moves s t v (s.reported t .alreadyRunning) s.router [] (.ended (s.verdict .alreadyRunning))
  | begins {c : Context} : v = .fresh c → s.router.started = false →
      Moves s t v { s.world with tokens := s.world.tokens.derive c.token } { s.router with started := true } []
        (.subscribing { c with token := s.world.tokens.next } [] (List.range s.router.routes.length))
  | skips {run : Context} {made : List (Nat × Nat)} {r : Nat} {rest : List Nat} :
      v = .subscribing run made (r :: rest) → s.router.routes[r]? = none →
      Moves s t v s.world s.router [] (.subscribing run made rest)
  | subscribes {run : Context} {made : List (Nat × Nat)} {r : Nat} {rest : List Nat} {route : Route} {sub : Nat}
      {x : World} : v = .subscribing run made (r :: rest) → s.router.routes[r]? = some route →
      s.world.subscribe .router run.token route.topic = .ok (sub, x) →
      Moves s t v x s.router [] (.subscribing run (made ++ [(r, sub)]) rest)
  | declined {run : Context} {made : List (Nat × Nat)} {r : Nat} {rest : List Nat} {route : Route}
      {e : TransportError} {x : World} : v = .subscribing run made (r :: rest) →
      s.router.routes[r]? = some route →
      s.world.subscribe .router run.token route.topic = .error (.refused e) →
      x = { (s.note t (.noticed (.subscribeFailed route.name route.topic e))).world.cancel run.token with
        exchange := made.foldl (fun x m => x.drop m.2) s.world.exchange } →
      Moves s t v ({ s with world := x }.reported t (.subscribe route.topic e))
        { s.router with lifecycle := .closed } [] (.ended (s.verdict (.subscribe route.topic e)))
  | breaksOff {run : Context} {made : List (Nat × Nat)} {r : Nat} {rest : List Nat} {route : Route} :
      v = .subscribing run made (r :: rest) → s.router.routes[r]? = some route →
      s.world.subscribe .router run.token route.topic = .error .brokeOff →
      Moves s t v { s.world with exchange := made.foldl (fun x m => x.drop m.2) s.world.exchange } s.router []
        (.ended (.panicked none))
  | serves {run : Context} {made : List (Nat × Nat)} {workers : List Task} : v = .subscribing run made [] →
      workers = made.filterMap (fun m => s.workerFor run m.1 m.2) →
      Moves s t v s.world { s.router with lifecycle := .running } workers
        (.watching run ((List.range workers.length).map (s.tasks.length + ·)) [])
  | joins {run : Context} {workers : List Nat} {failures : List String} {w : Nat} :
      v = .watching run workers failures → w ∈ workers → (s.ended? w).isSome → workers.erase w ≠ [] →
      Moves s t v s.world s.router [] (.watching run (workers.erase w) (s.record failures w))
  | drains {run : Context} {workers workers' : List Nat} {failures failures' : List String} :
      v = .watching run workers failures →
      (workers' = workers ∧ failures' = failures ∧ (s.world.isCancelled run = true ∨ s.router.shutdown = true) ∨
        ∃ w ∈ workers, (s.ended? w).isSome ∧ workers' = workers.erase w ∧ workers' = [] ∧
          failures' = s.record failures w) →
      Moves s t v (s.world.cancel run.token) { s.router with lifecycle := .draining } []
        (.draining run workers' failures')
  | awaits {run : Context} {workers : List Nat} {failures : List String} {w : Nat} :
      v = .draining run workers failures → w ∈ workers → (s.ended? w).isSome →
      Moves s t v s.world s.router [] (.draining run (workers.erase w) (s.record failures w))
  | finishes {run : Context} {failures : List String} {x : World} : v = .draining run [] failures →
      x = (if failures.isEmpty then s.world else s.world.note t (.noticed (.workersFailed failures))) →
      Moves s t v x { s.router with lifecycle := .closed, failures := s.router.failures ++ failures } []
        (.ended .ok)

/-! ### Callers -/

/-- What one step of a caller that closes the router makes of the world, the router and itself. -/
inductive Closing.Moves (s : State) (t : Nat) (c : Closing) : World → Router → Closing → Prop where
  | stays : Moves s t c s.world s.router c
  | tells : c = .fresh → s.router.started = true →
      Moves s t c s.world { s.router with shutdown := true } .waiting
  | rejected : c = .fresh → s.router.started = false →
      Moves s t c (s.reported t .notStarted) s.router (.ended (s.verdict .notStarted))
  | returns : c = .waiting → s.router.lifecycle = .closed → s.router.failures = [] →
      Moves s t c s.world { s.router with failures := [] } (.ended .ok)
  | fails : c = .waiting → s.router.lifecycle = .closed → s.router.failures ≠ [] →
      Moves s t c (s.reported t (.workers (s.router.failures.mergeSort (· ≤ ·)))) { s.router with failures := [] }
        (.ended (s.verdict (.workers (s.router.failures.mergeSort (· ≤ ·)))))

/-- What one step of a task makes of the world, the router and itself, and the tasks that it begins. -/
inductive Task.Moves (s : State) (t : Nat) : Task → World → Router → List Task → Task → Prop where
  | stays {k : Task} : Moves s t k s.world s.router [] k
  | worker {w w' : Worker} {x : World} : w.Moves t s.world x w' →
      Moves s t (.worker w) x s.router [] (.worker w')
  | run {v v' : Supervision} {x : World} {r : Router} {new : List Task} : v.Moves s t x r new v' →
      Moves s t (.run v) x r new (.run v')
  | close {c c' : Closing} {x : World} {r : Router} : c.Moves s t x r c' →
      Moves s t (.close c) x r [] (.close c')
  | learns {done : Bool} : s.router.lifecycle ≠ .notStarted →
      Moves s t (.awaitStart done) s.world s.router [] (.awaitStart true)
  | call {c c' : Call} {x : World} : c.Moves t s.world x c' → Moves s t (.call c) x s.router [] (.call c')
  | errand {e : Errand} {c c' : Call} {x : World} : c.outcome? = none → c.Moves t s.world x c' →
      Moves s t (.errand e c none) x s.router [] (.errand e c' none)
  | unsent {e : Errand} {c : Call} {cause error : Error} : c.outcome? = some (.failed cause) →
      Moves s t (.errand e c none) (s.world.note t (.noticed (.sendFailed e.role e.correlationId e.topic error)))
        s.router [] (.errand e c (some (.failed error)))
  | sent {e : Errand} {c : Call} {o : Outcome} : c.outcome? = some o →
      Moves s t (.errand e c none) s.world s.router [] (.errand e c (some o))
  | rings {timer : Timer} {token : Token} : s.world.isDue timer = true →
      Moves s t (.alarm timer token false) (s.world.cancel token) s.router [] (.alarm timer token true)

namespace State
variable {s : State} {t : Nat}

theorem moved_self {k : Task} (h : s.tasks[t]? = some k) : s.moved t s.world s.router [] k = s := by
  show (⟨s.world, s.router, s.broker, s.tasks.set t k ++ [], s.active⟩ : State) = s
  rw [List.append_nil, show s.tasks.set t k = s.tasks from congrArg State.tasks (setTask_self h)]

theorem moved_nil {x : World} {r : Router} {k : Task} :
    s.moved t x r [] k = { s with world := x, router := r }.setTask t k := by
  simp [moved, setTask]

theorem settle_moves {w : Worker} {m : Message} {c : Call} {o : Outcome} (hw : w.occupation = .busy m c)
    (ho : c.outcome? = some o) :
    ∃ x w', w.Moves t s.world x w' ∧ s.settle t w m o = { s with world := x }.setTask t (.worker w') := by
  cases o with
  | ok => exact ⟨_, _, .succeeds hw ho, rfl⟩
  | failed e => exact ⟨_, _, .fails hw ho rfl, rfl⟩
  | panicked reason => exact ⟨_, _, .breaksOff hw ho, rfl⟩

theorem microWorker_moves {w : Worker} (h : s.tasks[t]? = some (.worker w)) :
    ∃ x w', w.Moves t s.world x w' ∧ s.microWorker t w = { s with world := x }.setTask t (.worker w') := by
  unfold microWorker
  cases hw : w.occupation with
  | idle =>
    dsimp only
    unfold Exchange.poll
    cases hs : s.world.exchange.subscriptions[w.subscription]? with
    | none =>
      refine ⟨_, _, .stops hw fun sub h => ?_, rfl⟩
      rw [hs] at h
      cases h
    | some sub =>
      dsimp only
      by_cases he : s.world.exchange.hasEnded s.world.tokens sub = true
      · rw [if_pos he]
        refine ⟨_, _, .stops hw fun sub' h => ?_, rfl⟩
        rw [hs] at h
        cases h
        exact he
      · rw [if_neg he]
        cases hq : sub.queue with
        | nil => exact ⟨_, _, .stays, (setTask_self h).symm⟩
        | cons m rest => exact ⟨_, _, .takes hw hs (Bool.eq_false_iff.mpr he) hq, rfl⟩
  | busy m c =>
    dsimp only
    cases ho : c.outcome? with
    | some o => exact settle_moves hw ho
    | none => exact ⟨_, _, .works hw ho (c.step_moves t s.world), rfl⟩
  | ended failure => exact ⟨_, _, .stays, (setTask_self h).symm⟩

theorem microWorker_stops {w : Worker} {sub : Subscription} (t : Nat) (hi : w.occupation = .idle)
    (hs : s.world.exchange.subscriptions[w.subscription]? = some sub)
    (he : s.world.exchange.hasEnded s.world.tokens sub = true) : s.microWorker t w =
      { s with world := { s.world with exchange := s.world.exchange.drop w.subscription } }.setTask t
        (.worker { w with occupation := .ended w.lastError }) := by
  simp [microWorker, hi, Exchange.poll, hs, he]

theorem microWorker_waits {w : Worker} {sub : Subscription} (t : Nat) (hi : w.occupation = .idle)
    (hs : s.world.exchange.subscriptions[w.subscription]? = some sub)
    (he : s.world.exchange.hasEnded s.world.tokens sub = false) (hq : sub.queue = []) : s.microWorker t w = s := by
  simp [microWorker, hi, Exchange.poll, hs, he, hq]

theorem microWorker_takes {w : Worker} {sub : Subscription} {m : Message} {rest : List Message} (t : Nat)
    (hi : w.occupation = .idle) (hs : s.world.exchange.subscriptions[w.subscription]? = some sub)
    (he : s.world.exchange.hasEnded s.world.tokens sub = false) (hq : sub.queue = m :: rest) : s.microWorker t w =
      { s with world := { s.world with exchange :=
        s.world.exchange.updateSubscription w.subscription (·.take m rest) }.note t (.taken w.route m) }.setTask t
        (.worker { w with occupation := .busy m (.start w.route w.stages w.handler w.context m) }) := by
  simp [microWorker, hi, Exchange.poll, hs, he, hq, note]

theorem turn_worker {x : World} {w w' : Worker} (b : Branch) (ht : s.tasks[t]? = some (.worker w))
    (hm : s.microWorker t w = { s with world := x }.setTask t (.worker w')) :
    ∃ active, s.apply (.turn t b) = { s.moved t x s.router [] (.worker w') with active } := by
  have hmicro : s.micro t b = s.moved t x s.router [] (.worker w') := by
    rw [micro, ht, moved_nil]
    exact hm
  exact ⟨_, by rw [apply, turn, hmicro]⟩

/-- A worker that cannot move stays as it is. -/
theorem turn_stays {w : Worker} (b : Branch) (ht : s.tasks[t]? = some (.worker w)) (hm : s.microWorker t w = s) :
    ∃ active, s.apply (.turn t b) = { s with active } := by
  have hself : s.microWorker t w = { s with world := s.world }.setTask t (.worker w) := hm.trans (setTask_self ht).symm
  obtain ⟨active, he⟩ := turn_worker b ht hself
  exact ⟨active, by rw [he, moved_self ht]⟩

theorem mem_branches_watching {run : Context} {workers : List Nat} {failures : List String} {w : Nat} :
    .joined w ∈ s.branches (.watching run workers failures) ↔ w ∈ workers ∧ (s.ended? w).isSome := by
  simp [branches]

theorem mem_branches_draining {run : Context} {workers : List Nat} {failures : List String} {w : Nat} :
    .joined w ∈ s.branches (.draining run workers failures) ↔ w ∈ workers ∧ (s.ended? w).isSome := by
  simp [branches]

theorem subscribeRoute_moves (s : State) (t : Nat) (run : Context) (made : List (Nat × Nat)) (r : Nat)
    (rest : List Nat) :
    ∃ x r' v', Supervision.Moves s t (.subscribing run made (r :: rest)) x r' [] v' ∧
      s.subscribeRoute t run made r rest = s.moved t x r' [] (.run v') := by
  unfold subscribeRoute
  cases hr : s.router.routes[r]? with
  | none => exact ⟨_, _, _, .skips rfl hr, moved_nil.symm⟩
  | some route =>
    dsimp only
    cases hs : s.world.subscribe .router run.token route.topic with
    | ok made => exact ⟨_, _, _, .subscribes rfl hr hs, moved_nil.symm⟩
    | error fault =>
      cases fault with
      | brokeOff => exact ⟨_, _, _, .breaksOff rfl hr hs, moved_nil.symm⟩
      | refused e =>
        dsimp only
        rw [report_eq]
        exact ⟨_, _, _, .declined rfl hr hs rfl, moved_nil.symm⟩

theorem drain_moves {run : Context} {workers : List Nat} {failures : List String} :
    s.drain t run workers failures =
      s.moved t (s.world.cancel run.token) { s.router with lifecycle := .draining } []
        (.run (.draining run workers failures)) := moved_nil.symm

theorem microRun_moves {v : Supervision} (b : Branch) (h : s.tasks[t]? = some (.run v)) :
    ∃ x r new v', v.Moves s t x r new v' ∧ s.microRun t v b = s.moved t x r new (.run v') := by
  have ht : t < s.tasks.length := (List.getElem?_eq_some_iff.mp h).1
  have stays : ∃ x r new v', v.Moves s t x r new v' ∧ s = s.moved t x r new (.run v') :=
    ⟨_, _, _, _, .stays, (moved_self h).symm⟩
  cases v with
  | fresh c =>
    unfold microRun
    dsimp only
    by_cases hst : s.router.started = true
    · rw [if_pos hst, report_eq]
      exact ⟨_, _, _, _, .rejected rfl hst, moved_nil.symm⟩
    · rw [if_neg hst]
      exact ⟨_, _, _, _, .begins rfl (Bool.eq_false_iff.mpr hst), moved_nil.symm⟩
  | subscribing run made rest =>
    cases rest with
    | cons r rest =>
      obtain ⟨x, r', v', hm, he⟩ := subscribeRoute_moves s t run made r rest
      exact ⟨x, r', [], v', hm, he⟩
    | nil =>
      refine ⟨_, _, _, _, .serves rfl rfl, ?_⟩
      simp [microRun, moved, setTask, ht]
  | watching run workers failures =>
    unfold microRun
    dsimp only
    by_cases hb : b ∈ s.branches (.watching run workers failures)
    · rw [if_pos hb]
      cases b with
      | cancelled =>
        have hc : s.world.isCancelled run = true := by simpa [branches] using hb
        exact ⟨_, _, _, _, .drains rfl (.inl ⟨rfl, rfl, .inl hc⟩), drain_moves⟩
      | shutdown =>
        have hc : s.router.shutdown = true := by simpa [branches] using hb
        exact ⟨_, _, _, _, .drains rfl (.inl ⟨rfl, rfl, .inr hc⟩), drain_moves⟩
      | joined w =>
        obtain ⟨hw, he⟩ := mem_branches_watching.mp hb
        dsimp only
        by_cases hl : (workers.erase w).isEmpty = true
        · rw [if_pos hl]
          exact ⟨_, _, _, _, .drains rfl (.inr ⟨w, hw, he, rfl, List.isEmpty_iff.mp hl, rfl⟩), drain_moves⟩
        · rw [if_neg hl]
          exact ⟨_, _, _, _, .joins rfl hw he fun hn => hl (List.isEmpty_iff.mpr hn), moved_nil.symm⟩
    · rw [if_neg hb]
      exact stays
  | draining run workers failures =>
    unfold microRun
    cases workers with
    | nil =>
      refine ⟨_, _, _, _, .finishes rfl rfl, ?_⟩
      rw [moved_nil]
      cases failures <;> rfl
    | cons head workers =>
      cases b with
      | cancelled | shutdown => exact stays
      | joined w =>
        dsimp only
        by_cases hb : .joined w ∈ s.branches (.draining run (head :: workers) failures)
        · rw [if_neg (by simp), if_pos hb]
          obtain ⟨hw, he⟩ := mem_branches_draining.mp hb
          exact ⟨_, _, _, _, .awaits rfl hw he, moved_nil.symm⟩
        · rw [if_neg (by simp), if_neg hb]
          exact stays
  | ended o => exact stays

theorem microClose_moves {c : Closing} (h : s.tasks[t]? = some (.close c)) :
    ∃ x r c', c.Moves s t x r c' ∧ s.microClose t c = s.moved t x r [] (.close c') := by
  have stays : ∃ x r c', c.Moves s t x r c' ∧ s = s.moved t x r [] (.close c') :=
    ⟨_, _, _, .stays, (moved_self h).symm⟩
  cases c with
  | fresh =>
    unfold microClose
    by_cases hst : s.router.started = true
    · rw [if_pos hst]
      exact ⟨_, _, _, .tells rfl hst, moved_nil.symm⟩
    · rw [if_neg hst, report_eq]
      exact ⟨_, _, _, .rejected rfl (Bool.eq_false_iff.mpr hst), moved_nil.symm⟩
  | waiting =>
    unfold microClose
    by_cases hl : s.router.lifecycle = .closed
    · rw [if_pos hl]
      dsimp only
      by_cases hf : s.router.failures = []
      · rw [if_pos (by simp [hf])]
        exact ⟨_, _, _, .returns rfl hl hf, moved_nil.symm⟩
      · rw [if_neg (by simpa using fun hn => hf (List.eq_nil_of_length_eq_zero (by
          simpa using congrArg List.length hn))), report_eq]
        exact ⟨_, _, _, .fails rfl hl hf, moved_nil.symm⟩
    · rw [if_neg hl]
      exact stays
  | ended o => exact stays

theorem conclude_moves {e : Errand} {c : Call} {o : Outcome} (ho : c.outcome? = some o) :
    ∃ x k', Task.Moves s t (.errand e c none) x s.router [] k' ∧ s.conclude t e c o = s.moved t x s.router [] k' := by
  cases o with
  | failed cause => exact ⟨_, _, .unsent ho, moved_nil.symm⟩
  | ok | panicked _ => exact ⟨_, _, .sent ho, moved_nil.symm⟩

/-- A task that there is moves in one of these ways. -/
theorem micro_moves {k : Task} (b : Branch) (h : s.tasks[t]? = some k) :
    ∃ x r new k', k.Moves s t x r new k' ∧ s.micro t b = s.moved t x r new k' := by
  have stays : ∃ x r new k', k.Moves s t x r new k' ∧ s = s.moved t x r new k' :=
    ⟨_, _, _, _, .stays, (moved_self h).symm⟩
  unfold micro
  rw [h]
  cases k with
  | worker w =>
    obtain ⟨x, w', hm, he⟩ := microWorker_moves h
    exact ⟨_, _, _, _, .worker hm, by rw [moved_nil]; exact he⟩
  | run v =>
    obtain ⟨x, r, new, v', hm, he⟩ := microRun_moves b h
    exact ⟨_, _, _, _, .run hm, he⟩
  | close c =>
    obtain ⟨x, r, c', hm, he⟩ := microClose_moves h
    exact ⟨_, _, _, _, .close hm, he⟩
  | awaitStart done =>
    dsimp only
    by_cases hl : s.router.lifecycle = .notStarted
    · rw [if_pos hl]
      exact stays
    · rw [if_neg hl]
      exact ⟨_, _, _, _, .learns hl, moved_nil.symm⟩
  | call c => exact ⟨_, _, _, _, .call (c.step_moves t s.world), moved_nil.symm⟩
  | errand e c o =>
    cases o with
    | some o => exact stays
    | none =>
      dsimp only
      cases ho : c.outcome? with
      | some o =>
        obtain ⟨x, k', hm, he⟩ := conclude_moves (s := s) (t := t) (e := e) ho
        exact ⟨_, _, _, _, hm, he⟩
      | none => exact ⟨_, _, _, _, .errand ho (c.step_moves t s.world), moved_nil.symm⟩
  | alarm timer token rung =>
    dsimp only
    cases rung with
    | true => exact stays
    | false =>
      by_cases hd : s.world.isDue timer = true
      · rw [if_pos (by simp [hd])]
        exact ⟨_, _, _, _, .rings hd, moved_nil.symm⟩
      · rw [if_neg (by simp [hd])]
        exact stays

theorem workerFor_idle {run : Context} {route sub : Nat} {k : Task} (h : s.workerFor run route sub = some k) :
    ∃ w, k = .worker w ∧ w.occupation = .idle := by
  obtain ⟨r, -, rfl⟩ := Option.map_eq_some_iff.mp h
  exact ⟨_, rfl, rfl⟩

end State

/-- Only the supervisor begins tasks, and these are workers that wait for their first message. -/
theorem Task.Moves.new_idle {t : Nat} {k k' j : Task} {x : World} {r : Router} {new : List Task}
    (h : k.Moves s t x r new k') (hj : j ∈ new) : ∃ w, j = .worker w ∧ w.occupation = .idle := by
  cases h with
  | stays | worker _ | close _ | learns _ | call _ | errand _ _ | unsent _ | sent _ | rings _ => cases hj
  | run hv =>
    cases hv with
    | serves _ hn =>
      subst hn
      obtain ⟨m, -, hm⟩ := List.mem_filterMap.mp hj
      exact State.workerFor_idle hm
    | stays | rejected _ _ | begins _ _ | skips _ _ | subscribes _ _ _ | declined _ _ _ _ | breaksOff _ _ _
    | joins _ _ _ _ | drains _ _ | awaits _ _ _ | finishes _ _ => cases hj

/-- A task leaves the stages and routes of the router alone. -/
theorem Task.Moves.router {s : State} {t : Nat} {k k' : Task} {x : World} {r : Router} {new : List Task}
    (h : k.Moves s t x r new k') : r.stages = s.router.stages ∧ r.routes = s.router.routes := by
  cases h with
  | stays | worker _ | learns _ | call _ | errand _ _ | unsent _ | sent _ | rings _ => exact ⟨rfl, rfl⟩
  | run hv => cases hv <;> exact ⟨rfl, rfl⟩
  | close hc => cases hc <;> exact ⟨rfl, rfl⟩

/-- It leaves the bindings alone, too. -/
theorem Task.Moves.bindings {s : State} {t : Nat} {k k' : Task} {x : World} {r : Router} {new : List Task}
    (h : k.Moves s t x r new k') : r.commands = s.router.commands ∧ r.events = s.router.events := by
  cases h with
  | stays | worker _ | learns _ | call _ | errand _ _ | unsent _ | sent _ | rings _ => exact ⟨rfl, rfl⟩
  | run hv => cases hv <;> exact ⟨rfl, rfl⟩
  | close hc => cases hc <;> exact ⟨rfl, rfl⟩

end Relay
