import Relay.Proofs.Causal.Hops

/-! The context of the start. Had the router of a broker been started in a context with nothing but the
    token of the one it was started in, everything would have gone the same way: the fields of that
    context are replaced by those of the message before any of them is read. -/

namespace Relay

/-- The context without its causal fields. -/
def Context.bare (c : Context) : Context := { token := c.token }

/-- The call, without the fields of its context as long as these are not those of its message. -/
def Call.bare (c : Call) : Call :=
  match c.phase with
  | .entering rest ctx m => if c.frames.length ≤ 2 then c.goto (.entering rest ctx.bare m) else c
  | _ => c

def Occupation.bare : Occupation → Occupation
  | busy m c => busy m c.bare
  | o => o

def Worker.bare (w : Worker) : Worker := { w with context := w.context.bare, occupation := w.occupation.bare }

def Supervision.bare : Supervision → Supervision
  | fresh c => fresh c.bare
  | subscribing run made rest => subscribing run.bare made rest
  | watching run workers failures => watching run.bare workers failures
  | draining run workers failures => draining run.bare workers failures
  | ended o => ended o

def Task.bare : Task → Task
  | worker w => worker w.bare
  | run v => run v.bare
  | k => k

namespace State

/-- The state, had every context that the router was to be started in been without its fields. -/
def bare (s : State) : State := { s with tasks := s.tasks.map Task.bare }

def Op.bare : Op → Op
  | .run c => .run c.bare
  | o => o

end State

/-! ### Calls -/

namespace Call
variable {p : RetryPolicy} {stages : List Stage} {tok : Token} {c c' : Call} {t : Nat} {w w' : World}

theorem bare_of_ne (h : ∀ rest ctx m, c.phase ≠ .entering rest ctx m) : c.bare = c := by
  unfold bare
  split
  · rename_i hp
    exact absurd hp (h _ _ _)
  · rfl

theorem bare_of_lt (h : 2 < c.frames.length) : c.bare = c := by
  unfold bare
  split
  · exact if_neg (Nat.not_le_of_lt h)
  · rfl

theorem bare_of_le {rest : List Stage} {ctx : Context} {m : Message} (hp : c.phase = .entering rest ctx m)
    (h : c.frames.length ≤ 2) : c.bare = c.goto (.entering rest ctx.bare m) := by
  rw [bare, hp]
  exact if_pos h

/-- What can be seen of a call is the same without the fields. -/
theorem bare_cases (c : Call) : c.bare = c ∨ ∃ rest ctx m, c.phase = .entering rest ctx m ∧ c.frames.length ≤ 2 ∧
    c.bare = c.goto (.entering rest ctx.bare m) := by
  by_cases hp : ∃ rest ctx m, c.phase = .entering rest ctx m
  · obtain ⟨rest, ctx, m, hp⟩ := hp
    by_cases hl : c.frames.length ≤ 2
    · exact .inr ⟨rest, ctx, m, hp, hl, bare_of_le hp hl⟩
    · exact .inl (bare_of_lt (Nat.lt_of_not_le hl))
  · exact .inl (bare_of_ne fun rest ctx m h => hp ⟨rest, ctx, m, h⟩)

theorem bare_outcome? (c : Call) : c.bare.outcome? = c.outcome? := by
  rcases c.bare_cases with h | ⟨rest, ctx, m, hp, -, h⟩
  · rw [h]
  · rw [h, outcome?, outcome?, hp]
    rfl

theorem bare_isReady (c : Call) (w : World) : c.bare.isReady w = c.isReady w := by
  rcases c.bare_cases with h | ⟨rest, ctx, m, hp, -, h⟩
  · rw [h]
  · rw [h, isReady, isReady, outcome?, outcome?, hp]
    rfl

theorem bare_atWait (c : Call) : c.bare.atWait = c.atWait := by
  rcases c.bare_cases with h | ⟨rest, ctx, m, hp, -, h⟩
  · rw [h]
  · rw [h, atWait, atWait, hp]
    rfl

theorem bare_timer? (c : Call) : c.bare.timer? = c.timer? := by
  rcases c.bare_cases with h | ⟨rest, ctx, m, hp, -, h⟩
  · rw [h]
  · rw [h, timer?, timer?, hp]
    rfl

theorem push_bare {f : Frame} {rest : List Stage} {ctx : Context} {m : Message} (h : c.frames.length ≤ 1) :
    (c.push f rest ctx m).bare = c.push f rest ctx.bare m :=
  bare_of_le (c := c.push f rest ctx m) rfl (Nat.succ_le_succ h)

/-- The first three stages do not look at the fields, and the third replaces them. -/
theorem enter_bare {g : Stage} {rest : List Stage} {ctx : Context} {m : Message} (hb : Broker.IsChain p stages)
    (he : Entered tok stages c.frames (g :: rest)) (hl : c.frames.length ≤ 2) :
    (c.goto (.entering (g :: rest) ctx.bare m)).enter t w g rest ctx.bare m =
      ((c.enter t w g rest ctx m).1, (c.enter t w g rest ctx m).2.bare) := by
  have hn : c.frames.length = Broker.place g := hb.place he
  cases g with
  | recoverer => exact Prod.ext rfl (push_bare (Nat.le_trans (Nat.le_of_eq hn) (Nat.zero_le 1))).symm
  | correlation =>
    unfold enter
    dsimp only
    split
    · exact Prod.ext rfl (push_bare (Nat.le_of_eq hn)).symm
    · exact Prod.ext rfl (push_bare (Nat.le_of_eq hn)).symm
  | propagation =>
    refine Prod.ext rfl (bare_of_lt ?_).symm
    exact Nat.lt_succ_of_le (Nat.le_of_eq hn.symm)
  | retry _ | filter _ | dispatch _ _ =>
    rw [hn] at hl
    exact absurd hl (by simp [Broker.place, Broker.retryPlace])

/-- A call that is past them stays past them. -/
theorem Moves.bare (h : c.Moves t w w' c') (hb : Broker.IsChain p stages) (hs : c.Stands tok stages)
    (hn : ∀ rest ctx m, c.phase = .entering rest ctx m → 2 < c.frames.length) : c'.bare = c' := by
  cases h with
  | stays => 
    rcases c.bare_cases with h | ⟨rest, ctx, m, hp, hl, -⟩
    · exact h
    · exact absurd (hn _ _ _ hp) (Nat.not_lt_of_le hl)
  | delivers hp _ => exact bare_of_ne (by simp [hp])
  | guarded hp | marked hp _ | unmarked hp _ | restored hp | tried hp | passed hp _ | dispatched hp =>
    exact bare_of_lt (Nat.lt_succ_of_lt (hn _ _ _ hp))
  | retried hp hf _ _ =>
    obtain ⟨_, _, _, _, _, _, -, he⟩ := hs.backoff hp
    rw [hf] at he
    cases he with
    | retry he _ => exact bare_of_lt (Nat.lt_succ_of_lt (Nat.lt_of_lt_of_eq (Nat.lt_succ_self 2) (hb.place he).symm))
  | unhandled _ _ | undecoded _ _ _ _ | refused _ _ _ _ | called _ _ _ _ | answered _ _ | returned _ _ _ | brokeOff _ _
  | slept _ | cancelled _ | awaited _ | unpublished _ _ | published _ _ | unwritten _ _ | unsent _ _ _ | sent _ _ _
  | woke _ _ | freed _ _ | delivered _ _ | undelivered _ _ | aborted _ _ _ | strayed _ _ | recovered _ _ | unwound _ _ _
  | filtered _ _ _ | unretryable _ _ _ | backsOff _ _ _ _ | exhausted _ _ _ _ | propagated _ _ _ | swallowed _ _ _
  | left _ _ _ _ _ => exact bare_of_ne (by simp [goto, pop])

theorem step_bare (t : Nat) (w : World) (hb : Broker.IsChain p stages) (hs : c.Stands tok stages) :
    c.bare.step t w = ((c.step t w).1, (c.step t w).2.bare) := by
  by_cases hin : ∃ rest ctx m, c.phase = .entering rest ctx m ∧ c.frames.length ≤ 2
  · obtain ⟨rest, ctx, m, hp, hl⟩ := hin
    have he := (hs.entering hp).1
    cases rest with
    | nil =>
      -- At the end of the pipeline all stages have been entered.
      have := he.length
      have := hb.length
      simp only [List.length_nil] at *
      omega
    | cons g rest =>
      rw [bare_of_le hp hl, show c.step t w = c.enter t w g rest ctx m by rw [step, hp]]
      exact enter_bare hb he hl
  · have hn : ∀ rest ctx m, c.phase = .entering rest ctx m → 2 < c.frames.length := fun rest ctx m hp =>
      Nat.lt_of_not_le fun hl => hin ⟨rest, ctx, m, hp, hl⟩
    rw [(step_moves t w c).bare hb hs hn, (show c.Moves t w w c from .stays).bare hb hs hn]

end Call

/-! ### Tasks -/

namespace State
variable {p : RetryPolicy} {s s' : State} {o : Op} {t : Nat} {k : Task} {run c : Context} {workers : List Nat}
  {failures : List String}

theorem bare_world (s : State) : s.bare.world = s.world := rfl

theorem bare_router (s : State) : s.bare.router = s.router := rfl

theorem bare_broker (s : State) : s.bare.broker = s.broker := rfl

theorem bare_tasks (s : State) (t : Nat) : s.bare.tasks[t]? = s.tasks[t]?.map Task.bare := List.getElem?_map

theorem bare_setTask (s : State) (t : Nat) (k : Task) : (s.setTask t k).bare = s.bare.setTask t k.bare := by
  simp [bare, setTask, List.map_set]

theorem bare_spawn (s : State) (k : Task) : (s.spawn k).bare = s.bare.spawn k.bare := by
  simp [bare, spawn]

theorem bare_ended? (s : State) (t : Nat) : s.bare.ended? t = s.ended? t := by
  rw [ended?, ended?, bare_tasks]
  cases s.tasks[t]? with
  | none => rfl
  | some k =>
    cases k with
    | worker w => 
      show w.occupation.bare.ended? = w.occupation.ended?
      cases w.occupation <;> rfl
    | run _ | close _ | awaitStart _ | call _ | errand _ _ _ | alarm _ _ _ => rfl

theorem bare_branches (s : State) (v : Supervision) : s.bare.branches v.bare = s.branches v := by
  cases v with
  | watching run workers failures =>
    simp only [Supervision.bare, branches, bare_ended?]
    rfl
  | draining run workers failures => simp only [Supervision.bare, branches, bare_ended?]
  | fresh _ | subscribing _ _ _ | ended _ => rfl

theorem bare_record (s : State) (failures : List String) (u : Nat) :
    s.bare.record failures u = s.record failures u := by
  rw [record, record, bare_ended?]

theorem bare_workers (s : State) (run : Context) (made : List (Nat × Nat)) :
    made.filterMap (fun m => s.bare.workerFor run.bare m.1 m.2) =
      (made.filterMap fun m => s.workerFor run m.1 m.2).map Task.bare := by
  rw [List.map_filterMap]
  refine congrArg (List.filterMap · made) (funext fun m => ?_)
  unfold workerFor
  rw [Option.map_map]
  rfl

theorem settle_bare (s : State) (t : Nat) (w : Worker) (m : Message) (o : Outcome) :
    s.bare.settle t w.bare m o = (s.settle t w m o).bare := by
  cases o with
  | ok | failed e | panicked reason =>
    simp only [settle, bare_setTask]
    rfl

theorem microWorker_bare {w : Worker} (hb : Broker.IsChain p w.stages)
    (hc : ∀ {m : Message} {c : Call}, w.occupation = .busy m c → c.Stands w.context.token w.stages) :
    s.bare.microWorker t w.bare = (s.microWorker t w).bare := by
  unfold microWorker
  cases ho : w.occupation with
  | idle =>
    simp only [Worker.bare, ho, Occupation.bare, bare_world]
    split
    · rfl
    · rw [bare_setTask]
      rfl
    · rw [bare_setTask]
      rfl
  | busy m c =>
    simp only [Worker.bare, ho, Occupation.bare, Call.bare_outcome?]
    cases c.outcome? with
    | none =>
      dsimp only
      rw [bare_world, Call.step_bare t s.world hb (hc ho), bare_setTask]
      rfl
    | some o =>
      rw [← settle_bare, Worker.bare, ho]
      rfl
  | ended f => simp only [Worker.bare, ho, Occupation.bare]

theorem subscribeRoute_bare {made : List (Nat × Nat)} {r : Nat} {rest : List Nat} :
    s.bare.subscribeRoute t run.bare made r rest = (s.subscribeRoute t run made r rest).bare := by
  unfold subscribeRoute
  rw [bare_router]
  cases s.router.routes[r]? with
  | none =>
    dsimp only
    rw [bare_setTask]
    rfl
  | some route =>
    dsimp only
    rw [bare_world, show run.bare.token = run.token from rfl]
    cases s.world.subscribe .router run.token route.topic with
    | ok made' =>
      dsimp only
      rw [bare_setTask]
      rfl
    | error fault =>
      cases fault with
      | refused e =>
        simp only [report_eq, bare_setTask]
        rfl
      | brokeOff =>
        dsimp only
        rw [bare_setTask]
        rfl

theorem drain_bare : s.bare.drain t run.bare workers failures = (s.drain t run workers failures).bare := by
  unfold drain
  rw [bare_setTask]
  rfl

theorem microRun_bare {v : Supervision} {b : Branch} : s.bare.microRun t v.bare b = (s.microRun t v b).bare := by
  cases v with
  | fresh c =>
    simp only [Supervision.bare, microRun]
    rw [bare_router]
    split
    · simp only [report_eq, bare_setTask]
      rfl
    · rw [bare_setTask]
      rfl
  | subscribing run made rest =>
    cases rest with
    | cons r rest => exact subscribeRoute_bare
    | nil =>
      simp only [Supervision.bare, microRun, bare_workers, List.length_map]
      rw [bare_setTask]
      simp [bare, Task.bare, Supervision.bare]
  | watching run workers failures =>
    have hb := bare_branches s (.watching run workers failures)
    simp only [Supervision.bare] at hb
    simp only [Supervision.bare, microRun, hb, bare_record]
    split
    · cases b with
      | joined u =>
        dsimp only
        split
        · exact drain_bare
        · rw [bare_setTask]
          rfl
      | cancelled | shutdown => exact drain_bare
    · rfl
  | draining run workers failures =>
    have hb := bare_branches s (.draining run workers failures)
    simp only [Supervision.bare] at hb
    simp only [Supervision.bare, microRun, hb, bare_record]
    split
    · rw [bare_setTask]
      split <;> rfl
    · cases b with
      | joined u =>
        dsimp only
        split
        · rw [bare_setTask]
          rfl
        · rfl
      | cancelled | shutdown => rfl
  | ended o => rfl

theorem microClose_bare {c : Closing} : s.bare.microClose t c = (s.microClose t c).bare := by
  cases c with
  | fresh =>
    simp only [microClose]
    rw [bare_router]
    split
    · rw [bare_setTask]
      rfl
    · simp only [report_eq, bare_setTask]
      rfl
  | waiting =>
    simp only [microClose]
    rw [bare_router]
    split
    · split
      · rw [bare_setTask]
        rfl
      · simp only [report_eq, bare_setTask]
        rfl
    · rfl
  | ended o => rfl

theorem conclude_bare {e : Errand} {c : Call} {o : Outcome} : s.bare.conclude t e c o = (s.conclude t e c o).bare := by
  cases o with
  | ok | failed e | panicked reason =>
    simp only [conclude, bare_setTask]
    rfl

theorem micro_bare (hs : s.Orderly p) (b : Branch) : s.bare.micro t b = (s.micro t b).bare := by
  unfold micro
  rw [bare_tasks]
  cases hk : s.tasks[t]? with
  | none => rfl
  | some k =>
    cases k with
    | worker w =>
      exact microWorker_bare (hs.chained.stages_of_worker hs.course hk) fun ho => (hs.placed.calls hk ho).1
    | run v => exact microRun_bare
    | close c => exact microClose_bare
    | awaitStart done =>
      simp only [Option.map_some, Task.bare]
      rw [bare_router]
      split
      · rfl
      · rw [bare_setTask]
        rfl
    | call c =>
      rw [bare_setTask]
      rfl
    | errand e c o =>
      cases o with
      | some o => rfl
      | none =>
        simp only [Option.map_some, Task.bare]
        split
        · exact conclude_bare
        · rw [bare_setTask]
          rfl
    | alarm timer token rung =>
      simp only [Option.map_some, Task.bare]
      rw [bare_world]
      split
      · rw [bare_setTask]
        rfl
      · rfl

/-! ### Steps -/

theorem bare_isReady (s : State) (k : Task) : k.bare.isReady s.bare = k.isReady s := by
  cases k with
  | worker w =>
    cases ho : w.occupation with
    | idle | ended _ => simp only [Task.bare, Worker.bare, Task.isReady, ho, Occupation.bare, bare_world]
    | busy m c =>
      simp only [Task.bare, Worker.bare, Task.isReady, ho, Occupation.bare, bare_world, Call.bare_outcome?,
        Call.bare_isReady]
  | run v =>
    have hb := bare_branches s v
    cases v with
    | fresh _ | ended _ => rfl
    | subscribing _ _ _ => rfl
    | watching _ _ _ | draining _ _ _ =>
      simp only [Supervision.bare] at hb
      simp only [Task.bare, Supervision.bare, Task.isReady, hb]
  | close _ | awaitStart _ | call _ | errand _ _ _ | alarm _ _ _ => rfl

theorem bare_atWait (k : Task) : k.bare.atWait = k.atWait := by
  cases k with
  | worker w =>
    cases ho : w.occupation with
    | idle | ended _ => simp only [Task.bare, Worker.bare, Task.atWait, ho, Occupation.bare]
    | busy m c => simp only [Task.bare, Worker.bare, Task.atWait, ho, Occupation.bare, Call.bare_atWait]
  | run v => cases v <;> rfl
  | close _ | awaitStart _ | call _ | errand _ _ _ | alarm _ _ _ => rfl

theorem bare_timer? (k : Task) : k.bare.timer? = k.timer? := by
  cases k with
  | worker w =>
    cases ho : w.occupation with
    | idle | ended _ => simp only [Task.bare, Worker.bare, Task.timer?, ho, Occupation.bare]
    | busy m c => simp only [Task.bare, Worker.bare, Task.timer?, ho, Occupation.bare, Call.bare_timer?]
  | run _ | close _ | awaitStart _ | call _ | errand _ _ _ | alarm _ _ _ => rfl

theorem bare_isSettled (s : State) : s.bare.isSettled = s.isSettled := by
  have hready : ∀ t, s.bare.isReady t = s.isReady t := fun t => by
    rw [isReady, isReady, bare_tasks]
    cases s.tasks[t]? with
    | none => rfl
    | some k => exact bare_isReady s k
  simp only [isSettled, hready]
  rw [bare, List.length_map]

theorem bare_timers (s : State) : s.bare.timers = s.timers := by
  show (s.tasks.map Task.bare).filterMap Task.timer? = _
  rw [List.filterMap_map]
  exact congrArg (List.filterMap · s.tasks) (funext bare_timer?)

theorem bare_holds (s : State) (i : Nat) : s.bare.holds i = s.holds i := by
  show (_ && (s.tasks.map Task.bare).any _) = (_ && s.tasks.any _)
  rw [List.any_map]
  refine congrArg (fun f => _ && s.tasks.any f) (funext fun k => ?_)
  cases k with
  | run v => cases v <;> rfl
  | worker _ | close _ | awaitStart _ | call _ | errand _ _ _ | alarm _ _ _ => rfl

theorem bare_allows : s.bare.Allows o.bare ↔ s.Allows o := by
  cases o with
  | tick ms =>
    show s.active = none ∧ s.bare.isSettled = true ∧ (∀ t ∈ s.bare.timers, _) ↔ _
    rw [bare_isSettled, bare_timers]
    rfl
  | poll i | drop i =>
    show s.active = none ∧ s.bare.holds i = false ↔ _
    rw [bare_holds]
    rfl
  | _ => exact Iff.rfl

theorem addHandlers_bare {role : Role} {bs : List Binding} :
    (s.bare.addHandlers role c bs).2 = (s.addHandlers role c bs).2.bare := by
  have hl : s.bare.tasks.length = s.tasks.length := List.length_map ..
  simp only [addHandlers, bare_router, bare_broker, hl]
  split
  · rfl
  · split <;> rfl

theorem apply_bare (hs : s.Orderly p) (hk : o.OfBroker) : s.bare.apply o.bare = (s.apply o).bare := by
  cases o with
  | turn t b =>
    show s.bare.turn t b = (s.turn t b).bare
    have hwait : (s.micro t b).bare.atWait t = (s.micro t b).atWait t := by
      rw [atWait, atWait, bare_tasks]
      cases (s.micro t b).tasks[t]? with
      | none => rfl
      | some k => exact bare_atWait k
    rw [turn, micro_bare hs b]
    simp only [hwait]
    rfl
  | addStage g =>
    show s.bare.register (s.bare.router.addStage g) = (s.register (s.router.addStage g)).bare
    rw [bare_router]
    cases s.router.addStage g <;> rfl
  | addRoutes rs =>
    show s.bare.register (s.bare.router.addRoutes rs) = (s.register (s.router.addRoutes rs)).bare
    rw [bare_router]
    cases s.router.addRoutes rs <;> rfl
  | addHandlers role c bs => exact addHandlers_bare
  | run c => exact (bare_spawn s (.run (.fresh c))).symm
  | close => exact (bare_spawn s (.close .fresh)).symm
  | awaitStart => exact (bare_spawn s (.awaitStart false)).symm
  | publish topic batch => exact (bare_spawn s (.call _)).symm
  | alarm ms t => exact (bare_spawn { s with world := (s.world.setTimer ms).2 } (.alarm _ t false)).symm
  | abandon t =>
    show State.apply s.bare (.abandon t) = _
    simp only [apply, bare_tasks]
    cases s.tasks[t]? with
    | none => rfl
    | some k =>
      cases k with
      | close c =>
        cases c with
        | fresh | waiting => exact (bare_setTask s t (.close (.ended (.panicked none)))).symm
        | ended o => rfl
      | worker _ | run _ | awaitStart _ | call _ | errand _ _ _ | alarm _ _ _ => rfl
  | send v c =>
    show State.apply s.bare (.send v c) = _
    simp only [apply]
    by_cases hb : s.broker = true
    · rw [if_pos hb, if_pos (show s.bare.broker = true from hb), bare_spawn]
      rfl
    · rw [if_neg hb, if_neg (show ¬s.bare.broker = true from hb), bare_spawn]
      rfl
  | subscribe t topic =>
    show State.apply s.bare (.subscribe t topic) = _
    simp only [apply, bare_world]
    split <;> rfl
  | call _ _ _ _ => exact hk.elim
  | token | derive _ | cancel _ | poll _ | drop _ | closeExchange | tick _ => rfl

/-- The same steps lead to the same, with contexts of the start that have nothing but their tokens. -/
theorem replay_bare (hs : s.Orderly p) {os : List Op} (hk : ∀ o ∈ os, o.OfBroker) :
    s.bare.replay (os.map Op.bare) = (s.replay os).map bare := by
  induction os generalizing s with
  | nil => rfl
  | cons o os ih =>
    have hko := hk o List.mem_cons_self
    rw [List.map_cons, replay, replay]
    by_cases ha : s.Allows o
    · rw [if_pos ha, if_pos (bare_allows.mpr ha), apply_bare hs hko]
      exact ih (hs.step hko (apply_step ha)) fun o' ho' => hk o' (List.mem_cons_of_mem _ ho')
    · rw [if_neg ha, if_neg fun h => ha (bare_allows.mp h)]
      rfl

end State
end Relay
