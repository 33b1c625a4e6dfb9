import Relay.Proofs.Isolation.Tidy

/-! What the turn of a task can be to a route. It is a turn of the worker of that route, a message is put out, a
    run begins, is prepared or is drained, the router is told to close, or it makes no difference to the
    route (`State.Tidy.turns`). Only in the first of these anything comes to the handler of the route
    (`State.Tidy.arrivals_turn`). -/

namespace Relay
variable (drawn : Uuid → Prop) (p : Post)

/-- What a task still puts into the queue of subscription `i`, one on this topic. -/
noncomputable def Task.flight (x : World) (topic : String) (i : Nat) : Task → List Message
  | call c | errand _ c _ => c.flight drawn x topic i
  | _ => []

/-- A task, no worker of the route, comes to its end or goes on to no effect on the route. -/
structure Task.Fades (s : State) (k : Task) (x : World) (k' : Task) : Prop where
  spent : k'.Spent
  silent : ∀ topic i, k.flight drawn s.world topic i = [] ∧ k'.flight drawn x topic i = []
  worker : ∀ w, k = .worker w → w.route ≠ p.place
  fresh : ∀ c, k = .run (.fresh c) → s.router.started = true
  subscribing : ∀ run made rest, k ≠ .run (.subscribing run made rest)
  close : ∀ c, k = .close c → s.router.started = true → s.router.lifecycle ≠ .running

namespace State

/-- What is on its way from task `u` to subscription `i`, one on this topic. -/
noncomputable def flight (s : State) (u : Nat) (topic : String) (i : Nat) : List Message :=
  match s.tasks[u]? with
  | some k => k.flight drawn s.world topic i
  | none => []

/-- A turn that makes no difference to the route, if only task `u` is not spent. -/
structure Bypasses (s : State) (u : Nat) (s' : State) : Prop where
  clock : s'.world.clock = s.world.clock
  tokens : s'.world.tokens = s.world.tokens
  calls : s'.world.calls[p.place]? = s.world.calls[p.place]?
  subscription : ∀ {i : Nat}, (∀ {t : Nat} {w : Worker}, s.tasks[t]? = some (.worker w) → w.subscription = i →
    w.route = p.place) → s'.world.exchange.subscriptions[i]? = s.world.exchange.subscriptions[i]?
  flight : ∀ topic i, s'.flight drawn u topic i = s.flight drawn u topic i
  started : s'.router.started = s.router.started
  shutdown : s'.router.shutdown = s.router.shutdown
  running : s.router.lifecycle = .running → s'.router.lifecycle = .running
  /-- The worker of the route stays as it is. -/
  worker : ∀ {t : Nat} {w : Worker}, s.tasks[t]? = some (.worker w) → w.route = p.place →
    s'.tasks[t]? = some (.worker w)
  latest : s'.tasks[u]? = s.tasks[u]? ∨ ∃ k, s'.tasks[u]? = some k ∧ k.Spent
  fresh : ∀ {c : Context}, s.tasks[u]? = some (.run (.fresh c)) → s.router.started = false →
    s'.tasks[u]? = some (.run (.fresh c))
  subscribing : ∀ {run : Context} {made : List (Nat × Nat)} {rest : List Nat},
    s.tasks[u]? = some (.run (.subscribing run made rest)) → s'.tasks[u]? = some (.run (.subscribing run made rest))
  close : ∀ {c : Closing}, s.tasks[u]? = some (.close c) → s.router.started = true → s.router.lifecycle = .running →
    s'.tasks[u]? = some (.close c)

/-- What a turn of task `t` is to the route, if only task `u` is not spent. -/
inductive Turns (s : State) (u t : Nat) (s' : State) : Prop where
  | bypasses : s.Bypasses drawn p u s' → Turns s u t s'
  | works {w : Worker} : s.tasks[t]? = some (.worker w) → w.route = p.place → Turns s u t s'
  | posts {k k' : Task} {c c' : Call} {x : World} {active : Option Nat} : s.tasks[u]? = some k →
      (k = .call c ∧ k' = .call c' ∨ ∃ e, k = .errand e c none ∧ k' = .errand e c' none) →
      c.Delivers drawn s.world x c' → s' = { s.moved u x s.router [] k' with active } → Turns s u t s'
  | begins {c : Context} {active : Option Nat} : s.tasks[u]? = some (.run (.fresh c)) → s.router.started = false →
      s' = { s.moved u { s.world with tokens := s.world.tokens.derive c.token } { s.router with started := true } []
        (.run (.subscribing { c with token := s.world.tokens.next } [] (List.range s.router.routes.length))) with
          active } → Turns s u t s'
  | subscribing {run : Context} {made : List (Nat × Nat)} {rest : List Nat} {v' : Supervision} {x : World}
      {r : Router} {new : List Task} {active : Option Nat} : s.tasks[t]? = some (.run (.subscribing run made rest)) →
      Supervision.Moves s t (.subscribing run made rest) x r new v' →
      s' = { s.moved t x r new (.run v') with active } → Turns s u t s'
  | drains {run : Context} {workers workers' : List Nat} {failures failures' : List String} {active : Option Nat} :
      s.tasks[t]? = some (.run (.watching run workers failures)) →
      (s.world.isCancelled run = true ∨ s.router.shutdown = true ∨
        ∃ w ∈ workers, (s.ended? w).isSome ∧ workers.erase w = []) →
      s' = { s.moved t (s.world.cancel run.token) { s.router with lifecycle := .draining } []
        (.run (.draining run workers' failures')) with active } → Turns s u t s'
  | tells {active : Option Nat} : s.tasks[u]? = some (.close .fresh) → s.router.started = true →
      s' = { s.moved u s.world { s.router with shutdown := true } [] (.close .waiting) with active } →
      Turns s u t s'

variable {drawn p} {s s' : State} {t u : Nat} {k k' : Task} {x : World} {r : Router} {active : Option Nat}

/-- A world that is as it was, but for what has been written down. -/
def Quiet (s : State) (x : World) : Prop := ∃ journal, x = { s.world with journal }

theorem quiet_self (s : State) : s.Quiet s.world := ⟨_, rfl⟩

theorem quiet_note (s : State) (t : Nat) (e : Event) : s.Quiet (s.world.note t e) := ⟨_, rfl⟩

theorem quiet_reported (s : State) (t : Nat) (e : LifecycleError) : s.Quiet (s.reported t e) := by
  unfold reported
  split
  · exact s.quiet_note _ _
  · exact s.quiet_self

/-- The tasks after task `t` has moved to `k'`. -/
theorem set_append_nil {tasks : List Task} (ht : tasks[t]? = some k) :
    (tasks.set t k' ++ [])[u]? = if u = t then some k' else tasks[u]? := by
  rw [List.append_nil, List.getElem?_set]
  by_cases hu : u = t
  · rw [if_pos hu.symm, if_pos hu, if_pos (List.getElem?_eq_some_iff.mp ht).1]
  · rw [if_neg (Ne.symm hu), if_neg hu]

/-- What is on its way depends on the publications, and on what the transport refuses. -/
theorem flight_moved (ht : s.tasks[t]? = some k) (hpubs : x.exchange.publications = s.world.exchange.publications)
    (hx : x.transport = s.world.transport) (topic : String) (i : Nat)
    (hk : k' = k ∨ k.flight drawn s.world topic i = [] ∧ k'.flight drawn x topic i = []) :
    ({ s.moved t x r [] k' with active } : State).flight drawn u topic i = s.flight drawn u topic i := by
  have hflight : ∀ (j : Task), j.flight drawn x topic i = j.flight drawn s.world topic i := fun j => by
    cases j with
    | call c | errand _ c _ => simp only [Task.flight, Call.flight, hpubs, hx]
    | worker _ | run _ | close _ | awaitStart _ | alarm _ _ _ => rfl
  show (match (s.tasks.set t k' ++ [])[u]? with | some k => k.flight drawn x topic i | none => []) = _
  rw [set_append_nil ht, State.flight]
  by_cases hu : u = t
  · rw [if_pos hu, hu, ht]
    dsimp only
    rcases hk with rfl | ⟨hk, hk'⟩
    · exact hflight k'
    · rw [hk, hk']
  · rw [if_neg hu]
    split
    · exact hflight _
    · rfl

theorem Bypasses.refl (s : State) (active : Option Nat) : s.Bypasses drawn p u { s with active } :=
  ⟨rfl, rfl, rfl, fun _ => rfl, fun _ _ => rfl, rfl, rfl, id, fun h _ => h, .inl rfl, fun h _ => h, id, fun h _ _ => h⟩

/-- A task moves without an effect on the world that the route could notice. -/
theorem Bypasses.moved (ht : s.tasks[t]? = some k) (htokens : x.tokens = s.world.tokens)
    (hcalls : x.calls[p.place]? = s.world.calls[p.place]?)
    (hsubs : ∀ {i : Nat}, (∀ {t : Nat} {w : Worker}, s.tasks[t]? = some (.worker w) → w.subscription = i →
      w.route = p.place) → x.exchange.subscriptions[i]? = s.world.exchange.subscriptions[i]?)
    (hpubs : x.exchange.publications = s.world.exchange.publications) (hclock : x.clock = s.world.clock)
    (hx : x.transport = s.world.transport) (hst : r.started = s.router.started)
    (hsh : r.shutdown = s.router.shutdown) (hrun : s.router.lifecycle = .running → r.lifecycle = .running)
    (hk : k' = k ∨ k.Fades drawn p s x k') : s.Bypasses drawn p u { s.moved t x r [] k' with active } := by
  -- The tasks are those of before, but for the one that has moved.
  have htask : ∀ {u : Nat} {j : Task}, s.tasks[u]? = some j → (u = t → j = k → k' = k) →
      (s.tasks.set t k' ++ [])[u]? = some j := fun {u j} hj hsame => by
    rw [set_append_nil ht]
    by_cases hu : u = t
    · subst hu
      rw [ht] at hj
      cases hj
      rw [if_pos rfl, hsame rfl rfl]
    · rw [if_neg hu, hj]
  refine ⟨hclock, htokens, hcalls, hsubs, fun topic i => flight_moved ht hpubs hx topic i ?_, hst, hsh, hrun,
    fun hw hr => htask hw fun _ he => ?_, ?_, fun hc hn => htask hc fun _ he => ?_, fun hc => htask hc fun _ he => ?_,
    fun hc hs hl => htask hc fun _ he => ?_⟩
  · exact hk.imp id fun hk => hk.silent topic i
  · exact hk.resolve_right fun hk => hk.worker _ he.symm hr
  · show (s.tasks.set t k' ++ [])[u]? = _ ∨ ∃ k, (s.tasks.set t k' ++ [])[u]? = _ ∧ _
    rw [set_append_nil ht]
    by_cases hu : u = t
    · rw [if_pos hu, hu, ht]
      rcases hk with rfl | hk
      · exact .inl rfl
      · exact .inr ⟨k', rfl, hk.spent⟩
    · exact .inl (if_neg hu)
  · refine hk.resolve_right fun hk => ?_
    rw [hk.fresh _ he.symm] at hn
    cases hn
  · exact hk.resolve_right fun hk => hk.subscribing _ _ _ he.symm
  · exact hk.resolve_right fun hk => hk.close _ he.symm hs hl

/-- A task moves, and the world is as it was but for what is written down. -/
theorem Bypasses.quiet (ht : s.tasks[t]? = some k) (hx : s.Quiet x) (hst : r.started = s.router.started)
    (hsh : r.shutdown = s.router.shutdown) (hrun : s.router.lifecycle = .running → r.lifecycle = .running)
    (hk : k' = k ∨ k.Fades drawn p s x k') : s.Bypasses drawn p u { s.moved t x r [] k' with active } := by
  obtain ⟨journal, rfl⟩ := hx
  exact .moved ht rfl rfl (fun _ => rfl) rfl rfl rfl hst hsh hrun hk

theorem Tidy.turns_run {v v' : Supervision} {new : List Task} (ho : s.Tidy drawn p) (hc : s.Calm u)
    (ht : s.tasks[t]? = some (.run v)) (hm : v.Moves s t x r new v') :
    s.Turns drawn p u t { s.moved t x r new (.run v') with active } := by
  -- A supervisor that has not begun is the task that is not spent.
  have latest : ∀ {c : Context}, v = .fresh c → t = u := fun hv => by
    subst hv
    exact Decidable.byContradiction fun hne => hc ht hne _ rfl
  have fades : ∀ {v' : Supervision} {x : World}, (∀ c, v' ≠ .fresh c) → (∀ c, v = .fresh c → s.router.started = true) →
      (∀ run made rest, v ≠ .subscribing run made rest) → (Task.run v).Fades drawn p s x (.run v') :=
    fun hs hf hn => ⟨hs, fun _ _ => ⟨rfl, rfl⟩, by simp, by simpa using hf, by simpa using hn, by simp⟩
  cases hm with
  | stays => exact .bypasses (.quiet ht s.quiet_self rfl rfl id (.inl rfl))
  | rejected hv hst =>
    subst hv
    exact .bypasses (.quiet ht (s.quiet_reported t _) rfl rfl id (.inr (fades (by simp) (fun _ _ => hst) (by simp))))
  | begins hv hst =>
    obtain rfl := latest hv
    subst hv
    exact .begins ht hst rfl
  | skips hv hr =>
    subst hv
    exact .subscribing ht (.skips rfl hr) rfl
  | subscribes hv hr hs =>
    subst hv
    exact .subscribing ht (.subscribes rfl hr hs) rfl
  | declined hv hr hs hx =>
    subst hv
    exact .subscribing ht (.declined rfl hr hs hx) rfl
  | breaksOff hv hr hs =>
    subst hv
    exact .subscribing ht (.breaksOff rfl hr hs) rfl
  | serves hv hn =>
    subst hv
    exact .subscribing ht (.serves rfl hn) rfl
  | joins hv _ _ _ =>
    subst hv
    exact .bypasses (.quiet ht s.quiet_self rfl rfl id (.inr (fades (by simp) (by simp) (by simp))))
  | awaits hv _ _ =>
    subst hv
    exact .bypasses (.quiet ht s.quiet_self rfl rfl id (.inr (fades (by simp) (by simp) (by simp))))
  | drains hv hw =>
    subst hv
    refine .drains ht ?_ rfl
    rcases hw with ⟨-, -, h | h⟩ | ⟨w, hw, he, rfl, hn, -⟩
    · exact .inl h
    · exact .inr (.inl h)
    · exact .inr (.inr ⟨w, hw, he, hn⟩)
  | finishes hv hx =>
    subst hv
    obtain ⟨t₀, base, run', hserving⟩ := ho.course.serving_of ht id (by simp)
    obtain ⟨-, -, hl, -⟩ := hserving.draining ht
    have hquiet : s.Quiet x := by
      subst hx
      split
      · exact s.quiet_self
      · exact s.quiet_note _ _
    refine .bypasses (.quiet ht hquiet rfl rfl (fun h => ?_) (.inr (fades (by simp) (by simp) (by simp))))
    rw [hl] at h
    cases h

theorem Tidy.turns_close {c c' : Closing} (hc : s.Calm u) (ht : s.tasks[t]? = some (.close c))
    (hm : c.Moves s t x r c') : s.Turns drawn p u t { s.moved t x r [] (.close c') with active } := by
  have fades : ∀ {c' : Closing} {x : World}, c' ≠ .fresh → (s.router.started = true → s.router.lifecycle ≠ .running) →
      (Task.close c).Fades drawn p s x (.close c') :=
    fun hs hn => ⟨hs, fun _ _ => ⟨rfl, rfl⟩, by simp, by simp, by simp, fun _ _ => hn⟩
  cases hm with
  | stays => exact .bypasses (.quiet ht s.quiet_self rfl rfl id (.inl rfl))
  | tells hf hst =>
    subst hf
    obtain rfl : t = u := Decidable.byContradiction fun hne => hc ht hne rfl
    exact .tells ht hst rfl
  | rejected _ hst =>
    exact .bypasses (.quiet ht (s.quiet_reported t _) rfl rfl id (.inr (fades (by simp) (by simp [hst]))))
  | returns _ hl _ =>
    exact .bypasses (.quiet ht s.quiet_self rfl rfl id (.inr (fades (by simp) (by simp [hl]))))
  | fails _ hl _ =>
    exact .bypasses (.quiet ht (s.quiet_reported t _) rfl rfl id (.inr (fades (by simp) (by simp [hl]))))

theorem Tidy.turns {b : Branch} (ho : s.Tidy drawn p) (hc : s.Calm u) (ha : s.Allows (.turn t b)) :
    s.Turns drawn p u t (s.apply (.turn t b)) := by
  have h := apply_step ha
  generalize s.apply (.turn t b) = s' at h
  cases h with
  | outside hn _ _ => exact absurd rfl (hn t b)
  | nobody _ _ _ => exact .bypasses (.refl s none)
  | @turn t' b' k k' x r new hto _ ht hm =>
    cases hto
    have hk := ho.tasks ht
    cases hm with
    | stays => exact .bypasses (.quiet ht s.quiet_self rfl rfl id (.inl rfl))
    | @worker w w' x hw =>
      replace hk : w.Tame fun f => w.route = p.place → f.Blind drawn := hk
      by_cases hr : w.route = p.place
      · exact .works ht hr
      · -- Another worker reads another subscription.
        have hspares : ∀ {i : Nat}, (∀ {t : Nat} {w : Worker}, s.tasks[t]? = some (.worker w) → w.subscription = i →
            w.route = p.place) → s.world.Spares p.place i x := fun hi => hw.spares hk hr fun he => hr (hi ht he)
        have hany : s.world.Spares p.place (w.subscription + 1) x := hw.spares hk hr (Nat.ne_of_lt (Nat.lt_succ_self _))
        exact .bypasses (.moved ht hany.tokens hany.calls (fun hi => (hspares hi).subscription) hany.publications
          hany.clock (hk.moves hw).2.transport rfl rfl id (.inr ⟨trivial, fun _ _ => ⟨rfl, rfl⟩, by simpa using hr,
            by simp, by simp, by simp⟩))
    | run hv => exact ho.turns_run hc ht hv
    | close hcl => exact Tidy.turns_close hc ht hcl
    | learns _ =>
      exact .bypasses (.quiet ht s.quiet_self rfl rfl id
        (.inr ⟨trivial, fun _ _ => ⟨rfl, rfl⟩, by simp, by simp, by simp, by simp⟩))
    | @call c c' x hcall =>
      by_cases htu : t = u
      · subst htu
        exact .posts ht (.inl ⟨rfl, rfl⟩) (ho.posting hk hcall) rfl
      · obtain ⟨rfl, rfl⟩ := Call.Posting.rests hk (hc ht htu) hcall
        exact .bypasses (.quiet ht s.quiet_self rfl rfl id (.inl rfl))
    | @errand e c c' x hout hcall =>
      have htu : t = u := Decidable.byContradiction fun hne => by
        have := hc ht hne
        rw [Task.Spent, hout] at this
        cases this
      subst htu
      exact .posts ht (.inr ⟨e, rfl, rfl⟩) (ho.posting hk.1 hcall) rfl
    | @unsent e c cause error hout =>
      have hended : c.outcome?.isSome := by rw [hout]; rfl
      exact .bypasses (.quiet ht (s.quiet_note _ _) rfl rfl id (.inr ⟨hended,
        fun _ _ => ⟨Call.Posting.flight_of_ended hended, Call.Posting.flight_of_ended hended⟩, by simp, by simp,
        by simp, by simp⟩))
    | @sent e c out hout =>
      have hended : c.outcome?.isSome := by rw [hout]; rfl
      exact .bypasses (.quiet ht s.quiet_self rfl rfl id (.inr ⟨hended,
        fun _ _ => ⟨Call.Posting.flight_of_ended hended, Call.Posting.flight_of_ended hended⟩, by simp, by simp,
        by simp, by simp⟩))
    | rings _ => exact hk.elim

/-! ### What comes to a handler -/

/-- Whether a task is a worker for route `h`. -/
def works (s : State) (h t : Nat) : Bool :=
  match s.tasks[t]? with
  | some (.worker w) => w.route == h
  | _ => false

/-- What comes to the handler of route `h`, the earliest first. -/
def arrivals (s : State) (h : Nat) : List Arrival :=
  (s.world.journal.filter fun e => s.works h e.task).reverse.filterMap Entry.arrival?

theorem arrivals_eq {h : Nat} (hj : s'.world.journal = s.world.journal) (hw : ∀ t, s'.works h t = s.works h t) :
    s'.arrivals h = s.arrivals h := by
  rw [arrivals, arrivals, hj]
  simp only [hw]

theorem arrivals_unmanned {h : Nat} (hn : ∀ {t : Nat} {w : Worker}, s.tasks[t]? ≠ some (.worker w)) :
    s.arrivals h = [] := by
  have hw : ∀ t, s.works h t = false := fun t => by
    unfold works
    split
    · rename_i w ht
      exact absurd ht hn
    · rfl
  simp [arrivals, hw]

/-- Where the routes have their workers, what comes to the handler of a route comes from its worker. -/
theorem Serving.arrivals_eq {base h : Nat} {run : Context} (hs : s.Serving t base run) (hh : h < s.router.routes.length) :
    s.arrivals h = s.world.arrivals (base + h) := by
  have hw : ∀ t, s.works h t = (t == base + h) := fun t => by
    unfold works
    split
    · rename_i w ht
      obtain ⟨he, -⟩ := hs.serves ht
      rw [he, Bool.eq_iff_iff, beq_iff_eq, beq_iff_eq, Nat.add_left_cancel_iff]
    · rename_i hn
      obtain ⟨w, hw, -⟩ := hs.manned h hh
      refine (beq_eq_false_iff_ne.mpr fun he => ?_).symm
      rw [he] at hn
      exact hn w hw
  simp only [arrivals, World.arrivals, hw]

end State

theorem World.arrivals_eq_nil {w : World} {t : Nat} (h : ∀ e ∈ w.history t, e.isArrival = false) : w.arrivals t = [] := by
  refine List.filterMap_eq_nil_iff.mpr fun e he => ?_
  exact Entry.arrival?_eq_none (h e.event (List.mem_reverse.mpr (List.mem_map.mpr ⟨e, List.mem_reverse.mp he, rfl⟩)))

namespace State
variable {drawn p} {s s' : State} {t u : Nat}

/-- In a turn of any other task nothing comes to the handler of the route. -/
theorem Tidy.arrivals_turn {b : Branch} (ho : s.Tidy drawn p) (ha : s.Allows (.turn t b))
    (hn : ∀ w, s.tasks[t]? = some (.worker w) → w.route ≠ p.place) :
    (s.apply (.turn t b)).arrivals p.place = s.arrivals p.place := by
  have h := apply_step ha
  generalize s.apply (.turn t b) = s' at h
  have hplace : p.place < s.router.routes.length := (List.getElem?_eq_some_iff.mp ho.route).1
  by_cases hw : ∃ (u : Nat) (w : Worker), s.tasks[u]? = some (.worker w)
  · obtain ⟨u, w, hw⟩ := hw
    obtain ⟨t₀, base, run, hs⟩ := ho.course.serving_of_worker hw
    have hs' := hs.step h
    rw [hs.arrivals_eq hplace, hs'.arrivals_eq (hs.routes_eq h ▸ hplace)]
    obtain ⟨w', hw', hr⟩ := hs.manned p.place hplace
    cases h with
    | outside ht _ _ => exact absurd rfl (ht t b)
    | turn hto _ _ hm =>
      cases hto
      obtain ⟨new, hj, hnew⟩ := hm.touches.journal
      refine World.arrivals_of_append hj fun e he het => ?_
      rw [(hnew e he).1] at het
      exact absurd hr (hn w' (het ▸ hw'))
    | nobody _ _ _ => rfl
  · have hunmanned : ∀ {u : Nat} {w : Worker}, s.tasks[u]? ≠ some (.worker w) := fun h => hw ⟨_, _, h⟩
    rw [arrivals_unmanned hunmanned]
    by_cases hw' : ∃ (u : Nat) (w : Worker), s'.tasks[u]? = some (.worker w)
    · -- The workers have just begun, and nothing has been written down in their names.
      obtain ⟨u, w, hw'⟩ := hw'
      obtain ⟨t₀, base, run, hs'⟩ := (ho.course.step h).serving_of_worker hw'
      have hroutes : s'.router.routes = s.router.routes := by
        cases h with
        | outside ht _ _ => exact absurd rfl (ht t b)
        | turn _ _ _ hm => exact hm.router.2
        | nobody _ _ _ => rfl
      rw [hs'.arrivals_eq (hroutes ▸ hplace)]
      obtain ⟨w', hmanned, -⟩ := hs'.manned p.place (hroutes ▸ hplace)
      have hl : s.tasks.length ≤ base + p.place := by
        rcases h.worker_from hmanned with ⟨_, w, -, hold, -⟩ | ⟨-, hold | ⟨_, _, _, _, _, _, -, -, -, hl, -⟩⟩
        · exact absurd hold hunmanned
        · exact absurd hold hunmanned
        · exact hl
      refine World.arrivals_eq_nil fun e he => ?_
      obtain ⟨role, id, err, rfl⟩ := h.unborn hl (ho.delivers.unborn _ hl) e he
      rfl
    · exact arrivals_unmanned fun h => hw' ⟨_, _, h⟩

/-- What is asked for from the outside comes to no handler by itself. -/
theorem arrivals_request {o : Op} {h : Nat} (hr : o.IsRequest) : (s.apply o).arrivals h = s.arrivals h := by
  rcases s.apply_request hr with ⟨-, he⟩ | ⟨k, hk, he, -⟩
  · rw [he]
    rfl
  · rw [he]
    refine arrivals_eq rfl fun t => ?_
    have hnew : ∀ w, k ≠ .worker w := fun w hw => by
      subst hw
      cases o with
      | send v c =>
        simp only [Op.begins] at hk
        split at hk <;> cases hk
      | run _ | close | awaitStart | publish _ _ | token | derive _ | cancel _ | addStage _ | addRoutes _
      | addHandlers _ _ _ | abandon _ | call _ _ _ _ | alarm _ _ | subscribe _ _ | poll _ | drop _ | closeExchange
      | tick _ | turn _ _ => cases hk
    unfold works
    show (match (s.tasks ++ [k])[t]? with | some (.worker w) => w.route == h | _ => false) = _
    cases hn : (s.tasks ++ [k])[t]? with
    | none =>
      have : s.tasks[t]? = none := by
        rw [List.getElem?_eq_none_iff, List.length_append] at hn
        exact List.getElem?_eq_none (Nat.le_trans (Nat.le_add_right _ _) hn)
      rw [this]
    | some j =>
      rcases getElem?_concat_cases hn with hj | ⟨rfl, rfl⟩
      · rw [hj]
      · rw [List.getElem?_eq_none (Nat.le_refl _)]
        cases j with
        | worker w => exact absurd rfl (hnew w)
        | run _ | close _ | awaitStart _ | call _ | errand _ _ _ | alarm _ _ _ => rfl

end State
end Relay
