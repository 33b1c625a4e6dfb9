import Relay.Proofs.Exchange.Changes
import Relay.Proofs.Router.Steps

/-! What a step of a system leaves alone: tasks other than the one that moves keep their place, their
    state and their history, subscriptions are only fed except by those who read them, tokens stay
    cancelled, and while a worker is between two waits nobody else moves. -/

namespace Relay
namespace State
variable {s s' : State} {o : Op} {t u : Nat}

/-! ### Steps and runs -/

/-- One step of a system, from the outside or by one of its tasks. -/
inductive Step (s : State) (o : Op) : State → Prop where
  | outside {s' : State} : (∀ t b, o ≠ .turn t b) → s.active = none → Outside s o s' → Step s o s'
  | turn {t : Nat} {b : Branch} {k k' : Task} {x : World} {r : Router} {new : List Task} : o = .turn t b →
      s.active = none ∨ s.active = some t → s.tasks[t]? = some k → k.Moves s t x r new k' →
      Step s o { s.moved t x r new k' with active := if k'.atWait then none else some t }
  | nobody {t : Nat} {b : Branch} : o = .turn t b → s.active = none ∨ s.active = some t → s.tasks[t]? = none →
      Step s o { s with active := none }

/-- What steps of this kind make of a system. -/
inductive Runs (kind : Op → Prop) (s : State) : State → Prop where
  | refl : Runs kind s s
  | step {s' : State} {o : Op} : Runs kind s s' → kind o → s'.Allows o → Runs kind s (s'.apply o)

/-- The tasks after task `t` has moved to `k'` and begun others. -/
theorem set_append_self {tasks new : List Task} {k k' : Task} (h : tasks[t]? = some k) :
    (tasks.set t k' ++ new)[t]? = some k' := by
  have ht := (List.getElem?_eq_some_iff.mp h).1
  rw [List.getElem?_append_left (by simpa using ht), List.getElem?_set_self ht]

theorem set_append_of_ne {tasks new : List Task} {k' j : Task} (hu : tasks[u]? = some j) (hn : u ≠ t) :
    (tasks.set t k' ++ new)[u]? = some j := by
  have hl := (List.getElem?_eq_some_iff.mp hu).1
  rw [List.getElem?_append_left (by simpa using hl), List.getElem?_set_ne hn.symm, hu]

/-- A task after a move is the one that moved, was there before, or is new. -/
theorem set_append_back {tasks new : List Task} {k' j : Task} (h : (tasks.set t k' ++ new)[u]? = some j) :
    (u = t ∧ j = k') ∨ (u ≠ t ∧ tasks[u]? = some j) ∨ (tasks.length ≤ u ∧ new[u - tasks.length]? = some j) := by
  rw [List.getElem?_append] at h
  split at h
  · rw [List.getElem?_set] at h
    split at h
    · rename_i ht
      split at h
      · cases h
        exact .inl ⟨ht.symm, rfl⟩
      · cases h
    · rename_i hn
      exact .inr (.inl ⟨fun he => hn he.symm, h⟩)
  · rename_i hl
    rw [List.length_set] at hl h
    exact .inr (.inr ⟨Nat.le_of_not_lt hl, h⟩)

theorem apply_step (ha : s.Allows o) : s.Step o (s.apply o) := by
  by_cases hn : ∃ t b, o = .turn t b
  · obtain ⟨t, b, rfl⟩ := hn
    show s.Step _ (s.turn t b)
    unfold turn
    dsimp only
    cases hk : s.tasks[t]? with
    | none =>
      have hm : s.micro t b = s := by simp [micro, hk]
      rw [hm, show s.atWait t = true by simp [atWait, hk], if_pos rfl]
      exact .nobody rfl ha hk
    | some k =>
      obtain ⟨x, r, new, k', hmoves, hm⟩ := micro_moves b hk
      rw [hm, show (s.moved t x r new k').atWait t = k'.atWait by
        rw [atWait, show (s.moved t x r new k').tasks[t]? = some k' from set_append_self hk]]
      exact .turn rfl ha hk hmoves
  · have hno : ∀ t b, o ≠ .turn t b := fun t b he => hn ⟨t, b, he⟩
    refine .outside hno ?_ (apply_outside ha hno)
    cases o with
    | turn t b => exact absurd rfl (hno t b)
    | tick ms => exact ha.1
    | poll sub | drop sub => exact ha.1
    | addStage _ | addRoutes _ | addHandlers _ _ _ | token | derive _ | cancel _ | run _ | close | awaitStart
    | abandon _ | publish _ _ | send _ _ | call _ _ _ _ | alarm _ _ | subscribe _ _ | closeExchange => exact ha

namespace Runs
variable {kind : Op → Prop}

theorem reachable (h : Runs kind s s') : Reachable s s' := by
  induction h with
  | refl => exact .refl
  | step _ _ ha ih => exact .step _ ih ha

theorem of_reachable (h : Reachable s s') : Runs (fun _ => True) s s' := by
  induction h with
  | refl => exact .refl
  | step o _ ha ih => exact .step ih trivial ha

/-- What every step keeps holds at the end of a run that began with it. -/
theorem keeps {P : State → Prop} (h : Runs kind s s') (h₀ : P s)
    (step : ∀ {s o s'}, kind o → Step s o s' → P s → P s') : P s' := by
  induction h with
  | refl => exact h₀
  | step _ hk ha ih => exact step hk (apply_step ha) ih

end Runs

/-- Whether a step is possible can be computed. -/
instance decidableAllows (s : State) : (o : Op) → Decidable (s.Allows o)
  | .turn t _ => inferInstanceAs (Decidable (s.active = none ∨ s.active = some t))
  | .tick ms =>
    inferInstanceAs (Decidable (s.active = none ∧ s.isSettled = true ∧ ∀ t ∈ s.timers, s.world.clock + ms ≤ t.due))
  | .poll sub | .drop sub => inferInstanceAs (Decidable (s.active = none ∧ s.holds sub = false))
  | .addStage _ | .addRoutes _ | .addHandlers _ _ _ | .token | .derive _ | .cancel _ | .run _ | .close | .awaitStart
  | .abandon _ | .publish _ _ | .send _ _ | .call _ _ _ _ | .alarm _ _ | .subscribe _ _ | .closeExchange =>
    inferInstanceAs (Decidable (s.active = none))

/-- What given steps make of a system, if each of them is possible. -/
def replay (s : State) : List Op → Option State
  | [] => some s
  | o :: os => if s.Allows o then (s.apply o).replay os else none

theorem replay_append {s₁ : State} {os os' : List Op} (h : s.replay os = some s₁) :
    s.replay (os ++ os') = s₁.replay os' := by
  induction os generalizing s with
  | nil =>
    cases h
    rfl
  | cons o os ih =>
    rw [replay] at h
    split at h
    · rename_i ha
      rw [List.cons_append, replay, if_pos ha, ih h]
    · cases h

theorem Runs.replay {kind : Op → Prop} {s₀ : State} {os : List Op} (h : Runs kind s₀ s) (hk : ∀ o ∈ os, kind o)
    (hr : s.replay os = some s') : Runs kind s₀ s' := by
  induction os generalizing s with
  | nil =>
    cases hr
    exact h
  | cons o os ih =>
    rw [State.replay] at hr
    split at hr
    · rename_i ha
      exact ih (h.step (hk o List.mem_cons_self) ha) (fun o' ho' => hk o' (List.mem_cons_of_mem _ ho')) hr
    · cases hr

/-! ### Tasks and their histories -/

namespace Step

/-- A task that does not move itself is there afterwards as it was, unless it is a caller that has given
    up. -/
theorem task (h : s.Step o s') {k : Task} (hk : s.tasks[u]? = some k) (hn : ∀ b, o ≠ .turn u b)
    (hc : ∀ c, k ≠ .close c) : s'.tasks[u]? = some k := by
  cases h with
  | outside _ _ h =>
    cases h with
    | registers _ _ | refuses | stirs _ => exact hk
    | begins _ _ =>
      show (s.tasks ++ [_])[u]? = some k
      rw [List.getElem?_append_left (List.getElem?_eq_some_iff.mp hk).1, hk]
    | @abandons t c ht _ =>
      show (s.tasks.set t _)[u]? = some k
      rw [List.getElem?_set_ne, hk]
      rintro rfl
      rw [ht] at hk
      cases hk
      exact hc c rfl
  | turn ho _ _ _ => exact set_append_of_ne hk fun he => hn _ (he ▸ ho)
  | nobody _ _ _ => exact hk

/-- Where a task comes from. -/
theorem back (h : s.Step o s') {k : Task} (hk : s'.tasks[u]? = some k) :
    s.tasks[u]? = some k ∨ (∃ c, k = .close c) ∨ (s.tasks.length ≤ u ∧ k.Begun o) ∨
      (∃ b j x r new, o = .turn u b ∧ s.tasks[u]? = some j ∧ j.Moves s u x r new k) ∨
      ∃ t b j x r new j', o = .turn t b ∧ s.tasks[t]? = some j ∧ j.Moves s t x r new j' ∧ s.tasks.length ≤ u ∧
        new[u - s.tasks.length]? = some k := by
  cases h with
  | outside _ _ h =>
    cases h with
    | registers _ _ | refuses | stirs _ => exact .inl hk
    | @begins x k' _ hb =>
      replace hk : (s.tasks ++ [k'])[u]? = some k := hk
      rw [List.getElem?_append] at hk
      split at hk
      · exact .inl hk
      · rename_i hl
        obtain rfl := List.mem_singleton.mp (List.mem_of_getElem? hk)
        exact .inr (.inr (.inl ⟨Nat.le_of_not_lt hl, hb⟩))
    | @abandons t c ht _ =>
      replace hk : (s.tasks.set t _)[u]? = some k := hk
      rw [List.getElem?_set] at hk
      split at hk
      · split at hk
        · cases hk
          exact .inr (.inl ⟨_, rfl⟩)
        · cases hk
      · exact .inl hk
  | turn ho _ ht hm =>
    rcases set_append_back hk with ⟨rfl, rfl⟩ | ⟨-, hk⟩ | ⟨hl, hnew⟩
    · exact .inr (.inr (.inr (.inl ⟨_, _, _, _, _, ho, ht, hm⟩)))
    · exact .inl hk
    · exact .inr (.inr (.inr (.inr ⟨_, _, _, _, _, _, _, ho, ht, hm, hl, hnew⟩)))
  | nobody _ _ _ => exact .inl hk

/-- Only a turn of its own adds to the history of a task that is there. -/
theorem history (h : s.Step o s') (hl : u < s.tasks.length) (hn : ∀ b, o ≠ .turn u b) :
    s'.world.history u = s.world.history u := by
  cases h with
  | outside _ _ h =>
    cases h with
    | registers _ _ | abandons _ _ => exact World.history_eq rfl u
    | refuses => exact World.history_note_of_ne _ _ (Nat.ne_of_gt hl)
    | stirs hx | begins hx _ => exact World.history_eq hx.journal u
  | turn ho _ _ hm => exact hm.touches.history_of_ne fun he => hn _ (he ▸ ho)
  | nobody _ _ _ => rfl

/-- Before it begins, nothing is written down in the name of a task but that handlers were refused. -/
theorem unborn (h : s.Step o s') (hs : s.tasks.length ≤ u)
    (hh : ∀ e ∈ s.world.history u, ∃ role id err, e = .noticed (.addFailed role id err)) :
    ∀ e ∈ s'.world.history u, ∃ role id err, e = .noticed (.addFailed role id err) := by
  cases h with
  | outside _ _ h =>
    cases h with
    | registers _ _ | abandons _ _ => exact hh
    | stirs hx | begins hx _ =>
      intro e he
      exact hh e (World.history_eq hx.journal u ▸ he)
    | @refuses role id err =>
      intro e he
      by_cases hu : s.tasks.length = u
      · replace he : e ∈ (s.world.note s.tasks.length (.noticed (.addFailed role id err))).history u := he
        rw [← hu, World.history_note_self, List.mem_append, List.mem_singleton] at he
        rcases he with he | rfl
        · exact hh e (hu ▸ he)
        · exact ⟨role, id, err, rfl⟩
      · exact hh e (World.history_note_of_ne s.world _ hu ▸ he)
  | turn ho _ ht hm =>
    have hne : u ≠ _ := Nat.ne_of_gt (Nat.lt_of_lt_of_le (List.getElem?_eq_some_iff.mp ht).1 hs)
    exact fun e he => hh e (hm.touches.history_of_ne hne ▸ he)
  | nobody _ _ _ => exact hh

/-- What is written down stays. -/
theorem journal_mono (h : s.Step o s') {e : Entry} (he : e ∈ s.world.journal) : e ∈ s'.world.journal := by
  cases h with
  | outside _ _ h =>
    cases h with
    | registers _ _ | abandons _ _ => exact he
    | refuses => exact List.mem_cons_of_mem _ he
    | stirs hx | begins hx _ => exact hx.journal ▸ he
  | turn _ _ _ hm =>
    obtain ⟨new, hj, -⟩ := hm.touches.journal
    exact hj.symm ▸ List.mem_append_right new he
  | nobody _ _ _ => exact he

theorem length_le (h : s.Step o s') : s.tasks.length ≤ s'.tasks.length := by
  cases h with
  | outside _ _ h =>
    cases h with
    | registers _ _ | refuses | stirs _ => exact Nat.le_refl _
    | begins _ _ => simp [State.spawn]
    | abandons _ _ => simp [State.setTask]
  | turn _ _ _ _ => simp [State.moved]
  | nobody _ _ _ => exact Nat.le_refl _

/-- A task that is there moves by itself, or stays as it is, unless it is a caller that gives up. -/
theorem own (h : s.Step o s') {k : Task} (hk : s.tasks[u]? = some k) :
    (∃ b k' x r new active, o = .turn u b ∧ k.Moves s u x r new k' ∧ s' = { s.moved u x r new k' with active } ∧
      s'.tasks[u]? = some k') ∨
    (∀ b, o ≠ .turn u b) ∧ (s'.tasks[u]? = some k ∨
      (∃ c, k = .close c ∧ ∀ o, c ≠ .ended o) ∧ s'.tasks[u]? = some (.close (.ended (.panicked none)))) := by
  by_cases hn : ∃ b, o = .turn u b
  · obtain ⟨b, rfl⟩ := hn
    cases h with
    | outside hn _ _ => exact absurd rfl (hn u b)
    | turn ho _ ht hm =>
      cases ho
      rw [hk] at ht
      cases ht
      exact .inl ⟨b, _, _, _, _, _, rfl, hm, rfl, set_append_self hk⟩
    | nobody ho _ ht =>
      cases ho
      rw [hk] at ht
      cases ht
  · have hno : ∀ b, o ≠ .turn u b := fun b he => hn ⟨b, he⟩
    refine .inr ⟨hno, ?_⟩
    by_cases hc : ∃ c, k = .close c
    · obtain ⟨c, rfl⟩ := hc
      cases h with
      | outside _ _ h =>
        cases h with
        | registers _ _ | refuses | stirs _ => exact .inl hk
        | begins _ _ => exact .inl ((List.getElem?_append_left (List.getElem?_eq_some_iff.mp hk).1).trans hk)
        | @abandons t c' ht hc' =>
          show (s.tasks.set t _)[u]? = _ ∨ _ ∧ (s.tasks.set t _)[u]? = _
          by_cases hu : t = u
          · subst hu
            rw [hk] at ht
            cases ht
            exact .inr ⟨⟨c, rfl, hc'⟩, List.getElem?_set_self (List.getElem?_eq_some_iff.mp hk).1⟩
          · exact .inl ((List.getElem?_set_ne hu).trans hk)
      | turn ho _ _ _ => exact .inl (set_append_of_ne hk fun he => hno _ (he ▸ ho))
      | nobody _ _ _ => exact .inl hk
    · exact .inl (h.task hk hno fun c he => hc ⟨c, he⟩)

/-- A worker takes a step of its own, or stays as it is. -/
theorem worker (h : s.Step o s') {w : Worker} (hw : s.tasks[u]? = some (.worker w)) :
    (∃ b w', o = .turn u b ∧ s'.tasks[u]? = some (.worker w') ∧ w.Moves u s.world s'.world w' ∧
      s'.router = s.router) ∨
    ((∀ b, o ≠ .turn u b) ∧ s'.tasks[u]? = some (.worker w)) := by
  by_cases hn : ∃ b, o = .turn u b
  · obtain ⟨b, rfl⟩ := hn
    cases h with
    | outside hn _ _ => exact absurd rfl (hn u b)
    | turn ho _ ht hm =>
      cases ho
      rw [hw] at ht
      cases ht
      cases hm with
      | stays => exact .inl ⟨b, w, rfl, set_append_self hw, .stays, rfl⟩
      | @worker _ w' x hm => exact .inl ⟨b, w', rfl, set_append_self hw, hm, rfl⟩
    | nobody ho _ ht =>
      cases ho
      rw [hw] at ht
      cases ht
  · have hno : ∀ b, o ≠ .turn u b := fun b he => hn ⟨b, he⟩
    exact .inr ⟨hno, h.task hw hno nofun⟩

/-- A worker was there before, or has just been begun by the supervisor. -/
theorem worker_back (h : s.Step o s') {w' : Worker} (hw : s'.tasks[u]? = some (.worker w')) :
    (∃ w, s.tasks[u]? = some (.worker w)) ∨
      ∃ t v x r new v' active, s.tasks[t]? = some (.run v) ∧ v.Moves s t x r new v' ∧
        s' = { s.moved t x r new (.run v') with active } ∧ s.tasks.length ≤ u ∧
        new[u - s.tasks.length]? = some (.worker w') := by
  cases h with
  | outside _ _ h =>
    cases h with
    | registers _ _ | refuses | stirs _ => exact .inl ⟨w', hw⟩
    | @begins x k _ hb =>
      replace hw : (s.tasks ++ [k])[u]? = some (.worker w') := hw
      rw [List.getElem?_append] at hw
      split at hw
      · exact .inl ⟨w', hw⟩
      · obtain rfl := List.mem_singleton.mp (List.mem_of_getElem? hw)
        cases hb
    | @abandons t c ht _ =>
      replace hw : (s.tasks.set t _)[u]? = some (.worker w') := hw
      rw [List.getElem?_set] at hw
      split at hw
      · split at hw <;> cases hw
      · exact .inl ⟨w', hw⟩
  | @turn t b k k' x r new _ _ ht hm =>
    rcases set_append_back hw with ⟨rfl, rfl⟩ | ⟨-, hw⟩ | ⟨hl, hnew⟩
    · cases hm with
      | stays => exact .inl ⟨w', ht⟩
      | @worker w _ _ _ => exact .inl ⟨w, ht⟩
    · exact .inl ⟨w', hw⟩
    · cases hm with
      | @run v v' _ _ _ hv => exact .inr ⟨t, v, x, r, new, v', _, ht, hv, rfl, hl, hnew⟩
      | stays | worker _ | close _ | learns _ | call _ | errand _ _ | unsent _ | sent _ | rings _ => cases hnew
  | nobody _ _ _ => exact .inl ⟨w', hw⟩

/-- A worker has just taken a step; or it has not, and was there as it is or has just been begun. -/
theorem worker_from (h : s.Step o s') {w' : Worker} (hw' : s'.tasks[u]? = some (.worker w')) :
    (∃ (b : Branch) (w : Worker), o = .turn u b ∧ s.tasks[u]? = some (.worker w) ∧ w.Moves u s.world s'.world w') ∨
      (∀ b, o ≠ .turn u b) ∧ (s.tasks[u]? = some (.worker w') ∨
        ∃ (t : Nat) (v v' : Supervision) (x : World) (r : Router) (new : List Task), s.tasks[t]? = some (.run v) ∧
          v.Moves s t x r new v' ∧ .worker w' ∈ new ∧ s.tasks.length ≤ u ∧ w'.occupation = .idle) := by
  rcases h.worker_back hw' with ⟨w, hw⟩ | ⟨t, v, x, r, new, v', active, ht, hm, -, hl, hnew⟩
  · rcases h.worker hw with ⟨b, w'', ho, hw'', hm, -⟩ | ⟨hn, hsame⟩
    · rw [hw'] at hw''
      cases hw''
      exact .inl ⟨b, w, ho, hw, hm⟩
    · rw [hw'] at hsame
      cases hsame
      exact .inr ⟨hn, .inl hw⟩
  · have hmem := List.mem_of_getElem? hnew
    obtain ⟨w, he, hidle⟩ := Task.Moves.new_idle (.run hm) hmem
    cases he
    refine .inr ⟨fun b ho => ?_, .inr ⟨t, v, v', x, r, new, ht, hm, hmem, hl, hidle⟩⟩
    have hnone : s.tasks[u]? = none := List.getElem?_eq_none hl
    cases h with
    | outside hn _ _ => exact hn u b ho
    | turn ho' _ hk _ =>
      rw [ho] at ho'
      cases ho'
      rw [hnone] at hk
      cases hk
    | nobody _ _ _ =>
      rw [hnone] at hw'
      cases hw'

/-- A run of the router was there before, or has just been begun. -/
theorem run_back (h : s.Step o s') {v' : Supervision} (hv : s'.tasks[u]? = some (.run v')) :
    (∃ v, s.tasks[u]? = some (.run v)) ∨ ∃ c, v' = .fresh c := by
  rcases h.back hv with hv | ⟨c, hc⟩ | ⟨-, hb⟩ | ⟨b, j, x, r, new, -, hj, hm⟩ | ⟨t, b, j, x, r, new, j', -, -, hm, -, hnew⟩
  · exact .inl ⟨v', hv⟩
  · cases hc
  · cases hb
    exact .inr ⟨_, rfl⟩
  · cases hm with
    | stays | run _ => exact .inl ⟨_, hj⟩
  · obtain ⟨w, he, -⟩ := hm.new_idle (List.mem_of_getElem? hnew)
    cases he

/-- A caller that closes the router was there before, or has just begun. -/
theorem close_back (h : s.Step o s') {c' : Closing} (hc' : s'.tasks[u]? = some (.close c')) :
    (∃ c, s.tasks[u]? = some (.close c)) ∨ c' = .fresh := by
  cases h with
  | outside _ _ h =>
    cases h with
    | registers _ _ | refuses | stirs _ => exact .inl ⟨c', hc'⟩
    | @begins x k _ hb =>
      replace hc' : (s.tasks ++ [k])[u]? = some (.close c') := hc'
      rw [List.getElem?_append] at hc'
      split at hc'
      · exact .inl ⟨c', hc'⟩
      · obtain rfl := List.mem_singleton.mp (List.mem_of_getElem? hc')
        cases hb
        exact .inr rfl
    | @abandons t c ht _ =>
      replace hc' : (s.tasks.set t _)[u]? = some (.close c') := hc'
      rw [List.getElem?_set] at hc'
      split at hc'
      · rename_i hu
        exact .inl ⟨c, hu ▸ ht⟩
      · exact .inl ⟨c', hc'⟩
  | turn _ _ ht hm =>
    rcases set_append_back hc' with ⟨rfl, rfl⟩ | ⟨-, hc⟩ | ⟨-, hnew⟩
    · cases hm with
      | stays | close _ => exact .inl ⟨_, ht⟩
    · exact .inl ⟨c', hc⟩
    · obtain ⟨w, he, -⟩ := hm.new_idle (List.mem_of_getElem? hnew)
      cases he
  | nobody _ _ _ => exact .inl ⟨c', hc'⟩

/-- Whether the router belongs to a broker is settled from the start. -/
theorem broker (h : s.Step o s') : s'.broker = s.broker := by
  cases h with
  | outside _ _ h => cases h <;> rfl
  | turn _ _ _ _ | nobody _ _ _ => rfl

/-- A step calls no handler if the task that moves has not come to the end of its pipeline. -/
theorem invocations (h : s.Step o s') (hn : ∀ {t : Nat} {k : Task} {c : Call} {ctx : Context} {m : Message}
      {h : Handler}, s.tasks[t]? = some k → k.call? = some c → c.phase = .entering [] ctx m → c.handler ≠ some h) :
    s'.world.invocations = s.world.invocations := by
  cases h with
  | outside _ _ h =>
    cases h with
    | registers _ _ | abandons _ _ | refuses => rfl
    | stirs hx | begins hx _ => exact congrArg (List.filter _) hx.journal
  | turn _ _ ht hm =>
    refine hm.touches.invocations fun e he => Bool.eq_false_iff.mpr fun hcall => ?_
    obtain ⟨c, ctx, m, h, hk, hp, hh⟩ := he hcall
    exact hn ht hk hp hh
  | nobody _ _ _ => rfl

/-- The stages and routes of the router stay, unless more are added from the outside. -/
theorem router (h : s.Step o s') : (s'.router.stages = s.router.stages ∧ s'.router.routes = s.router.routes) ∨
    s.router.Grows o.adds s'.router := by
  cases h with
  | outside _ _ h =>
    cases h with
    | registers _ hg => exact .inr hg
    | refuses | stirs _ | begins _ _ | abandons _ _ => exact .inl ⟨rfl, rfl⟩
  | turn _ _ _ hm => exact .inl hm.router
  | nobody _ _ _ => exact .inl ⟨rfl, rfl⟩

/-! ### The exchange and the tokens -/

/-- What a step takes from the subscriptions is taken by the task that moves, or from one that no task
    reads. -/
theorem hub (h : s.Step o s') : ∃ ops, s'.world.hub = s.world.hub.run ops ∧ ∀ p ∈ ops, ∀ i, p.reads = some i →
    (∃ t b k, o = .turn t b ∧ s.tasks[t]? = some k ∧ k.Reads i) ∨ ∀ k ∈ s.tasks, ¬k.Reads i := by
  have still : ∀ {x : World}, x.hub = s.world.hub → ∃ ops, x.hub = s.world.hub.run ops ∧
      ∀ p ∈ ops, ∀ i, p.reads = some i →
        (∃ t b k, o = .turn t b ∧ s.tasks[t]? = some k ∧ k.Reads i) ∨ ∀ k ∈ s.tasks, ¬k.Reads i :=
    fun hx => ⟨[], hx, fun _ hp => (nomatch hp)⟩
  cases h with
  | outside _ _ h =>
    cases h with
    | registers _ _ | refuses | abandons _ _ => exact still rfl
    | stirs hx =>
      obtain ⟨ops, hh, hr⟩ := hx.hub
      exact ⟨ops, hh, fun p hp i hi => .inr (hr p hp i hi)⟩
    | begins hx _ =>
      obtain ⟨ops, hh, hr⟩ := hx.hub
      exact ⟨ops, hh, fun p hp i hi => (hr p hp i hi).elim⟩
  | turn ho _ ht hm =>
    obtain ⟨ops, hh, hr⟩ := hm.touches.hub
    exact ⟨ops, hh, fun p hp i hi => .inl ⟨_, _, _, ho, ht, hr p hp i hi⟩⟩
  | nobody _ _ _ => exact still rfl

theorem evolves (h : s.Step o s') : s.world.exchange.Evolves s'.world.exchange := by
  obtain ⟨ops, hh, -⟩ := h.hub
  show s.world.hub.exchange.Evolves s'.world.hub.exchange
  rw [hh]
  exact Hub.run_evolves _ ops

/-- What holds of the exchange whatever its users do to it holds of it after every step. -/
theorem exchange {P : Exchange → Prop} (hP : ∀ {h : Hub} (o : Hub.Op), P h.exchange → P (h.step o).exchange)
    (h : s.Step o s') (hs : P s.world.exchange) : P s'.world.exchange := by
  obtain ⟨ops, hh, -⟩ := h.hub
  have hrun : ∀ (ops : List Hub.Op) (h : Hub), P h.exchange → P (h.run ops).exchange := fun ops => by
    induction ops with
    | nil => exact fun _ => id
    | cons o ops ih => exact fun h hs => ih (h.step o) (hP o hs)
  show P s'.world.hub.exchange
  rw [hh]
  exact hrun ops _ hs

/-- A subscription that is not read by the task that moves, but by another, is only fed. -/
theorem feeds (h : s.Step o s') {i : Nat} {sub : Subscription} {j : Task}
    (hs : s.world.exchange.subscriptions[i]? = some sub) (hj : s.tasks[u]? = some j) (hr : j.Reads i)
    (hn : ∀ t b k, o = .turn t b → s.tasks[t]? = some k → ¬k.Reads i) :
    ∃ sub', s'.world.exchange.subscriptions[i]? = some sub' ∧ sub.Fed sub' := by
  obtain ⟨ops, hh, ho⟩ := h.hub
  have hf : s.world.hub.exchange.Feeds (· ≠ i) (s.world.hub.run ops).exchange :=
    Hub.run_feeds _ fun p hp i' hi' => by
      rintro rfl
      rcases ho p hp i' hi' with ⟨t, b, k, ho, hk, hkr⟩ | hfree
      · exact hn t b k ho hk hkr
      · exact hfree j (List.mem_of_getElem? hj) hr
  obtain ⟨sub', hs', hfed⟩ := hf i sub (fun hne => hne rfl) hs
  exact ⟨sub', by rw [← hh] at hs'; exact hs', hfed⟩

end Step

/-- No token is ever taken back. -/
theorem Step.next_le (h : s.Step o s') : s.world.tokens.next ≤ s'.world.tokens.next := by
  obtain ⟨ops, hh, -⟩ := h.hub
  show s.world.hub.tokens.next ≤ s'.world.hub.tokens.next
  rw [hh]
  exact Hub.run_next_le s.world.hub ops

/-- A token stays cancelled. -/
theorem Step.cancelled (h : s.Step o s') {t : Token} (ht : s.world.tokens.isCancelled t = true) :
    s'.world.tokens.isCancelled t = true := by
  obtain ⟨ops, hh, -⟩ := h.hub
  show s'.world.hub.tokens.isCancelled t = true
  rw [hh]
  exact Hub.run_cancelled (h := s.world.hub) ops ht

theorem Step.tokens_closed (h : s.Step o s') (hc : s.world.tokens.Closed) : s'.world.tokens.Closed := by
  obtain ⟨ops, hh, -⟩ := h.hub
  show s'.world.hub.tokens.Closed
  rw [hh]
  exact Hub.run_tokens_closed ops hc

/-- A token stays below those that it was derived from. -/
theorem Step.below (h : s.Step o s') {t i : Token} (hi : i < s.world.tokens.next) :
    s'.world.tokens.below t i = s.world.tokens.below t i := by
  obtain ⟨ops, hh, -⟩ := h.hub
  show s'.world.hub.tokens.below t i = s.world.hub.tokens.below t i
  rw [hh]
  exact Hub.run_below ops hi

/-! ### Programs of the outside world -/

/-- What may be done to a router and around it: messages come to handlers through their topics only. -/
def Op.OfRouter : Op → Prop
  | .call .. => False
  | _ => True

instance Op.decidableOfRouter : (o : Op) → Decidable o.OfRouter
  | .call .. => .isFalse id
  | .addStage _ | .addRoutes _ | .addHandlers .. | .token | .derive _ | .cancel _ | .run _ | .close | .awaitStart
  | .abandon _ | .publish .. | .send .. | .alarm .. | .subscribe .. | .poll _ | .drop _ | .closeExchange | .tick _
  | .turn .. => .isTrue trivial

/-- The calls of tasks that are no workers are no more than programs. -/
structure Programs (s : State) : Prop where
  calls : ∀ {t : Nat} {c : Call}, s.tasks[t]? = some (.call c) → c.IsProgram
  errands : ∀ {t : Nat} {e : Errand} {c : Call} {o : Option Outcome}, s.tasks[t]? = some (.errand e c o) → c.IsProgram

theorem Programs.step (hp : s.Programs) (hk : o.OfRouter) (h : s.Step o s') : s'.Programs := by
  -- A task of the kind in question was there before, has just begun, or has moved.
  refine ⟨fun {t c} hc => ?_, fun {t e c out} hc => ?_⟩
  · rcases h.back hc with hc | ⟨c, hc⟩ | ⟨-, hb⟩ | ⟨b, j, x, r, new, -, hj, hm⟩ |
      ⟨t', b, j, x, r, new, j', -, hj, hm, -, hnew⟩
    · exact hp.calls hc
    · cases hc
    · cases hb with
      | program hc => exact hc
      | call ho =>
        subst ho
        exact hk.elim
    · cases hm with
      | stays => exact hp.calls hj
      | call hm => exact hm.isProgram (hp.calls hj)
    · obtain ⟨w, he, -⟩ := hm.new_idle (List.mem_of_getElem? hnew)
      cases he
  · rcases h.back hc with hc | ⟨c, hc⟩ | ⟨-, hb⟩ | ⟨b, j, x, r, new, -, hj, hm⟩ |
      ⟨t', b, j, x, r, new, j', -, hj, hm, -, hnew⟩
    · exact hp.errands hc
    · cases hc
    · cases hb with
      | errand hprogram => exact hprogram
    · cases hm with
      | stays => exact hp.errands hj
      | errand _ hm => exact hm.isProgram (hp.errands hj)
      | unsent _ | sent _ => exact hp.errands hj
    · obtain ⟨w, he, -⟩ := hm.new_idle (List.mem_of_getElem? hnew)
      cases he

/-- A task that is no worker runs programs only. -/
theorem Programs.program {k : Task} {c : Call} {t : Nat} (hp : s.Programs) (ht : s.tasks[t]? = some k)
    (hn : ∀ w, k ≠ .worker w) (hc : k.call? = some c) : c.IsProgram := by
  cases k with
  | worker w => exact absurd rfl (hn w)
  | call c' =>
    cases hc
    exact hp.calls ht
  | errand e c' out =>
    cases hc
    exact hp.errands ht
  | run _ | close _ | awaitStart _ | alarm _ _ _ => cases hc

/-- Where no worker is on its way in, a step calls no handler. -/
theorem Programs.invocations (hp : s.Programs) (h : s.Step o s')
    (hw : ∀ {t : Nat} {w : Worker} {m m' : Message} {c : Call} {ctx : Context}, s.tasks[t]? = some (.worker w) →
      w.occupation = .busy m c → c.phase ≠ .entering [] ctx m') :
    s'.world.invocations = s.world.invocations := by
  refine h.invocations fun {t k c ctx m hd} hk hc hphase hh => ?_
  cases k with
  | worker w =>
    rw [Task.call?] at hc
    split at hc
    · rename_i ho
      cases hc
      exact hw hk ho hphase
    · cases hc
  | call c' =>
    cases hc
    exact (hp.calls hk).entering _ _ _ hphase
  | errand e c' out =>
    cases hc
    exact (hp.errands hk).entering _ _ _ hphase
  | run _ | close _ | awaitStart _ | alarm _ _ _ => cases hc

/-! ### Between two waits -/

/-- A worker that is between two waits keeps all others out. -/
def Locked (s : State) : Prop :=
  ∀ t w, s.tasks[t]? = some (.worker w) → (Task.worker w).atWait = false → s.active = some t

/-- A task that keeps the others out is the only one that moves. -/
theorem Step.turn_of_active (h : s.Step o s') {t : Nat} (ha : s.active = some t) : ∃ b, o = .turn t b := by
  cases h with
  | outside _ hn _ =>
    rw [ha] at hn
    cases hn
  | @turn _ b _ _ _ _ _ ho hn _ _ | @nobody _ b ho hn _ =>
    rw [ha] at hn
    rcases hn with hn | hn
    · cases hn
    · cases hn
      exact ⟨b, ho⟩

/-- While a worker is between two waits, every step is its own. -/
theorem Step.alone (h : s.Step o s') (hl : s.Locked) {t : Nat} {w : Worker} (hw : s.tasks[t]? = some (.worker w))
    (hwait : (Task.worker w).atWait = false) : ∃ b, o = .turn t b := h.turn_of_active (hl t w hw hwait)

theorem Step.locked (h : s.Step o s') (hl : s.Locked) : s'.Locked := by
  intro t w' hw' hwait
  rcases h.worker_back hw' with ⟨w, hw⟩ | ⟨_, _, _, _, _, _, _, _, hm, -, -, hnew⟩
  · rcases h.worker hw with ⟨b, _, ho, -⟩ | ⟨hn, hsame⟩
    · cases h with
      | outside hn _ _ => exact absurd ho (hn t b)
      | turn ho' _ hk _ =>
        rw [ho] at ho'
        cases ho'
        rw [show (State.moved _ _ _ _ _ _).tasks[_]? = _ from set_append_self hk] at hw'
        cases hw'
        show (if _ then _ else _) = _
        rw [hwait]
        rfl
      | nobody ho' _ hk =>
        rw [ho] at ho'
        cases ho'
        rw [hw] at hk
        cases hk
    · rw [hw'] at hsame
      cases hsame
      obtain ⟨b, ho⟩ := h.alone hl hw hwait
      exact absurd ho (hn b)
  · obtain ⟨w, he, hidle⟩ := Task.Moves.new_idle (.run hm) (List.mem_of_getElem? hnew)
    cases he
    simp [Task.atWait, hidle] at hwait

end State
end Relay
