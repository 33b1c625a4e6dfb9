import Relay.Proofs.Router.Lifecycle

/-! The failures of workers. A worker that breaks off, or whose last message failed in a way that will pass,
    leaves one entry; the supervisor gathers the entries, whichever of its branches it takes, and one
    caller that closes the router is told all of them. -/

namespace Relay

/-- What a worker leaves in the list of failures whose last message ended like this. -/
def Outcome.failure? (name : String) : Outcome → Option String
  | .ok => none
  | .failed e => if e.retryable then some (name ++ ": " ++ e.message) else none
  | .panicked _ => some (name ++ ": worker panicked")

/-- The failures of workers that somebody is told with this outcome. -/
def Outcome.failures? : Outcome → Option (List String)
  | .failed (.lifecycle (.workers fs)) | .failed (.broker .runRouter (.lifecycle (.workers fs))) => some fs
  | _ => none

/-- How a message ended, if the event is the end of one. -/
def Event.settled? : Event → Option Outcome
  | .settled _ _ o => some o
  | _ => none

/-- How the last message that a task has dealt with ended. -/
def World.ending? (w : World) (t : Nat) : Option Outcome := ((w.history t).filterMap Event.settled?).getLast?

/-- The failure that a worker ends with, as things stand. -/
def Worker.failure? (w : Worker) : Option String :=
  match w.occupation with
  | .ended f => f
  | _ => w.lastError

/-- The failures that a caller that closed the router has been told. -/
def Task.told? : Task → Option (List String)
  | .close (.ended o) => o.failures?
  | _ => none

namespace State

/-- The name of a worker and how its last message ended. -/
def fate? (s : State) (t : Nat) : Option (String × Option Outcome) :=
  match s.tasks[t]? with
  | some (.worker w) => some (w.name, s.world.ending? t)
  | _ => none

/-- All workers, with how the last message of each ended. -/
def fates (s : State) : List (String × Option Outcome) := (List.range s.tasks.length).filterMap s.fate?

/-- One entry for each worker that broke off or whose last message failed in a way that will pass. -/
def entries (s : State) : List String := s.fates.filterMap fun f => f.2.bind (·.failure? f.1)

/-- What callers that closed the router have been told of failures. -/
def reports (s : State) : List (List String) := s.tasks.filterMap Task.told?

end State

/-! ### What a worker leaves -/

theorem World.ending?_eq {x x' : World} {t : Nat} {new : List Event} (h : x'.history t = x.history t ++ new) :
    x'.ending? t = (new.filterMap Event.settled?).getLast?.or (x.ending? t) := by
  simp [ending?, h, List.getLast?_append]

theorem World.ending?_of_inner {x x' : World} {t : Nat} {new : List Event} (h : x'.history t = x.history t ++ new)
    (hn : ∀ e ∈ new, e.isInner = true) : x'.ending? t = x.ending? t := by
  have hnone : new.filterMap Event.settled? = [] := List.filterMap_eq_nil_iff.mpr fun e he => by
    have hi := hn e he
    cases e with
    | settled _ _ _ => cases hi
    | taken _ _ | entered _ | left _ | called _ _ _ _ _ | returned _ _ _ _ | spanned _ _ | noticed _ => rfl
  simp [ending?_eq h, hnone]

/-- A worker remembers of its messages what its last one has left. -/
theorem Worker.Moves.failure {t : Nat} {x x' : World} {w w' : Worker} (hm : w.Moves t x x' w')
    (h : w.failure? = (x.ending? t).bind (·.failure? w.name)) :
    w'.failure? = (x'.ending? t).bind (·.failure? w'.name) := by
  cases hm with
  | stays => exact h
  | @takes sub m rest ho _ _ _ =>
    rw [failure?, ho] at h
    rw [World.ending?_eq (World.history_note_self _ t _)]
    exact h
  | stops ho _ =>
    rw [failure?, ho] at h
    exact h
  | works ho _ hc =>
    rw [failure?, ho] at h
    have htouch : World.Touches (fun _ => False) _ t x x' := hc.touches
    obtain ⟨new, hh, hn⟩ := htouch.history
    rw [World.ending?_of_inner hh fun e he => (hn e he).1]
    exact h
  | @succeeds m c ho _ =>
    rw [World.ending?_eq (World.history_note_self _ t _)]
    rfl
  | @fails m c e lastError ho _ he =>
    have hh : ((x.note t (.settled w.route m (.failed e))).note t
        (.noticed (.messageFailed w.name w.topic m.id e))).history t =
        x.history t ++ [.settled w.route m (.failed e), .noticed (.messageFailed w.name w.topic m.id e)] := by
      simp [World.history_note_self]
    rw [World.ending?_eq hh, he]
    rfl
  | @breaksOff m c reason ho _ =>
    have hh : ({ x.note t (.settled w.route m (.panicked reason)) with
        exchange := x.exchange.drop w.subscription }.note t (.noticed (.workerPanicked w.name))).history t =
        x.history t ++ [.settled w.route m (.panicked reason), .noticed (.workerPanicked w.name)] := by
      rw [World.history_note_self]
      show (x.note t (.settled w.route m (.panicked reason))).history t ++ _ = _
      simp [World.history_note_self]
    rw [World.ending?_eq hh]
    rfl

theorem State.workerFor_failure {s : State} {run : Context} {r sub : Nat} {w : Worker}
    (h : s.workerFor run r sub = some (.worker w)) : w.failure? = none := by
  obtain ⟨route, -, he⟩ := Option.map_eq_some_iff.mp h
  cases he
  rfl

theorem Supervision.Moves.new_failure {s : State} {t : Nat} {v v' : Supervision} {x : World} {r : Router}
    {new : List Task} {w : Worker} (h : v.Moves s t x r new v') (hw : .worker w ∈ new) : w.failure? = none := by
  cases h with
  | serves _ hn =>
    subst hn
    obtain ⟨m, -, hm⟩ := List.mem_filterMap.mp hw
    exact State.workerFor_failure hm
  | stays | rejected _ _ | begins _ _ | skips _ _ | subscribes _ _ _ | declined _ _ _ _ | breaksOff _ _ _
  | joins _ _ _ _ | drains _ _ | awaits _ _ _ | finishes _ _ => cases hw

namespace State
variable {s s' start : State} {o : Op} {out : Outcome} {t u : Nat} {joined left : List Nat} {failures : List String}

/-- Every worker remembers what its last message has left. -/
def Remembers (s : State) : Prop :=
  ∀ {t : Nat} {w : Worker}, s.tasks[t]? = some (.worker w) →
    w.failure? = (s.world.ending? t).bind (·.failure? w.name)

theorem Remembers.step (hs : s.Remembers) (hd : s.Delivers) (h : s.Step o s') : s'.Remembers := by
  intro t w' hw'
  rcases h.worker_from hw' with ⟨b, w, -, hw, hm⟩ | ⟨hn, hw | ⟨_, _, _, _, _, _, -, hm, hnew, hl, -⟩⟩
  · exact hm.failure (hs hw)
  · have hh := h.history (List.getElem?_eq_some_iff.mp hw).1 hn
    rw [World.ending?, hh]
    exact hs hw
  · -- A worker that has just been begun has dealt with no message.
    have hunborn := h.unborn hl (hd.unborn t hl)
    have hnone : (s'.world.history t).filterMap Event.settled? = [] := List.filterMap_eq_nil_iff.mpr fun e he => by
      obtain ⟨role, id, err, rfl⟩ := hunborn e he
      rfl
    rw [hm.new_failure hnew, World.ending?, hnone]
    rfl

/-! ### What the supervisor has gathered -/

/-- The workers in `joined` have been seen to end, the others are waited for, and these are the failures of
    the former. -/
structure Gathers (s : State) (joined left : List Nat) (failures : List String) : Prop where
  distinct : (joined ++ left).Nodup
  workers : ∀ u, u ∈ joined ++ left ↔ ∃ w, s.tasks[u]? = some (.worker w)
  ended : ∀ u ∈ joined, (s.ended? u).isSome
  failures : failures = (joined.map s.ended?).filterMap Option.join

theorem Step.ended? (h : s.Step o s') (he : (s.ended? u).isSome) : s'.ended? u = s.ended? u := by
  unfold State.ended? at he ⊢
  split at he
  · rename_i w hw
    have hf : ∃ f, w.occupation = .ended f := by
      cases ho : w.occupation with
      | ended f => exact ⟨f, rfl⟩
      | idle | busy _ _ => simp [ho, Occupation.ended?] at he
    obtain ⟨f, hf⟩ := hf
    have hw' : ∃ w', s'.tasks[u]? = some (.worker w') ∧ w.Goes w' := by
      rcases h.worker hw with ⟨b, w', -, hw', hm, -⟩ | ⟨-, hw'⟩
      · exact ⟨w', hw', hm.goes⟩
      · exact ⟨w, hw', .refl w⟩
    obtain ⟨w', hw', hg⟩ := hw'
    simp [hw', hf, hg.ended f hf, Occupation.ended?]
  · cases he

theorem Gathers.keeps (hg : s.Gathers joined left failures) (h : s.Step o s')
    (hw : ∀ {u : Nat} {w' : Worker}, s'.tasks[u]? = some (.worker w') → ∃ w, s.tasks[u]? = some (.worker w)) :
    s'.Gathers joined left failures where
  distinct := hg.distinct
  workers u := by
    rw [hg.workers]
    refine ⟨fun ⟨w, hw⟩ => ?_, fun ⟨w', hw'⟩ => hw hw'⟩
    rcases h.worker hw with ⟨b, w', -, hw', -⟩ | ⟨-, hw'⟩
    · exact ⟨w', hw'⟩
    · exact ⟨w, hw'⟩
  ended u hu := by
    rw [h.ended? (hg.ended u hu)]
    exact hg.ended u hu
  failures := by
    rw [hg.failures, List.map_congr_left fun u hu => h.ended? (hg.ended u hu)]

theorem record_eq (s : State) (failures : List String) (u : Nat) :
    s.record failures u = failures ++ (s.ended? u).join.toList := by
  unfold record
  rcases s.ended? u with _ | _ | f <;> simp

theorem Gathers.joins (hg : s.Gathers joined left failures) (hu : u ∈ left) (he : (s.ended? u).isSome) :
    s.Gathers (joined ++ [u]) (left.erase u) (s.record failures u) := by
  have hperm : (joined ++ [u] ++ left.erase u).Perm (joined ++ left) := by
    rw [List.append_assoc]
    exact (List.perm_cons_erase hu).symm.append_left joined
  refine ⟨hperm.nodup_iff.mpr hg.distinct, fun u' => by rw [hperm.mem_iff, hg.workers], fun u' hu' => ?_, ?_⟩
  · rcases List.mem_append.mp hu' with hu' | hu'
    · exact hg.ended u' hu'
    · obtain rfl := List.mem_singleton.mp hu'
      exact he
  · rw [record_eq, List.map_append, List.filterMap_append, ← hg.failures, List.map_singleton]
    rcases s.ended? u with _ | _ | f <;> rfl

/-- What a supervisor at work has gathered. -/
def Gathering (s : State) (v : Supervision) : Prop :=
  match v with
  | .watching _ left failures | .draining _ left failures => ∃ joined, s.Gathers joined left failures
  | _ => True

theorem Serving.gathering_moves {v v' : Supervision} {x : World} {r : Router} {new : List Task} {base : Nat}
    {run : Context} (hs : s.Serving t base run) (ht : s.tasks[u]? = some (.run v)) (hm : v.Moves s u x r new v')
    (hg : s.Gathering v) : s.Gathering v' := by
  cases hm with
  | stays => exact hg
  | rejected _ _ | declined _ _ _ _ | breaksOff _ _ _ | finishes _ _ => trivial
  | begins _ hst =>
    rw [hs.started] at hst
    cases hst
  | skips hv _ | subscribes hv _ _ | serves hv _ =>
    subst hv
    exact absurd ht hs.not_subscribing
  | joins hv hw he _ | awaits hv hw he =>
    subst hv
    obtain ⟨joined, hg⟩ := hg
    exact ⟨_, hg.joins hw he⟩
  | drains hv hcase =>
    subst hv
    obtain ⟨joined, hg⟩ := hg
    rcases hcase with ⟨rfl, rfl, -⟩ | ⟨w, hw, he, rfl, -, rfl⟩
    · exact ⟨_, hg⟩
    · exact ⟨_, hg.joins hw he⟩

/-- The workers that have just been begun are all that there are. -/
theorem Subscribing.gathers {run run' : Context} {made : List (Nat × Nat)} {rest : List Nat} (hs : s.Subscribing t run made rest)
    (hc' : s'.Course) (h : s.Step o s') (ht : s'.tasks[u]? = some (.run (.watching run' left failures)))
    (hl : left.Nodup) (hf : failures = []) : s'.Gathers [] left failures := by
  obtain ⟨t₀, base, run₀, hserving⟩ := hc'.serving_of ht id nofun
  obtain ⟨-, -, -, ha⟩ := hserving.watching ht
  refine ⟨hl, fun u' => ⟨ha.awaited u', fun ⟨w, hw⟩ => ?_⟩, fun _ hu' => (nomatch hu'), hf⟩
  refine (ha.others hw).resolve_right fun ⟨f, hf⟩ => ?_
  rcases h.worker_from hw with ⟨_, w₀, -, hw₀, -⟩ | ⟨-, hw₀ | ⟨_, _, _, _, _, _, -, -, -, -, hidle⟩⟩
  · exact hs.unmanned hw₀
  · exact hs.unmanned hw₀
  · rw [hidle] at hf
    cases hf

theorem Gathering.keeps {v : Supervision} (hg : s.Gathering v) (hs : ∃ t base run, s.Serving t base run)
    (h : s.Step o s') : s'.Gathering v := by
  obtain ⟨t, base, run, hs⟩ := hs
  cases v with
  | watching run left failures | draining run left failures =>
    obtain ⟨joined, hg⟩ := hg
    exact ⟨joined, hg.keeps h fun hw' => (hs.worker_before h hw').imp fun _ h => h.1⟩
  | fresh _ | subscribing _ _ _ | ended _ => trivial

/-- Every supervisor at work has the failures of the workers that it has seen to end. -/
theorem Gathering.step (hs : ∀ {u : Nat} {v : Supervision}, s.tasks[u]? = some (.run v) → s.Gathering v)
    (hc : s.Course) (h : s.Step o s') {u : Nat} {v' : Supervision} (hv' : s'.tasks[u]? = some (.run v')) :
    s'.Gathering v' := by
  rcases h.run_back hv' with ⟨v, hv⟩ | ⟨c, rfl⟩
  · have hserving : ¬v.Idle → (∀ run made rest, v ≠ .subscribing run made rest) → ∃ t base run, s.Serving t base run :=
      hc.serving_of hv
    rcases h.own hv with ⟨b, k', x, r, new, active, -, hm, hs', hk'⟩ | ⟨-, hsame | ⟨⟨c, hc, -⟩, -⟩⟩
    · obtain ⟨v'', hmoves, rfl⟩ : ∃ v'', v.Moves s u x r new v'' ∧ k' = .run v'' := by
        cases hm with
        | stays => exact ⟨v, .stays, rfl⟩
        | run hm => exact ⟨_, hm, rfl⟩
      rw [hv'] at hk'
      cases hk'
      by_cases hserve : ∃ t base run, s.Serving t base run
      · obtain ⟨_, _, _, hserve⟩ := hserve
        exact (hserve.gathering_moves hv hmoves (hs hv)).keeps ⟨_, _, _, hserve⟩ h
      · cases hmoves with
        | stays =>
          cases v' with
          | fresh _ | subscribing _ _ _ | ended _ => trivial
          | watching _ _ _ | draining _ _ _ => exact absurd (hserving id nofun) hserve
        | rejected _ _ | begins _ _ | skips _ _ | subscribes _ _ _ | declined _ _ _ _ | breaksOff _ _ _
        | finishes _ _ => trivial
        | serves he _ =>
          subst he
          have hdistinct : ∀ n, ((List.range n).map (s.tasks.length + ·)).Nodup := fun n =>
            List.Pairwise.map _ (fun _ _ hne he => hne (Nat.add_left_cancel he)) List.nodup_range
          exact ⟨[], (hc.subscribing_of hv).gathers (hc.step h) h hv' (hdistinct _) rfl⟩
        | joins he _ _ _ | drains he _ | awaits he _ _ =>
          subst he
          exact absurd (hserving id nofun) hserve
    · rw [hv'] at hsame
      cases hsame
      cases v' with
      | fresh _ | subscribing _ _ _ | ended _ => trivial
      | watching _ _ _ | draining _ _ _ => exact (hs hv).keeps (hserving id nofun) h
    · cases hc
  · trivial

/-! ### What callers are told -/

theorem filterMap_set_perm {α β : Type} {f : α → Option β} {l : List α} {i : Nat} {a b : α} (ha : l[i]? = some a)
    (hf : f a = none) : ((l.set i b).filterMap f).Perm ((f b).toList ++ l.filterMap f) := by
  induction l generalizing i with
  | nil => cases ha
  | cons c l ih =>
    cases i with
    | zero =>
      cases ha
      rw [List.set_cons_zero, List.filterMap_cons_none hf]
      cases hb : f b with
      | none => rw [List.filterMap_cons_none hb]; exact .refl _
      | some d => rw [List.filterMap_cons_some hb]; exact .refl _
    | succ i =>
      have ih := ih ha
      rw [List.set_cons_succ]
      cases hc : f c with
      | none =>
        rw [List.filterMap_cons_none hc, List.filterMap_cons_none hc]
        exact ih
      | some d =>
        rw [List.filterMap_cons_some hc, List.filterMap_cons_some hc]
        exact (ih.cons d).trans (List.perm_middle.symm)

theorem verdict_failures (s : State) (e : LifecycleError) : (s.verdict e).failures? =
    match e with
    | .workers fs => some fs
    | _ => none := by
  unfold verdict
  split <;> cases e <;> rfl

/-- A caller that has been answered is there afterwards as it was, and an answer that is new is one of those
    that `new` holds of. -/
def Answering (s s' : State) (new : Outcome → Prop) : Prop :=
  ∀ (t : Nat) (o : Outcome), s'.tasks[t]? = some (.close (.ended o)) → s.tasks[t]? = some (.close (.ended o)) ∨ new o

/-- What a step does to the failures that the router keeps, and to what callers are told of them. -/
inductive Told (s s' : State) : Prop where
  | same : s'.reports.Perm s.reports → s'.router.failures = s.router.failures →
      s.Answering s' (fun o => o = .panicked none ∨ o = s.verdict .notStarted) →
      (s'.router.lifecycle = .closed → s.router.lifecycle = .closed ∨ s.router.lifecycle = .notStarted) → Told s s'
  | finishes {t : Nat} {run : Context} {failures : List String} : s.tasks[t]? = some (.run (.draining run [] failures)) →
      s'.reports.Perm s.reports → s'.router.failures = s.router.failures ++ failures →
      s.Answering s' (fun _ => False) → s'.router.lifecycle = .closed → Told s s'
  | returns : s.router.lifecycle = .closed → s.router.failures = [] → s'.reports.Perm s.reports →
      s'.router.failures = [] → s.Answering s' (· = .ok) → Told s s'
  | fails {fs : List String} : s.router.lifecycle = .closed → fs.Perm s.router.failures → s.router.failures ≠ [] →
      s'.reports.Perm (fs :: s.reports) → s'.router.failures = [] → s.Answering s' (· = s.verdict (.workers fs)) →
      Told s s'

theorem reports_moved {k k' : Task} {new : List Task} (ht : s.tasks[t]? = some k) (hk : k.told? = none)
    (hnew : ∀ j ∈ new, ∃ w, j = .worker w) :
    ((s.tasks.set t k' ++ new).filterMap Task.told?).Perm (k'.told?.toList ++ s.reports) := by
  have hnone : new.filterMap Task.told? = [] := List.filterMap_eq_nil_iff.mpr fun j hj => by
    obtain ⟨w, rfl⟩ := hnew j hj
    rfl
  rw [List.filterMap_append, hnone, List.append_nil]
  exact filterMap_set_perm ht hk

theorem answering_moved {k' : Task} {new : List Task} {x : World} {r : Router} {active : Option Nat}
    {P : Outcome → Prop} (hk' : ∀ o, k' = .close (.ended o) → P o) (hnew : ∀ j ∈ new, ∃ w, j = .worker w) :
    s.Answering { s.moved t x r new k' with active } P := by
  intro u o hu
  rcases set_append_back hu with ⟨-, he⟩ | ⟨-, hu⟩ | ⟨-, hn⟩
  · exact .inr (hk' o he.symm)
  · exact .inl hu
  · obtain ⟨w, he⟩ := hnew _ (List.mem_of_getElem? hn)
    cases he

theorem Outside.told (h : Outside s o s') : s.Told s' := by
  cases h with
  | registers _ hg => exact .same (.refl _) hg.failures (fun _ _ => .inl) fun hl => .inl (hg.lifecycle.symm.trans hl)
  | refuses | stirs _ => exact .same (.refl _) rfl (fun _ _ => .inl) .inl
  | @begins x k _ hb =>
    refine .same ?_ rfl (fun u o hu => .inl ?_) .inl
    · show ((s.tasks ++ [k]).filterMap Task.told?).Perm s.reports
      have hk : k.told? = none := by cases hb <;> rfl
      simp [hk, reports]
    · replace hu : (s.tasks ++ [k])[u]? = some (.close (.ended o)) := hu
      rw [List.getElem?_append] at hu
      split at hu
      · exact hu
      · obtain rfl := List.mem_singleton.mp (List.mem_of_getElem? hu)
        cases hb
  | @abandons t c ht hc =>
    have hk : (Task.close c).told? = none := by
      cases c with
      | fresh | waiting => rfl
      | ended o => exact absurd rfl (hc o)
    refine .same (filterMap_set_perm ht hk) rfl (fun u o hu => ?_) .inl
    replace hu : (s.tasks.set t _)[u]? = some (.close (.ended o)) := hu
    rw [List.getElem?_set] at hu
    split at hu
    · split at hu <;> cases hu
      exact .inr (.inl rfl)
    · exact .inl hu

theorem told_stays {k : Task} {active : Option Nat} (ht : s.tasks[t]? = some k) :
    s.Told { s.moved t s.world s.router [] k with active } := by
  have he : s.moved t s.world s.router [] k = s := moved_self ht
  exact .same (.of_eq (by rw [he]; rfl)) (by rw [he]) (fun u o hu => .inl (by rw [he] at hu; exact hu)) (by rw [he]; exact .inl)

theorem reports_verdict {k : Task} (e : LifecycleError) (ht : s.tasks[t]? = some k) (hk : k.told? = none) :
    ((s.tasks.set t (.close (.ended (s.verdict e))) ++ []).filterMap Task.told?).Perm
      ((match e with
        | .workers fs => some fs
        | _ => none).toList ++ s.reports) := by
  have hr : ((s.tasks.set t (.close (.ended (s.verdict e))) ++ []).filterMap Task.told?).Perm
      ((s.verdict e).failures?.toList ++ s.reports) := reports_moved ht hk fun _ hj => nomatch hj
  rwa [verdict_failures] at hr

theorem closing_told {c c' : Closing} {x : World} {r : Router} {active : Option Nat}
    (ht : s.tasks[t]? = some (.close c)) (hm : c.Moves s t x r c') :
    s.Told { s.moved t x r [] (.close c') with active } := by
  have hnew : ∀ j ∈ ([] : List Task), ∃ w, j = .worker w := fun _ hj => (nomatch hj)
  cases hm with
  | stays => exact told_stays ht
  | tells hc _ =>
    subst hc
    exact .same (reports_moved ht rfl hnew) rfl (answering_moved nofun hnew) .inl
  | rejected hc _ =>
    subst hc
    refine .same (reports_verdict .notStarted ht rfl) rfl (answering_moved (fun o he => ?_) hnew) .inl
    cases he
    exact .inr rfl
  | returns hc hl hf =>
    subst hc
    refine .returns hl hf (reports_moved ht rfl hnew) rfl (answering_moved (fun o he => ?_) hnew)
    cases he
    rfl
  | fails hc hl hf =>
    subst hc
    have hperm := List.mergeSort_perm s.router.failures (· ≤ ·)
    generalize s.router.failures.mergeSort (· ≤ ·) = fs at hperm ⊢
    refine .fails hl hperm hf (reports_verdict (.workers fs) ht rfl) rfl (answering_moved (fun o he => ?_) hnew)
    cases he
    rfl

theorem Step.told (hc : s.Course) (h : s.Step o s') : s.Told s' := by
  cases h with
  | outside _ _ h => exact h.told
  | nobody _ _ _ => exact .same (.refl _) rfl (fun _ _ => .inl) .inl
  | @turn t b k k' x r new _ _ ht hm =>
    have hnew : ∀ j ∈ new, ∃ w, j = .worker w := fun j hj => (hm.new_idle hj).imp fun _ h => h.1
    cases hm with
    | stays => exact told_stays ht
    | close hm => exact closing_told ht hm
    | worker _ | learns _ | call _ | errand _ _ | unsent _ | sent _ | rings _ =>
      exact .same (reports_moved ht rfl hnew) rfl (answering_moved nofun hnew) .inl
    | run hm =>
      cases hm with
      | finishes hv _ =>
        subst hv
        exact .finishes ht (reports_moved ht rfl hnew) rfl (answering_moved nofun hnew) rfl
      | declined hv _ _ _ =>
        subst hv
        exact .same (reports_moved ht rfl hnew) rfl (answering_moved nofun hnew)
          fun _ => .inr (hc.subscribing_of ht).lifecycle
      | stays | rejected _ _ | begins _ _ | skips _ _ | subscribes _ _ _ | breaksOff _ _ _ | joins _ _ _ _
      | awaits _ _ _ =>
        exact .same (reports_moved ht rfl hnew) rfl (answering_moved nofun hnew) .inl
      | serves _ _ | drains _ _ => exact .same (reports_moved ht rfl hnew) rfl (answering_moved nofun hnew) nofun

/-- These are all failures that there have been, and those that callers have been told they have been told
    by one answer, after which the router keeps none. -/
structure Tells (s : State) (failures : List String) : Prop where
  all : (s.reports.flatten ++ s.router.failures).Perm failures
  once : s.reports.length ≤ 1
  proper : ∀ fs ∈ s.reports, fs ≠ []
  answers : ∀ {t : Nat} {o : Outcome}, s.tasks[t]? = some (.close (.ended o)) →
    o = .panicked none ∨ o = s.verdict .notStarted ∨ s.router.lifecycle = .closed ∧ s.router.failures = [] ∧
      (o = .ok ∨ ∃ fs ∈ s.reports, o = s.verdict (.workers fs))

theorem Tells.emptied {fs : List String} (ht : s.Tells failures) (hfs : fs ∈ s.reports) : s.router.failures = [] := by
  obtain ⟨k, hk, htold⟩ := List.mem_filterMap.mp hfs
  obtain ⟨t, hk⟩ := List.mem_iff_getElem?.mp hk
  obtain ⟨o, rfl, ho⟩ : ∃ o, k = .close (.ended o) ∧ o.failures? = some fs := by
    cases k with
    | close c =>
      cases c with
      | ended o => exact ⟨o, rfl, htold⟩
      | fresh | waiting => cases htold
    | worker _ | run _ | awaitStart _ | call _ | errand _ _ _ | alarm _ _ _ => cases htold
  rcases ht.answers hk with rfl | rfl | ⟨-, hf, -⟩
  · cases ho
  · rw [verdict_failures] at ho
    cases ho
  · exact hf

/-- What callers have been told stays so, but that there may be more failures when a run comes to its end. -/
theorem Tells.step (ht : s.Tells failures) (h : s.Told s') (hb : s'.broker = s.broker)
    (hcl : s.router.lifecycle = .closed → s'.router.lifecycle = .closed) :
    (s'.Tells failures ∧
        (s'.router.lifecycle = .closed → s.router.lifecycle = .closed ∨ s.router.lifecycle = .notStarted)) ∨
      ∃ (t : Nat) (run : Context) (more : List String), s.tasks[t]? = some (.run (.draining run [] more)) ∧
        (s.router.lifecycle ≠ .closed → s'.router.lifecycle = .closed ∧ s'.Tells (failures ++ more)) := by
  have hverdict : ∀ e, s'.verdict e = s.verdict e := verdict_congr hb
  -- The reports are the same but for their order.
  have same : s'.reports.Perm s.reports → s'.reports.length ≤ 1 ∧ (∀ fs ∈ s'.reports, fs ≠ []) ∧
      s'.reports.flatten.Perm s.reports.flatten := fun hr =>
    ⟨hr.length_eq ▸ ht.once, fun fs hfs => ht.proper fs (hr.mem_iff.mp hfs), hr.flatten⟩
  cases h with
  | same hr hf ha hl =>
    obtain ⟨honce, hproper, hflat⟩ := same hr
    refine .inl ⟨⟨hf ▸ (hflat.append_right _).trans ht.all, honce, hproper, fun hu => ?_⟩, hl⟩
    rw [hverdict, hf]
    rcases ha _ _ hu with hu | hnew
    · refine (ht.answers hu).imp id (.imp id fun ⟨hl, he, hcase⟩ => ⟨hcl hl, he, hcase.imp id fun ⟨fs, hfs, ho⟩ => ?_⟩)
      exact ⟨fs, hr.mem_iff.mpr hfs, ho.trans (hverdict _).symm⟩
    · exact hnew.imp id .inl
  | @finishes t run more hrun hr hf ha hl' =>
    obtain ⟨honce, hproper, hflat⟩ := same hr
    refine .inr ⟨t, run, more, hrun, fun hl => ⟨hl', ?_, honce, hproper, fun hu => ?_⟩⟩
    · rw [hf, ← List.append_assoc]
      exact ((hflat.append_right _).trans ht.all).append_right _
    · rw [hverdict]
      rcases ha _ _ hu with hu | hnew
      · exact (ht.answers hu).imp id (.imp id fun ⟨hclosed, _⟩ => absurd hclosed hl)
      · exact hnew.elim
  | returns hl hf hr hf' ha =>
    obtain ⟨honce, hproper, hflat⟩ := same hr
    refine .inl ⟨⟨?_, honce, hproper, fun hu => ?_⟩, fun _ => .inl hl⟩
    · have hall := ht.all
      rw [hf] at hall
      rw [hf']
      exact (hflat.append_right _).trans hall
    · rw [hverdict]
      rcases ha _ _ hu with hu | rfl
      · refine (ht.answers hu).imp id (.imp id fun ⟨hl, _, hcase⟩ => ⟨hcl hl, hf', hcase.imp id fun ⟨fs, hfs, ho⟩ => ?_⟩)
        exact ⟨fs, hr.mem_iff.mpr hfs, ho.trans (hverdict _).symm⟩
      · exact .inr (.inr ⟨hcl hl, hf', .inl rfl⟩)
  | @fails fs hl hperm hf hr hf' ha =>
    -- Nobody has been told anything before.
    have hnone : s.reports = [] := List.eq_nil_iff_forall_not_mem.mpr fun fs hfs => hf (ht.emptied hfs)
    have hall := ht.all
    rw [hnone] at hr hall
    have hr' : s'.reports = [fs] := List.perm_singleton.mp hr
    refine .inl ⟨⟨?_, by simp [hr'], fun fs' hfs' => ?_, fun hu => ?_⟩, fun _ => .inl hl⟩
    · simpa [hr', hf'] using hperm.trans hall
    · rw [hr', List.mem_singleton] at hfs'
      subst hfs'
      rintro rfl
      exact hf (List.nil_perm.mp hperm)
    · rw [hverdict]
      rcases ha _ _ hu with hu | rfl
      · refine (ht.answers hu).imp id (.imp id fun ⟨hl, he, _⟩ => absurd he hf)
      · exact .inr (.inr ⟨hcl hl, hf', .inr ⟨fs, by simp [hr'], (hverdict _).symm⟩⟩)

/-! ### All failures, told once -/

/-- What holds of the failures of workers at any time. -/
structure Reporting (s : State) : Prop where
  course : s.Course
  delivers : s.Delivers
  remembers : s.Remembers
  gathering : ∀ {u : Nat} {v : Supervision}, s.tasks[u]? = some (.run v) → s.Gathering v
  untold : s.router.lifecycle ≠ .closed → s.Tells []
  told : s.router.lifecycle = .closed → ∃ joined failures, s.Gathers joined [] failures ∧ s.Tells failures

/-- No worker begins when the router closes. -/
theorem Step.workers_of_closed (h : s.Step o s') (hl : s'.router.lifecycle = .closed) {w' : Worker}
    (hw' : s'.tasks[u]? = some (.worker w')) : ∃ w, s.tasks[u]? = some (.worker w) := by
  rcases h.worker_back hw' with hw | ⟨t, v, x, r, new, v', active, -, hm, rfl, -, hnew⟩
  · exact hw
  · cases hm with
    | serves _ _ => cases hl
    | stays | rejected _ _ | begins _ _ | skips _ _ | subscribes _ _ _ | declined _ _ _ _ | breaksOff _ _ _
    | joins _ _ _ _ | drains _ _ | awaits _ _ _ | finishes _ _ => cases hnew

theorem Course.unmanned (hc : s.Course) (hl : s.router.lifecycle = .notStarted) {w : Worker} :
    s.tasks[u]? ≠ some (.worker w) := fun hw => by
  obtain ⟨_, _, _, hs⟩ := hc.serving_of_worker hw
  cases hs.oversees with
  | watching _ h _ | draining _ h _ _ | ended _ h _ _ =>
    rw [hl] at h
    cases h

theorem Reporting.step (hs : s.Reporting) (h : s.Step o s') : s'.Reporting where
  course := hs.course.step h
  delivers := hs.delivers.step hs.course h
  remembers := Remembers.step hs.remembers hs.delivers h
  gathering := Gathering.step hs.gathering hs.course h
  untold hl' := by
    have hl : s.router.lifecycle ≠ .closed := fun hl => hl' (h.closed hs.course hl)
    rcases (hs.untold hl).step (h.told hs.course) h.broker (fun h => absurd h hl) with ⟨ht, -⟩ | ⟨_, _, _, -, ht⟩
    · exact ht
    · exact absurd (ht hl).1 hl'
  told hl' := by
    by_cases hl : s.router.lifecycle = .closed
    · obtain ⟨joined, failures, hg, ht⟩ := hs.told hl
      refine ⟨joined, failures, hg.keeps h (h.workers_of_closed hl'), ?_⟩
      rcases ht.step (h.told hs.course) h.broker (fun _ => hl') with ⟨ht, -⟩ | ⟨_, run, more, hrun, -⟩
      · exact ht
      · obtain ⟨_, _, _, hserving⟩ := hs.course.serving_of hrun id nofun
        obtain ⟨-, -, hd, -⟩ := hserving.draining hrun
        rw [hl] at hd
        cases hd
    · rcases (hs.untold hl).step (h.told hs.course) h.broker (fun h => absurd h hl) with
        ⟨ht, hbefore⟩ | ⟨_, run, more, hrun, ht⟩
      · -- A subscription was refused, so there are no workers.
        have hn : s.router.lifecycle = .notStarted := (hbefore hl').resolve_left hl
        refine ⟨[], [], ⟨.nil, fun u => ⟨fun hu => (nomatch hu), fun ⟨w, hw⟩ => ?_⟩, fun _ hu => (nomatch hu), rfl⟩, ht⟩
        obtain ⟨w, hw⟩ := h.workers_of_closed hl' hw
        exact absurd hw (hs.course.unmanned hn)
      · obtain ⟨joined, hg⟩ := hs.gathering hrun
        exact ⟨joined, more, hg.keeps h (h.workers_of_closed hl'), (ht hl).2⟩

theorem IsNew.reporting (hn : start.IsNew) (hf : start.router.failures = []) : start.Reporting where
  course := hn.course
  delivers := hn.delivers
  remembers := by simp [Remembers, hn.tasks]
  gathering := by simp [hn.tasks]
  untold _ := ⟨by simp [reports, hn.tasks, hf], by simp [reports, hn.tasks], by simp [reports, hn.tasks],
    by simp [hn.tasks]⟩
  told hl := by simp [hn.lifecycle] at hl

/-- What `g` picks from the numbers below `n`, in any order of those that it picks from. -/
theorem filterMap_range_perm {α β : Type} {l : List α} {key : α → Nat} {val : α → Option β} {g : Nat → Option β}
    {n : Nat} (hd : (l.map key).Nodup) (hl : ∀ a ∈ l, key a < n ∧ g (key a) = val a)
    (hg : ∀ i b, g i = some b → i ∈ l.map key) : ((List.range n).filterMap g).Perm (l.filterMap val) := by
  have hperm : ((List.range n).filter (· ∈ l.map key)).Perm (l.map key) := by
    refine (List.perm_ext_iff_of_nodup (List.nodup_range.filter _) hd).mpr fun i => ?_
    rw [List.mem_filter, List.mem_range, decide_eq_true_iff]
    refine and_iff_right_of_imp fun hi => ?_
    obtain ⟨a, ha, rfl⟩ := List.mem_map.mp hi
    exact (hl a ha).1
  have hrange : (List.range n).filterMap g = ((List.range n).filter (· ∈ l.map key)).filterMap g := by
    rw [List.filterMap_filter]
    congr 1
    funext i
    by_cases hi : i ∈ l.map key
    · simp [hi]
    · cases h : g i with
      | none => simp
      | some b => exact absurd (hg i b h) hi
  have hval : (l.map key).filterMap g = l.filterMap val := by
    have hmap : l.map (g ∘ key) = l.map val := List.map_congr_left fun a ha => (hl a ha).2
    rw [List.filterMap_map]
    simpa [List.filterMap_map, Function.comp_def] using congrArg (List.filterMap id) hmap
  rw [hrange, ← hval]
  exact hperm.filterMap g

theorem entries_eq (s : State) :
    s.entries = (List.range s.tasks.length).filterMap fun t => (s.fate? t).bind fun f => f.2.bind (·.failure? f.1) := by
  rw [entries, fates, List.filterMap_filterMap]

/-- The entry for a worker is what it remembers. -/
theorem Remembers.entry (hr : s.Remembers) {w : Worker} (hw : s.tasks[t]? = some (.worker w)) :
    ((s.fate? t).bind fun f => f.2.bind (·.failure? f.1)) = w.failure? := by
  simp [fate?, hw, hr hw]

theorem worker_of_entry {f : String} (h : ((s.fate? t).bind fun f => f.2.bind (·.failure? f.1)) = some f) :
    ∃ w, s.tasks[t]? = some (.worker w) := by
  unfold fate? at h
  split at h
  · rename_i w hw
    exact ⟨w, hw⟩
  · cases h

theorem Gathers.all_ended (hg : s.Gathers joined [] failures) {w : Worker} (hw : s.tasks[u]? = some (.worker w)) :
    ∃ f, w.occupation = .ended f := by
  have hu : u ∈ joined := by simpa using (hg.workers u).mpr ⟨w, hw⟩
  have he := hg.ended u hu
  simp only [State.ended?, hw, Occupation.ended?] at he
  split at he
  · rename_i f ho
    exact ⟨f, ho⟩
  · cases he

/-- When all workers have been seen to end, what has been gathered is one entry for each that has left one. -/
theorem Gathers.entries (hg : s.Gathers joined [] failures) (hr : s.Remembers) : s.entries.Perm failures := by
  have hfailures : failures = joined.filterMap fun u => (s.ended? u).join := by
    rw [hg.failures, List.filterMap_map]
    rfl
  rw [hfailures, entries_eq]
  refine @filterMap_range_perm _ _ joined id _ _ _ (by simpa using hg.distinct) (fun u hu => ?_) fun u f hf => ?_
  · obtain ⟨w, hw⟩ := (hg.workers u).mp (List.mem_append_left [] hu)
    obtain ⟨f, ho⟩ := hg.all_ended hw
    refine ⟨(List.getElem?_eq_some_iff.mp hw).1, (hr.entry hw).trans ?_⟩
    simp [State.ended?, hw, Occupation.ended?, ho, Worker.failure?]
  · obtain ⟨w, hw⟩ := worker_of_entry hf
    simpa using (hg.workers u).mpr ⟨w, hw⟩

/-- An answer of the router to a caller that closed it: the caller has not given up, and did not come too
    early. -/
def Answered (s : State) (o : Outcome) : Prop := o ≠ .panicked none ∧ o ≠ s.verdict .notStarted

theorem Reporting.answers (hs : s.Reporting) (ht : s.tasks[t]? = some (.close (.ended out))) (ho : s.Answered out) :
    ∃ joined failures, s.Gathers joined [] failures ∧ s.Tells failures ∧ s.router.failures = [] := by
  have hl : s.router.lifecycle = .closed := by
    refine Decidable.byContradiction fun hl => ?_
    rcases (hs.untold hl).answers ht with h | h | ⟨h, -⟩
    · exact ho.1 h
    · exact ho.2 h
    · exact hl h
  obtain ⟨joined, failures, hg, htells⟩ := hs.told hl
  refine ⟨joined, failures, hg, htells, ?_⟩
  rcases htells.answers ht with h | h | ⟨-, hf, -⟩
  · exact absurd h ho.1
  · exact absurd h ho.2
  · exact hf

/-- As soon as one caller has its answer, all failures have been told. -/
theorem Reporting.reports (hs : s.Reporting) (ht : s.tasks[t]? = some (.close (.ended out))) (ho : s.Answered out) :
    s.reports.flatten.Perm s.entries := by
  obtain ⟨joined, failures, hg, htells, hempty⟩ := hs.answers ht ho
  have hperm := htells.all
  rw [hempty, List.append_nil] at hperm
  exact hperm.trans (hg.entries hs.remembers).symm

/-- A supervisor changes nothing about how the workers end. -/
theorem Step.fates {v : Supervision} {b : Branch} (h : s.Step (.turn u b) s') (hu : s.tasks[u]? = some (.run v))
    (hv : ∀ run made, v ≠ .subscribing run made []) : s'.fates = s.fates := by
  obtain ⟨v', hv', htasks⟩ : ∃ v', s'.tasks[u]? = some (.run v') ∧ s'.tasks = s.tasks.set u (.run v') := by
    rcases h.own hu with ⟨b', k', x, r, new, active, -, hm, rfl, hk'⟩ | ⟨hn, -⟩
    · cases hm with
      | stays => exact ⟨v, hk', List.append_nil _⟩
      | run hm =>
        cases hm with
        | serves he _ => exact absurd he (hv _ _)
        | stays | rejected _ _ | begins _ _ | skips _ _ | subscribes _ _ _ | declined _ _ _ _ | breaksOff _ _ _
        | joins _ _ _ _ | drains _ _ | awaits _ _ _ | finishes _ _ => exact ⟨_, hk', List.append_nil _⟩
    · exact absurd rfl (hn b)
  have hfate : s'.fate? = s.fate? := by
    funext t
    by_cases htu : t = u
    · subst htu
      simp [fate?, hu, hv']
    · have hsame : s'.tasks[t]? = s.tasks[t]? := by rw [htasks, List.getElem?_set_ne (Ne.symm htu)]
      rw [fate?, fate?, hsame]
      split
      · rename_i w hw
        have hh := h.history (List.getElem?_eq_some_iff.mp hw).1 fun b' he => htu (by cases he; rfl)
        rw [World.ending?, World.ending?, hh]
      · rfl
  rw [State.fates, State.fates, hfate, htasks, List.length_set]

/-- The first caller to move when a router has closed is told all failures that there are. -/
theorem turn_tells {b : Branch} (ht : s.tasks[t]? = some (.close .waiting)) (hl : s.router.lifecycle = .closed)
    (hf : s.router.failures ≠ []) : ∃ fs, fs.Perm s.router.failures ∧
      (s.turn t b).tasks = s.tasks.set t (.close (.ended (s.verdict (.workers fs)))) ∧
      (s.turn t b).world = s.reported t (.workers fs) ∧ (s.turn t b).broker = s.broker := by
  have hperm := List.mergeSort_perm s.router.failures (· ≤ ·)
  generalize hfs : s.router.failures.mergeSort (· ≤ ·) = fs at hperm
  have hne : fs ≠ [] := fun hn => hf (List.nil_perm.mp (hn ▸ hperm))
  have hm : s.micro t b = { s with
      world := s.reported t (.workers fs)
      router := { s.router with failures := [] } }.setTask t (.close (.ended (s.verdict (.workers fs)))) := by
    simp only [micro, ht, microClose, hl, hfs, if_true]
    rw [if_neg (by simpa using hne), report_eq]
    rfl
  have hk : (Task.close (.ended (s.verdict (.workers fs)))).atWait = true := rfl
  rw [turn_of_micro hm (List.getElem?_eq_some_iff.mp ht).1 hk]
  exact ⟨fs, hperm, rfl, rfl, rfl⟩

/-- Failures are reported. As soon as one caller that closed the router has its answer, the failures told to
    all callers together are one entry for each worker that broke off or whose last message failed in a way
    that will pass; one caller is told all of them, and the others that everything went well. Nothing but how
    the workers ended decides what is told, and whichever of its branches a supervisor takes, that makes no
    difference to how they ended. -/
theorem failures_told (hn : start.IsNew) (hf : start.router.failures = []) (h : Reachable start s)
    (ht : s.tasks[t]? = some (.close (.ended out))) (ho : s.Answered out) :
    s.reports.flatten.Perm s.entries ∧ s.reports.length ≤ 1 ∧
      (∀ (u : Nat) (o : Outcome), s.tasks[u]? = some (.close (.ended o)) → s.Answered o →
        o = .ok ∨ ∃ fs, s.reports = [fs] ∧ o = s.verdict (.workers fs)) ∧
      (∀ (s' : State) (u : Nat) (o : Outcome), Reachable start s' → s'.fates.Perm s.fates →
        s'.tasks[u]? = some (.close (.ended o)) → s'.Answered o → s'.reports.flatten.Perm s.reports.flatten) ∧
      ∀ (s' : State) (u : Nat) (v : Supervision) (b : Branch), s'.tasks[u]? = some (.run v) → b ∈ s'.branches v →
        s'.Allows (.turn u b) → (s'.apply (.turn u b)).fates = s'.fates := by
  have hreporting : ∀ {s : State}, Reachable start s → s.Reporting := fun h =>
    (Runs.of_reachable h).keeps (hn.reporting hf) fun _ h hs => hs.step h
  have hall : ∀ {s : State} {u : Nat} {o : Outcome}, Reachable start s → s.tasks[u]? = some (.close (.ended o)) →
      s.Answered o → s.reports.flatten.Perm s.entries := fun h hu ho => (hreporting h).reports hu ho
  obtain ⟨_, failures, -, htells, -⟩ := (hreporting h).answers ht ho
  refine ⟨hall h ht ho, htells.once, fun u o hu ho => ?_, fun s' u o h' hfates hu ho' => ?_,
    fun s' u v b hu hb ha => (apply_step ha).fates hu fun run made he => ?_⟩
  · rcases htells.answers hu with he | he | ⟨-, -, hcase⟩
    · exact absurd he ho.1
    · exact absurd he ho.2
    · refine hcase.imp id fun ⟨fs, hfs, he⟩ => ⟨fs, ?_, he⟩
      obtain ⟨fs', hfs'⟩ := List.length_eq_one_iff.mp
        (Nat.le_antisymm htells.once (List.length_pos_of_mem hfs))
      rw [hfs', List.mem_singleton] at hfs
      rw [hfs', hfs]
  · exact (hall h' hu ho').trans ((hfates.filterMap _).trans (hall h ht ho).symm)
  · subst he
    cases hb

/-- Of two workers for a topic one fails and one breaks off; then the exchange closes, and a caller that
    closes the router waits for its answer. -/
def failingOnce : List Op :=
  [Op.addRoutes [⟨"fails", "in", [], ⟨"fails", none, fun _ _ _ =>
      .started (.finish (.failed (.custom ⟨"busy", .internal, "BUSY", true⟩ [])))⟩⟩,
    ⟨"breaks", "in", [], ⟨"breaks", none, fun _ _ _ => .started (.finish (.panicked none))⟩⟩],
    .token, .run { token := 0 }] ++ List.replicate 4 (Op.turn 0 .shutdown) ++
  [Op.publish "in" [⟨some "a", [1], ∅⟩]] ++ List.replicate 8 (Op.turn 3 .shutdown) ++
  List.replicate 5 (Op.turn 1 .shutdown) ++ List.replicate 5 (Op.turn 2 .shutdown) ++
  [Op.closeExchange, .turn 1 .shutdown, .turn 0 (.joined 2), .turn 0 (.joined 1), .turn 0 .shutdown, .close,
    .turn 4 .shutdown]

def failedOnce : State := (blank.replay failingOnce).getD blank

theorem failures_told_of_two : ∃ s, Reachable blank s ∧ s.reports.length ≤ 1 ∧
    s.reports.flatten.Perm ["fails: busy", "breaks: worker panicked"] := by
  have hruns : Runs (fun _ => True) blank failedOnce :=
    Runs.refl.replay (fun _ _ => trivial) (show blank.replay failingOnce = some failedOnce from rfl)
  have hreach := (hruns.step (o := .turn 4 .shutdown) trivial (.inl rfl)).reachable
  have hfailures : failedOnce.router.failures = ["breaks: worker panicked", "fails: busy"] := rfl
  obtain ⟨fs, -, htasks, hworld, hbroker⟩ := turn_tells (s := failedOnce) (t := 4) (b := .shutdown) rfl rfl
    (by simp [hfailures])
  replace hreach : Reachable blank (failedOnce.turn 4 .shutdown) := hreach
  generalize failedOnce.turn 4 .shutdown = s at *
  have hverdict : ∀ e, s.verdict e = failedOnce.verdict e := verdict_congr hbroker
  have hanswer : s.Answered (failedOnce.verdict (.workers fs)) :=
    ⟨by simp [verdict], fun h => by cases verdict_inj (h.trans (hverdict _))⟩
  have ht : s.tasks[4]? = some (.close (.ended (failedOnce.verdict (.workers fs)))) := by
    rw [htasks]
    rfl
  obtain ⟨hentries, honce, -⟩ := failures_told ⟨rfl, rfl, rfl, rfl, rfl, rfl⟩ rfl hreach ht hanswer
  have hw : s.world = failedOnce.world := by
    rw [hworld, reported, show failedOnce.broker = false from rfl]
    rfl
  have hfate : s.fate? = fun t =>
      match (failedOnce.tasks.set 4 (.close (.ended (failedOnce.verdict (.workers fs)))))[t]? with
      | some (.worker w) => some (w.name, failedOnce.world.ending? t)
      | _ => none := by
    funext t
    rw [fate?, htasks, hw]
  have he : s.entries = ["fails: busy", "breaks: worker panicked"] := by
    rw [State.entries, fates, hfate, htasks]
    rfl
  exact ⟨s, hreach, honce, he ▸ hentries⟩

end State
end Relay
