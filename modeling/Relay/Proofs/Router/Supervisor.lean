import Relay.Proofs.Router.Course

/-! The steps of the supervisor carry a run on from one stage of its course to the next; with the other
    steps, which leave it as it is, every reachable state is on course (`State.Course.step`). -/

namespace Relay

/-- The context of the run that a supervisor is at work on. -/
def Supervision.run? : Supervision → Option Context
  | subscribing run _ _ | watching run _ _ | draining run _ _ => some run
  | _ => none

theorem Supervision.Idle.run? {v : Supervision} (h : v.Idle) : v.run? = none := by
  cases v with
  | fresh _ | ended _ => rfl
  | subscribing _ _ _ | watching _ _ _ | draining _ _ _ => cases h

theorem World.subscribe_router {w x : World} {t : Token} {topic : String} {sub : Nat}
    (h : w.subscribe .router t topic = .ok (sub, x)) :
    sub = w.exchange.subscriptions.length ∧
      x.exchange.subscriptions = w.exchange.subscriptions ++ [{ topic, token := t }] ∧ x.tokens = w.tokens := by
  unfold World.subscribe at h
  split at h
  · cases h
  · split at h
    · cases h
    · rename_i i e he
      cases h
      obtain ⟨-, hi, rfl⟩ := Hub.subscribe_cases he
      exact ⟨hi, rfl, rfl⟩

theorem World.subscribe_brokeOff {w : World} {t : Token} {topic : String}
    (h : w.subscribe .router t topic = .error .brokeOff) : w.exchange.isOversized = true := by
  unfold World.subscribe at h
  split at h
  · cases h
  · split at h
    · rename_i e he
      cases h
      unfold Exchange.subscribe Exchange.enlist at he
      split at he
      · cases he
      · split at he
        · rename_i ho
          exact ho
        · cases he
    · cases h

theorem Tokens.isCancelled_cancel_self {s : Tokens} {t : Token} (h : t < s.next) :
    (s.cancel t).isCancelled t = true := by
  rw [isCancelled_cancel, below]
  simp [h]

theorem Exchange.drops_capacity (e : Exchange) (made : List (Nat × Nat)) :
    (made.foldl (fun x m => x.drop m.2) e).capacity = e.capacity := by
  induction made generalizing e with
  | nil => rfl
  | cons m made ih => exact ih (e.drop m.2)

theorem getElem?_filterMap_of_isSome {α β : Type} {f : α → Option β} {l : List α} (h : ∀ a ∈ l, (f a).isSome)
    (i : Nat) :
    (l.filterMap f)[i]? = l[i]?.bind f := by
  induction l generalizing i with
  | nil => rfl
  | cons a l ih =>
    obtain ⟨b, hb⟩ := Option.isSome_iff_exists.mp (h a List.mem_cons_self)
    rw [List.filterMap_cons_some hb]
    cases i with
    | zero => simp [hb]
    | succ i => simpa using ih (fun a ha => h a (List.mem_cons_of_mem _ ha)) i

namespace State
variable {s s' : State} {o : Op} {t base : Nat} {run : Context} {active : Option Nat}

/-- A supervisor at work is the one that runs the router. -/
theorem Serving.owner {u : Nat} {v : Supervision} (hs : s.Serving t base run) (hu : s.tasks[u]? = some (.run v))
    (hv : ¬v.Idle) : u = t :=
  Decidable.byContradiction fun hne => hv (hs.lone hu hne)

theorem Serving.not_subscribing {u : Nat} {run' : Context} {made : List (Nat × Nat)} {rest : List Nat}
    (hs : s.Serving t base run) : s.tasks[u]? ≠ some (.run (.subscribing run' made rest)) := fun hu => by
  obtain rfl := hs.owner hu id
  cases hs.oversees with
  | watching h _ _ | draining h _ _ _ | ended h _ _ _ => rw [hu] at h; cases h

theorem Serving.watching {u : Nat} {run' : Context} {workers : List Nat} {failures : List String}
    (hs : s.Serving t base run) (hu : s.tasks[u]? = some (.run (.watching run' workers failures))) :
    u = t ∧ run' = run ∧ s.router.lifecycle = .running ∧ s.Awaits workers := by
  obtain rfl := hs.owner hu id
  cases hs.oversees with
  | watching h hl ha =>
    rw [hu] at h
    cases h
    exact ⟨rfl, rfl, hl, ha⟩
  | draining h _ _ _ | ended h _ _ _ => rw [hu] at h; cases h

theorem Serving.draining {u : Nat} {run' : Context} {workers : List Nat} {failures : List String}
    (hs : s.Serving t base run) (hu : s.tasks[u]? = some (.run (.draining run' workers failures))) :
    u = t ∧ run' = run ∧ s.router.lifecycle = .draining ∧ s.world.isCancelled run = true ∧ s.Awaits workers := by
  obtain rfl := hs.owner hu id
  cases hs.oversees with
  | draining h hl hcancel ha =>
    rw [hu] at h
    cases h
    exact ⟨rfl, rfl, hl, hcancel, ha⟩
  | watching h _ _ | ended h _ _ _ => rw [hu] at h; cases h

theorem Course.subscribing_of {made : List (Nat × Nat)} {rest : List Nat} (hc : s.Course)
    (ht : s.tasks[t]? = some (.run (.subscribing run made rest))) : s.Subscribing t run made rest := by
  cases hc with
  | waiting _ _ _ hr => exact (hr ht).elim
  | failed ho => exact (ho.idle ht).elim
  | serving hs => exact absurd ht hs.not_subscribing
  | @subscribing t' run made rest hs =>
    by_cases hu : t = t'
    · subst hu
      have he := hs.owner
      rw [ht] at he
      cases he
      exact hs
    · exact (hs.lone ht hu).elim

/-- A supervisor that is past subscribing has workers. -/
theorem Course.serving_of {v : Supervision} (hc : s.Course) (ht : s.tasks[t]? = some (.run v)) (hv : ¬v.Idle)
    (hn : ∀ run made rest, v ≠ .subscribing run made rest) : ∃ t₀ base run, s.Serving t₀ base run := by
  cases hc with
  | waiting _ _ _ hr => exact absurd (hr ht) hv
  | failed ho => exact absurd (ho.idle ht) hv
  | serving hs => exact ⟨_, _, _, hs⟩
  | @subscribing t' run made rest hs =>
    by_cases hu : t = t'
    · subst hu
      have he := hs.owner
      rw [ht] at he
      cases he
      exact absurd rfl (hn run made rest)
    · exact absurd (hs.lone ht hu) hv

/-- Where there is a worker, the routes have their workers. -/
theorem Course.serving_of_worker {w : Worker} (hc : s.Course) (hw : s.tasks[t]? = some (.worker w)) :
    ∃ t₀ base run, s.Serving t₀ base run := by
  cases hc with
  | waiting _ _ hn _ => exact absurd hw hn
  | failed ho => exact absurd hw ho.unmanned
  | subscribing hs => exact absurd hw hs.unmanned
  | serving hs => exact ⟨_, _, _, hs⟩

theorem Course.serving_of_running (hc : s.Course) (hl : s.router.lifecycle = .running) :
    ∃ t₀ base run, s.Serving t₀ base run := by
  cases hc with
  | waiting _ h _ _ => rw [h] at hl; cases hl
  | subscribing hs => rw [hs.lifecycle] at hl; cases hl
  | failed ho =>
    have h := ho.lifecycle
    rw [hl] at h
    rcases h with h | ⟨h, -⟩ <;> cases h
  | serving hs => exact ⟨_, _, _, hs⟩

/-! ### From stage to stage -/

/-- The supervisor moves, and no task begins. -/
theorem moved_run {v : Supervision} (v' : Supervision) (x : World) (r : Router) (active : Option Nat)
    (ht : s.tasks[t]? = some (.run v)) :
    ({ s.moved t x r [] (.run v') with active } : State).tasks[t]? = some (.run v') ∧
      (∀ {u : Nat} {v₀ : Supervision}, ({ s.moved t x r [] (.run v') with active } : State).tasks[u]? = some (.run v₀) →
        u ≠ t → s.tasks[u]? = some (.run v₀)) ∧
      ∀ {u : Nat} {w : Worker}, ({ s.moved t x r [] (.run v') with active } : State).tasks[u]? = some (.worker w) ↔
        s.tasks[u]? = some (.worker w) := by
  refine ⟨set_append_self ht, fun {u v₀} hv hu => ?_, fun {u w} => ⟨fun hw => ?_, fun hw => ?_⟩⟩
  · rcases set_append_back hv with ⟨he, -⟩ | ⟨-, hv⟩ | ⟨-, hv⟩
    · exact absurd he hu
    · exact hv
    · cases hv
  · rcases set_append_back hw with ⟨-, he⟩ | ⟨-, hw⟩ | ⟨-, hw⟩
    · cases he
    · exact hw
    · cases hw
  · refine set_append_of_ne hw fun he => ?_
    rw [he, ht] at hw
    cases hw

theorem Course.begins {c : Context} (hc : s.Course) (ht : s.tasks[t]? = some (.run (.fresh c)))
    (hst : s.router.started = false) :
    ({ s.moved t { s.world with tokens := s.world.tokens.derive c.token } { s.router with started := true } []
      (.run (.subscribing { c with token := s.world.tokens.next } [] (List.range s.router.routes.length))) with
        active } : State).Course := by
  cases hc with
  | waiting _ hl hw hr =>
    obtain ⟨howner, hruns, hworkers⟩ := moved_run
      (.subscribing { c with token := s.world.tokens.next } [] (List.range s.router.routes.length))
      { s.world with tokens := s.world.tokens.derive c.token } { s.router with started := true } active ht
    exact .subscribing {
      started := rfl
      lifecycle := hl
      owner := howner
      lone := fun hv hu => hr (hruns hv hu)
      unmanned := fun hw' => hw (hworkers.mp hw')
      token := by simp [State.moved, Tokens.next, Tokens.derive]
      order := by simp [State.moved]
      distinct := List.nodup_nil
      made := fun _ hm => (nomatch hm) }
  | subscribing hs => rw [hs.started] at hst; cases hst
  | serving hs => rw [hs.started] at hst; cases hst
  | failed ho => rw [ho.started] at hst; cases hst

theorem Subscribing.subscribes {made : List (Nat × Nat)} {r : Nat} {rest : List Nat} {route : Route} {sub : Nat}
    {x : World} (hs : s.Subscribing t run made (r :: rest)) (hr : s.router.routes[r]? = some route)
    (hx : s.world.subscribe .router run.token route.topic = .ok (sub, x)) :
    ({ s.moved t x s.router [] (.run (.subscribing run (made ++ [(r, sub)]) rest)) with active } :
      State).Subscribing t run (made ++ [(r, sub)]) rest := by
  obtain ⟨rfl, hsubs, htokens⟩ := World.subscribe_router hx
  obtain ⟨howner, hruns, hworkers⟩ := moved_run
    (.subscribing run (made ++ [(r, s.world.exchange.subscriptions.length)]) rest) x s.router active hs.owner
  refine ⟨hs.started, hs.lifecycle, howner, fun hv hu => hs.lone (hruns hv hu) hu,
    fun hw => hs.unmanned (hworkers.mp hw), ?_, ?_, ?_, fun m hm => ?_⟩
  · show run.token < x.tokens.next
    rw [htokens]
    exact hs.token
  · show (made ++ [(r, s.world.exchange.subscriptions.length)]).map (·.1) ++ rest = List.range s.router.routes.length
    simpa using hs.order
  · -- The subscriptions made before are older than the new one.
    rw [List.map_append, List.nodup_append]
    refine ⟨hs.distinct, by simp, fun i hi j hj => ?_⟩
    obtain ⟨m, hm, rfl⟩ := List.mem_map.mp hi
    obtain ⟨-, sub, -, hsub, -⟩ := hs.made m hm
    obtain rfl : j = s.world.exchange.subscriptions.length := by simpa using hj
    exact Nat.ne_of_lt (List.getElem?_eq_some_iff.mp hsub).1
  · rcases List.mem_append.mp hm with hm | hm
    · obtain ⟨route, sub, hr, hsub, hfacts⟩ := hs.made m hm
      refine ⟨route, sub, hr, ?_, hfacts⟩
      show x.exchange.subscriptions[m.2]? = some sub
      rw [hsubs, List.getElem?_append_left (List.getElem?_eq_some_iff.mp hsub).1, hsub]
    · obtain rfl := List.mem_singleton.mp hm
      refine ⟨route, { topic := route.topic, token := run.token }, hr, ?_, rfl, rfl, rfl, rfl⟩
      show x.exchange.subscriptions[s.world.exchange.subscriptions.length]? = _
      rw [hsubs, List.getElem?_concat_length]

theorem Subscribing.fails {made : List (Nat × Nat)} {rest : List Nat} {x : World} {r : Router} {o : Outcome}
    (hs : s.Subscribing t run made rest) (hst : r.started = true)
    (hl : r.lifecycle = .closed ∨ r.lifecycle = .notStarted ∧ x.exchange.isOversized = true) :
    ({ s.moved t x r [] (.run (.ended o)) with active } : State).Over := by
  obtain ⟨howner, hruns, hworkers⟩ := moved_run (.ended o) x r active hs.owner
  refine ⟨hst, fun hw => hs.unmanned (hworkers.mp hw), fun {u v} hv => ?_, hl⟩
  by_cases hu : u = t
  · subst hu
    rw [howner] at hv
    cases hv
    trivial
  · exact hs.lone (hruns hv hu) hu

theorem workerFor_serves {r sub : Nat} {w : Worker} (h : s.workerFor run r sub = some (.worker w)) :
    w.route = r ∧ w.subscription = sub ∧ w.context = run ∧ ∃ route, w.Serves s.router route := by
  obtain ⟨route, hr, he⟩ := Option.map_eq_some_iff.mp h
  cases he
  exact ⟨rfl, rfl, rfl, route, hr, rfl, rfl, rfl, rfl⟩

section Manning
variable {made : List (Nat × Nat)}

theorem Subscribing.order_nil (hs : s.Subscribing t run made []) : made.map (·.1) = List.range s.router.routes.length := by
  simpa using hs.order

theorem Subscribing.length_made (hs : s.Subscribing t run made []) : made.length = s.router.routes.length := by
  simpa using congrArg List.length hs.order_nil

/-- Each subscription gets a worker, so that the workers stand in the order of the routes. -/
theorem Subscribing.getElem?_workers (hs : s.Subscribing t run made []) (i : Nat) :
    (made.filterMap fun m => s.workerFor run m.1 m.2)[i]? = made[i]?.bind fun m => s.workerFor run m.1 m.2 := by
  refine getElem?_filterMap_of_isSome (fun m hm => ?_) i
  obtain ⟨route, -, hr, -⟩ := hs.made m hm
  simp [workerFor, hr]

theorem Subscribing.idle_of_mem (hs : s.Subscribing t run made []) {i : Nat} {k : Task}
    (h : (made.filterMap fun m => s.workerFor run m.1 m.2)[i]? = some k) : ∃ w, k = .worker w := by
  rw [hs.getElem?_workers, Option.bind_eq_some_iff] at h
  obtain ⟨m, -, hf⟩ := h
  obtain ⟨w, he, -⟩ := workerFor_idle hf
  exact ⟨w, he⟩

/-- The worker at place `i` is the one for route `i` and its subscription. -/
theorem Subscribing.worker_serves (hs : s.Subscribing t run made []) {i : Nat} {w : Worker}
    (h : (made.filterMap fun m => s.workerFor run m.1 m.2)[i]? = some (.worker w)) :
    ∃ m, made[i]? = some m ∧ m.1 = i ∧ w.route = i ∧ w.subscription = m.2 ∧ w.context = run ∧
      ∃ route, w.Serves s.router route := by
  rw [hs.getElem?_workers, Option.bind_eq_some_iff] at h
  obtain ⟨m, hm, hf⟩ := h
  obtain ⟨hr, hsub, hc, hserves⟩ := workerFor_serves hf
  have hplace : m.1 = i := by
    have hi : i < s.router.routes.length := hs.length_made ▸ (List.getElem?_eq_some_iff.mp hm).1
    have he := congrArg (·[i]?) hs.order_nil
    simp only [List.getElem?_map, hm, List.getElem?_range hi, Option.map_some, Option.some.injEq] at he
    exact he
  exact ⟨m, hm, hplace, hr.trans hplace, hsub, hc, hserves⟩

theorem Subscribing.workers_manned (hs : s.Subscribing t run made []) {i : Nat} (hi : i < s.router.routes.length) :
    ∃ w, (made.filterMap fun m => s.workerFor run m.1 m.2)[i]? = some (.worker w) ∧ w.route = i := by
  have hi' : i < made.length := hs.length_made ▸ hi
  obtain ⟨route, -, hr, -⟩ := hs.made _ (List.getElem_mem hi')
  obtain ⟨k, hk⟩ : ∃ k, (made.filterMap fun m => s.workerFor run m.1 m.2)[i]? = some k := by
    rw [hs.getElem?_workers, List.getElem?_eq_getElem hi']
    exact ⟨_, by rw [Option.bind_some, workerFor, hr]; rfl⟩
  obtain ⟨w, rfl⟩ := hs.idle_of_mem hk
  obtain ⟨-, -, -, hroute, -⟩ := hs.worker_serves hk
  exact ⟨w, hk, hroute⟩

/-- No two workers have the same subscription. -/
theorem Subscribing.workers_distinct (hs : s.Subscribing t run made []) {i i' : Nat} {w w' : Worker}
    (h : (made.filterMap fun m => s.workerFor run m.1 m.2)[i]? = some (.worker w))
    (h' : (made.filterMap fun m => s.workerFor run m.1 m.2)[i']? = some (.worker w'))
    (he : w.subscription = w'.subscription) : i = i' := by
  obtain ⟨m, hm, -, -, hsub, -⟩ := hs.worker_serves h
  obtain ⟨m', hm', -, -, hsub', -⟩ := hs.worker_serves h'
  have hsubs : (made.map (·.2))[i]? = (made.map (·.2))[i']? := by
    simpa [hm, hm', ← hsub, ← hsub'] using he
  have hl : i < (made.map (·.2)).length := by
    simpa using (List.getElem?_eq_some_iff.mp hm).1
  exact (List.getElem?_inj hl hs.distinct).mp hsubs

/-- All routes are subscribed: they get their workers. -/
theorem Subscribing.serves {workers : List Task} (hs : s.Subscribing t run made [])
    (hw : workers = made.filterMap fun m => s.workerFor run m.1 m.2) :
    ({ s.moved t s.world { s.router with lifecycle := .running } workers
      (.run (.watching run ((List.range workers.length).map (s.tasks.length + ·)) [])) with active } : State).Serving t
        s.tasks.length run := by
  -- The workers that there are now are those that were added, each at its place behind the old tasks.
  have hnew : ∀ {u : Nat} {w : Worker},
      (s.tasks.set t (.run (.watching run ((List.range workers.length).map (s.tasks.length + ·)) [])) ++
        workers)[u]? = some (.worker w) → s.tasks.length ≤ u ∧ workers[u - s.tasks.length]? = some (.worker w) := by
    intro u w h
    rcases set_append_back h with ⟨-, he⟩ | ⟨-, h⟩ | h
    · cases he
    · exact absurd h hs.unmanned
    · exact h
  have hold : ∀ {i : Nat} {w : Worker}, workers[i]? = some (.worker w) →
      (s.tasks.set t (.run (.watching run ((List.range workers.length).map (s.tasks.length + ·)) [])) ++
        workers)[s.tasks.length + i]? = some (.worker w) := fun {i w} h => by
    rw [List.getElem?_append_right (by simp)]
    simpa using h
  subst hw
  refine ⟨hs.started, fun {u v} hv hu => ?_, hs.token, fun i hi => ?_, fun {u w} h => ?_, fun {u w} h => ?_,
    fun {u u' w w'} h h' he => ?_, ?_⟩
  · rcases set_append_back hv with ⟨he, -⟩ | ⟨-, hv⟩ | ⟨-, hv⟩
    · exact absurd he hu
    · exact hs.lone hv hu
    · obtain ⟨w, he⟩ := hs.idle_of_mem hv
      cases he
  · obtain ⟨w, hw, hr⟩ := hs.workers_manned hi
    exact ⟨w, hold hw, hr⟩
  · obtain ⟨hu, hw⟩ := hnew h
    obtain ⟨m, -, -, hr, -, hc, route, hserves⟩ := hs.worker_serves hw
    exact ⟨by rw [hr, Nat.add_sub_cancel' hu], hc, route, hserves.listed, hserves.name, hserves.topic, hserves.handler,
      hserves.stages⟩
  · obtain ⟨hu, hw⟩ := hnew h
    obtain ⟨m, hm, he, hr, hi, hc, route, hserves⟩ := hs.worker_serves hw
    obtain ⟨route', sub, hr', hsub, htopic, htoken, -⟩ := hs.made m (List.mem_of_getElem? hm)
    have hlisted := hserves.listed
    rw [hr, ← he, hr'] at hlisted
    cases hlisted
    exact ⟨sub, by rw [hi]; exact hsub, htopic.trans hserves.topic.symm, by rw [htoken, hc]⟩
  · obtain ⟨hu, hw⟩ := hnew h
    obtain ⟨hu', hw'⟩ := hnew h'
    have := hs.workers_distinct hw hw' he
    omega
  · refine .watching (set_append_self hs.owner) rfl ⟨fun u hu => ?_, fun {u w} h => .inl ?_⟩
    · obtain ⟨i, hi, rfl⟩ := List.mem_map.mp hu
      have hk := List.getElem?_eq_getElem (List.mem_range.mp hi)
      obtain ⟨w, he⟩ := hs.idle_of_mem hk
      exact ⟨w, hold (he ▸ hk)⟩
    · obtain ⟨hu, hw⟩ := hnew h
      exact List.mem_map.mpr ⟨u - s.tasks.length, List.mem_range.mpr (List.getElem?_eq_some_iff.mp hw).1,
        Nat.add_sub_cancel' hu⟩

end Manning

/-- The workers are at work or have ended; the supervisor goes on to another part of the same stage. -/
theorem Serving.moved {v v' : Supervision} {x : World} {r : Router} (hs : s.Serving t base run)
    (ht : s.tasks[t]? = some (.run v)) (hx : x.exchange = s.world.exchange)
    (hnext : s.world.tokens.next ≤ x.tokens.next) (hst : r.started = true) (hroutes : r.routes = s.router.routes)
    (hstages : r.stages = s.router.stages)
    (ho : ({ s.moved t x r [] (.run v') with active } : State).Oversees t run) :
    ({ s.moved t x r [] (.run v') with active } : State).Serving t base run := by
  obtain ⟨-, hruns, hworkers⟩ := moved_run v' x r active ht
  refine ⟨hst, fun hv hu => hs.lone (hruns hv hu) hu, Nat.lt_of_lt_of_le hs.token hnext, fun i hi => ?_,
    fun {u w} hw => ?_, fun {u w} hw => ?_,
    fun hw hw' he => hs.distinct (hworkers.mp hw) (hworkers.mp hw') he, ho⟩
  · obtain ⟨w, hw, hr⟩ := hs.manned i (hroutes ▸ hi)
    exact ⟨w, hworkers.mpr hw, hr⟩
  · obtain ⟨hu, hc, route, hr⟩ := hs.serves (hworkers.mp hw)
    refine ⟨hu, hc, route, ?_, hr.name, hr.topic, hr.handler, ?_⟩
    · show r.routes[w.route]? = some route
      rw [hroutes, hr.listed]
    · show w.stages = r.stages ++ route.stages
      rw [hstages, hr.stages, Router.pipeline]
  · obtain ⟨sub, hsub, hfacts⟩ := hs.reads (hworkers.mp hw)
    refine ⟨sub, ?_, hfacts⟩
    show x.exchange.subscriptions[w.subscription]? = some sub
    rw [hx, hsub]

theorem Awaits.moved {v v' : Supervision} {x : World} {r : Router} {workers : List Nat} (ha : s.Awaits workers)
    (ht : s.tasks[t]? = some (.run v)) :
    ({ s.moved t x r [] (.run v') with active } : State).Awaits workers := by
  obtain ⟨-, -, hworkers⟩ := moved_run v' x r active ht
  refine ⟨fun u hu => ?_, fun hw => ha.others (hworkers.mp hw)⟩
  obtain ⟨w, hw⟩ := ha.awaited u hu
  exact ⟨w, hworkers.mpr hw⟩

/-- A worker that has ended is not waited for any more. -/
theorem Awaits.joined {workers : List Nat} {u : Nat} (ha : s.Awaits workers) (he : (s.ended? u).isSome) :
    s.Awaits (workers.erase u) := by
  refine ⟨fun u' hu' => ha.awaited u' (List.mem_of_mem_erase hu'), fun {u' w} hw => ?_⟩
  rcases ha.others hw with hu' | hf
  · by_cases hn : u' = u
    · subst hn
      rw [ended?, hw] at he
      cases ho : w.occupation with
      | ended f => exact .inr ⟨f, rfl⟩
      | idle | busy _ _ => simp [Occupation.ended?, ho] at he
    · exact .inl ((List.mem_erase_of_ne hn).mpr hu')
  · exact .inr hf

/-- Once the routes have their workers, that is how it stays. -/
theorem Serving.supervised {u : Nat} {v v' : Supervision} {x : World} {r : Router} {new : List Task}
    (hs : s.Serving t base run) (hu : s.tasks[u]? = some (.run v)) (hm : v.Moves s u x r new v')
    (h : s.Step o { s.moved u x r new (.run v') with active }) :
    ({ s.moved u x r new (.run v') with active } : State).Serving t base run := by
  cases hm with
  | stays => exact hs.keeps h (.moved hu .run rfl rfl ⟨rfl, rfl⟩)
  | rejected hv _ =>
    subst hv
    exact hs.keeps h (.moved hu .rejected rfl rfl ⟨rfl, rfl⟩)
  | begins _ hst =>
    rw [hs.started] at hst
    cases hst
  | skips hv _ | subscribes hv _ _ | declined hv _ _ _ | breaksOff hv _ _ | serves hv _ =>
    subst hv
    exact absurd hu hs.not_subscribing
  | joins hv _ he _ =>
    subst hv
    obtain ⟨rfl, rfl, hl, ha⟩ := hs.watching hu
    exact hs.moved hu rfl (Nat.le_refl _) hs.started rfl rfl
      (.watching (set_append_self hu) hl ((ha.joined he).moved hu))
  | @drains run' workers workers' failures failures' hv hw =>
    subst hv
    obtain ⟨rfl, rfl, hl, ha⟩ := hs.watching hu
    have ha' : s.Awaits workers' := by
      rcases hw with ⟨rfl, -⟩ | ⟨u, -, he, rfl, -⟩
      · exact ha
      · exact ha.joined he
    exact hs.moved hu rfl (by simp [World.cancel, Tokens.cancel, Tokens.next]) hs.started rfl rfl
      (.draining (set_append_self hu) rfl (Tokens.isCancelled_cancel_self hs.token) (ha'.moved hu))
  | awaits hv _ he =>
    subst hv
    obtain ⟨rfl, rfl, hl, hcancel, ha⟩ := hs.draining hu
    exact hs.moved hu rfl (Nat.le_refl _) hs.started rfl rfl
      (.draining (set_append_self hu) hl hcancel ((ha.joined he).moved hu))
  | @finishes run' failures x hv hx =>
    subst hv
    obtain ⟨rfl, rfl, hl, hcancel, ha⟩ := hs.draining hu
    have hsame : x.exchange = s.world.exchange ∧ x.tokens = s.world.tokens := by
      rw [hx]
      split <;> exact ⟨rfl, rfl⟩
    refine hs.moved hu hsame.1 (Nat.le_of_eq (congrArg Tokens.next hsame.2.symm)) hs.started rfl rfl
      (.ended (set_append_self hu) rfl ?_ (ha.moved hu))
    show x.tokens.isCancelled run'.token = true
    rw [hsame.2]
    exact hcancel

theorem Serving.step (hs : s.Serving t base run) (h : s.Step o s') : s'.Serving t base run := by
  rcases h.keeps_or with ⟨hk, -⟩ | ⟨u, v, v', x, r, new, active, hu, hm, rfl⟩
  · exact hs.keeps h hk
  · exact hs.supervised hu hm h

/-- A supervisor moves on from any point of the course. -/
theorem Course.supervised {v v' : Supervision} {x : World} {r : Router} {new : List Task} (hc : s.Course)
    (ht : s.tasks[t]? = some (.run v)) (hm : v.Moves s t x r new v')
    (h : s.Step o { s.moved t x r new (.run v') with active }) :
    ({ s.moved t x r new (.run v') with active } : State).Course := by
  have serving : ¬v.Idle → (∀ run made rest, v ≠ .subscribing run made rest) →
      ({ s.moved t x r new (.run v') with active } : State).Course := fun hv hn => by
    obtain ⟨_, _, _, hs⟩ := hc.serving_of ht hv hn
    exact .serving (hs.supervised ht hm h)
  cases hm with
  | stays => exact hc.keeps h (.moved ht .run rfl rfl ⟨rfl, rfl⟩) fun _ _ _ _ _ => rfl
  | rejected hv _ =>
    subst hv
    refine hc.keeps h (.moved ht .rejected rfl rfl ⟨rfl, rfl⟩) fun _ _ _ _ _ => ?_
    show (s.reported t .alreadyRunning).exchange = s.world.exchange
    unfold reported
    split <;> rfl
  | begins hv hst =>
    subst hv
    exact hc.begins ht hst
  | @skips run made i rest hv hr =>
    subst hv
    have hs := hc.subscribing_of ht
    have hi : i < s.router.routes.length := by
      rw [← List.mem_range, ← hs.order]
      exact List.mem_append_right _ List.mem_cons_self
    rw [List.getElem?_eq_getElem hi] at hr
    cases hr
  | subscribes hv hr hx =>
    subst hv
    exact .subscribing ((hc.subscribing_of ht).subscribes hr hx)
  | declined hv _ _ _ =>
    subst hv
    exact .failed ((hc.subscribing_of ht).fails (hc.subscribing_of ht).started (.inl rfl))
  | breaksOff hv _ hx =>
    subst hv
    have hs := hc.subscribing_of ht
    refine .failed (hs.fails hs.started (.inr ⟨hs.lifecycle, ?_⟩))
    rw [Exchange.isOversized, Exchange.drops_capacity]
    exact World.subscribe_brokeOff hx
  | serves hv hw =>
    subst hv
    exact .serving ((hc.subscribing_of ht).serves hw)
  | joins hv _ _ _ | drains hv _ | awaits hv _ _ | finishes hv _ =>
    subst hv
    exact serving id fun _ _ _ h => by cases h

theorem Course.step (hc : s.Course) (h : s.Step o s') : s'.Course := by
  rcases h.keeps_or with ⟨hk, hn⟩ | ⟨t, v, v', x, r, new, active, ht, hm, rfl⟩
  · exact hc.keeps h hk fun t b v ho hv => absurd hv (hn t b v ho)
  · exact hc.supervised ht hm h

end State

/-- A supervisor at work stays with its run, and so do the workers that it begins. -/
theorem Supervision.Moves.under {s : State} {t : Nat} {v v' : Supervision} {x : World} {r : Router} {new : List Task}
    (h : v.Moves s t x r new v') (hs : s.router.started = true) :
    r.started = true ∧ (∀ run, v'.run? = some run → v.run? = some run) ∧
      ∀ w, .worker w ∈ new → v.run? = some w.context := by
  cases h with
  | stays => exact ⟨hs, fun _ => id, fun _ hw => (nomatch hw)⟩
  | begins _ hst =>
    rw [hs] at hst
    cases hst
  | @serves run made _ hv hn =>
    subst hv hn
    refine ⟨hs, fun _ => id, fun w hw => ?_⟩
    obtain ⟨m, -, hf⟩ := List.mem_filterMap.mp hw
    obtain ⟨-, -, hc, -⟩ := State.workerFor_serves hf
    rw [hc]
    rfl
  | rejected hv _ | skips hv _ | subscribes hv _ _ | declined hv _ _ _ | breaksOff hv _ _ | joins hv _ _ _ | drains hv _
  | awaits hv _ _ | finishes hv _ =>
    subst hv
    exact ⟨hs, by first | exact fun _ => id | nofun, fun _ hw => (nomatch hw)⟩

end Relay
