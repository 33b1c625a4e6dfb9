import Relay.Proofs.Router.Frames

/-! The course of a run. A router is run once: its routes are frozen, each is subscribed, and then each
    has one worker, which reads the subscription of the route, until all workers have ended. Any other
    attempt to run the router is turned away. -/

namespace Relay

/-- A supervisor that has not begun, or has returned. -/
def Supervision.Idle : Supervision → Prop
  | fresh _ | ended _ => True
  | _ => False

/-- A worker later on: it serves the same route, and an end is for good. -/
structure Worker.Goes (w w' : Worker) : Prop where
  route : w'.route = w.route
  name : w'.name = w.name
  topic : w'.topic = w.topic
  handler : w'.handler = w.handler
  stages : w'.stages = w.stages
  subscription : w'.subscription = w.subscription
  context : w'.context = w.context
  ended : ∀ f, w.occupation = .ended f → w'.occupation = .ended f

theorem Worker.Goes.refl (w : Worker) : w.Goes w := ⟨rfl, rfl, rfl, rfl, rfl, rfl, rfl, fun _ => id⟩

theorem Worker.Moves.goes {t : Nat} {x x' : World} {w w' : Worker} (h : w.Moves t x x' w') : w.Goes w' := by
  cases h with
  | stays => exact .refl w
  | takes ho _ _ _ | stops ho _ | works ho _ _ | succeeds ho _ | fails ho _ _ | breaksOff ho _ =>
    exact ⟨rfl, rfl, rfl, rfl, rfl, rfl, rfl, fun f hf => by rw [ho] at hf; cases hf⟩

/-- Whether a task is neither a worker nor a run of the router. -/
def Task.isCaller : Task → Bool
  | worker _ | run _ => false
  | _ => true

/-- A task later on, if it does not advance a run of the router. -/
inductive Task.Goes : Task → Task → Prop where
  | run {v : Supervision} : Goes (.run v) (.run v)
  | rejected {c : Context} {o : Outcome} : Goes (.run (.fresh c)) (.run (.ended o))
  | worker {w w' : Worker} : w.Goes w' → Goes (.worker w) (.worker w')
  | caller {k k' : Task} : k.isCaller = true → k'.isCaller = true → Goes k k'

theorem Task.Goes.refl (k : Task) : k.Goes k := by
  cases k with
  | run v => exact .run
  | worker w => exact .worker (.refl w)
  | close _ | awaitStart _ | call _ | errand _ _ _ | alarm _ _ _ => exact .caller rfl rfl

/-- A worker for a route of the router. -/
structure Worker.Serves (w : Worker) (router : Router) (route : Route) : Prop where
  listed : router.routes[w.route]? = some route
  name : w.name = route.name
  topic : w.topic = route.topic
  handler : w.handler = route.handler
  stages : w.stages = router.pipeline route

namespace State
variable {s s' : State} {o : Op} {t base : Nat} {run : Context}

/-! ### The stages of a run -/

/-- Nothing has been taken yet from subscription `i`, which is one for route `r` in this run. -/
def Awaiting (s : State) (run : Context) (r i : Nat) : Prop :=
  ∃ route sub, s.router.routes[r]? = some route ∧ s.world.exchange.subscriptions[i]? = some sub ∧
    sub.topic = route.topic ∧ sub.token = run.token ∧ sub.taken = [] ∧ sub.dropped = false

/-- Task `t` is the only one that runs the router, and has subscribed some of the routes. -/
structure Subscribing (s : State) (t : Nat) (run : Context) (made : List (Nat × Nat)) (rest : List Nat) : Prop where
  started : s.router.started = true
  lifecycle : s.router.lifecycle = .notStarted
  owner : s.tasks[t]? = some (.run (.subscribing run made rest))
  lone : ∀ {u : Nat} {v : Supervision}, s.tasks[u]? = some (.run v) → u ≠ t → v.Idle
  unmanned : ∀ {u : Nat} {w : Worker}, s.tasks[u]? ≠ some (.worker w)
  token : run.token < s.world.tokens.next
  order : made.map (·.1) ++ rest = List.range s.router.routes.length
  distinct : (made.map (·.2)).Nodup
  made : ∀ m ∈ made, s.Awaiting run m.1 m.2

/-- These are workers, and all others have ended. -/
structure Awaits (s : State) (workers : List Nat) : Prop where
  awaited : ∀ u ∈ workers, ∃ w, s.tasks[u]? = some (.worker w)
  others : ∀ {u : Nat} {w : Worker}, s.tasks[u]? = some (.worker w) → u ∈ workers ∨ ∃ f, w.occupation = .ended f

/-- How far the supervisor has come since the workers began. -/
inductive Oversees (s : State) (t : Nat) (run : Context) : Prop where
  | watching {workers : List Nat} {failures : List String} :
      s.tasks[t]? = some (.run (.watching run workers failures)) → s.router.lifecycle = .running →
      s.Awaits workers → Oversees s t run
  | draining {workers : List Nat} {failures : List String} :
      s.tasks[t]? = some (.run (.draining run workers failures)) → s.router.lifecycle = .draining →
      s.world.isCancelled run = true → s.Awaits workers → Oversees s t run
  | ended {o : Outcome} : s.tasks[t]? = some (.run (.ended o)) → s.router.lifecycle = .closed →
      s.world.isCancelled run = true → s.Awaits [] → Oversees s t run

/-- The routes have their workers, one each, from task `base` on. -/
structure Serving (s : State) (t base : Nat) (run : Context) : Prop where
  started : s.router.started = true
  lone : ∀ {u : Nat} {v : Supervision}, s.tasks[u]? = some (.run v) → u ≠ t → v.Idle
  token : run.token < s.world.tokens.next
  manned : ∀ i, i < s.router.routes.length → ∃ w, s.tasks[base + i]? = some (.worker w) ∧ w.route = i
  serves : ∀ {u : Nat} {w : Worker}, s.tasks[u]? = some (.worker w) →
    u = base + w.route ∧ w.context = run ∧ ∃ route, w.Serves s.router route
  reads : ∀ {u : Nat} {w : Worker}, s.tasks[u]? = some (.worker w) → ∃ sub,
    s.world.exchange.subscriptions[w.subscription]? = some sub ∧ sub.topic = w.topic ∧ sub.token = w.context.token
  distinct : ∀ {u u' : Nat} {w w' : Worker}, s.tasks[u]? = some (.worker w) → s.tasks[u']? = some (.worker w') →
    w.subscription = w'.subscription → u = u'
  oversees : s.Oversees t run

/-- A run that came to its end before any route had a worker: the router is closed, or the work broke off
    at queues that are too long to be made. -/
structure Over (s : State) : Prop where
  started : s.router.started = true
  unmanned : ∀ {u : Nat} {w : Worker}, s.tasks[u]? ≠ some (.worker w)
  idle : ∀ {u : Nat} {v : Supervision}, s.tasks[u]? = some (.run v) → v.Idle
  lifecycle : s.router.lifecycle = .closed ∨
    s.router.lifecycle = .notStarted ∧ s.world.exchange.isOversized = true

/-- How far the life of a router has come. -/
inductive Course (s : State) : Prop where
  | waiting : s.router.started = false → s.router.lifecycle = .notStarted →
      (∀ {u : Nat} {w : Worker}, s.tasks[u]? ≠ some (.worker w)) →
      (∀ {u : Nat} {v : Supervision}, s.tasks[u]? = some (.run v) → v.Idle) → Course s
  | subscribing {t : Nat} {run : Context} {made : List (Nat × Nat)} {rest : List Nat} :
      s.Subscribing t run made rest → Course s
  | serving {t base : Nat} {run : Context} : s.Serving t base run → Course s
  | failed : s.Over → Course s

/-! ### Steps that leave the course as it is -/

/-- What steps do that do not advance a run: supervisors at work stay where they are, and so does the
    router. -/
structure Keeps (s s' : State) : Prop where
  run : ∀ {u : Nat} {v : Supervision}, s.tasks[u]? = some (.run v) → (∀ c, v ≠ .fresh c) → s'.tasks[u]? = some (.run v)
  runs : ∀ {u : Nat} {v : Supervision}, s'.tasks[u]? = some (.run v) → s.tasks[u]? = some (.run v) ∨ v.Idle
  worker : ∀ {u : Nat} {w : Worker}, s.tasks[u]? = some (.worker w) →
    ∃ w', s'.tasks[u]? = some (.worker w') ∧ w.Goes w'
  workers : ∀ {u : Nat} {w' : Worker}, s'.tasks[u]? = some (.worker w') →
    ∃ w, s.tasks[u]? = some (.worker w) ∧ w.Goes w'
  started : s'.router.started = s.router.started
  lifecycle : s'.router.lifecycle = s.router.lifecycle
  frozen : s.router.started = true → s'.router.routes = s.router.routes ∧ s'.router.stages = s.router.stages

theorem Outside.keeps (h : Outside s o s') : s.Keeps s' := by
  -- Tasks stay what they are, or are callers, and new ones are no workers.
  have of_tasks : ∀ {s' : State},
      (∀ {u : Nat} {k : Task}, s.tasks[u]? = some k → (∀ c, k ≠ .close c) → s'.tasks[u]? = some k) →
      (∀ {u : Nat} {k : Task}, s'.tasks[u]? = some k → s.tasks[u]? = some k ∨ (∃ c, k = .close c) ∨ k.Begun o) →
      s'.router.started = s.router.started → s'.router.lifecycle = s.router.lifecycle →
      (s.router.started = true → s'.router.routes = s.router.routes ∧ s'.router.stages = s.router.stages) →
      s.Keeps s' := fun hk hb hs hl hf => {
    run := fun hv _ => hk hv nofun
    runs := fun hv => by
      rcases hb hv with h | ⟨c, hc⟩ | h
      · exact .inl h
      · cases hc
      · cases h
        exact .inr trivial
    worker := fun hw => ⟨_, hk hw nofun, .refl _⟩
    workers := fun hw => by
      rcases hb hw with h | ⟨c, hc⟩ | h
      · exact ⟨_, h, .refl _⟩
      · cases hc
      · cases h
    started := hs
    lifecycle := hl
    frozen := hf }
  cases h with
  | registers hst hg =>
    exact of_tasks (fun hk _ => hk) (fun hk => .inl hk) hg.started hg.lifecycle fun h => by simp [hst] at h
  | refuses | stirs _ => exact of_tasks (fun hk _ => hk) (fun hk => .inl hk) rfl rfl fun _ => ⟨rfl, rfl⟩
  | @begins x k _ hb =>
    refine of_tasks (fun hk _ => ?_) (fun hk => ?_) rfl rfl fun _ => ⟨rfl, rfl⟩
    · exact (List.getElem?_append_left (List.getElem?_eq_some_iff.mp hk).1).trans hk
    · replace hk : (s.tasks ++ [k])[_]? = some _ := hk
      rw [List.getElem?_append] at hk
      split at hk
      · exact .inl hk
      · obtain rfl := List.mem_singleton.mp (List.mem_of_getElem? hk)
        exact .inr (.inr hb)
  | @abandons t c ht _ =>
    refine of_tasks (fun {u k} hk hc => ?_) (fun {u k} hk => ?_) rfl rfl fun _ => ⟨rfl, rfl⟩
    · show (s.tasks.set t _)[u]? = some k
      rw [List.getElem?_set_ne, hk]
      rintro rfl
      rw [ht] at hk
      cases hk
      exact hc c rfl
    · replace hk : (s.tasks.set t _)[u]? = some k := hk
      rw [List.getElem?_set] at hk
      split at hk
      · split at hk
        · cases hk
          exact .inr (.inl ⟨_, rfl⟩)
        · cases hk
      · exact .inl hk

/-- A task moves without beginning others, and the router stays as far as it was. -/
theorem Keeps.moved {k k' : Task} {x : World} {r : Router} {active : Option Nat} (ht : s.tasks[t]? = some k)
    (hg : k.Goes k') (hs : r.started = s.router.started) (hl : r.lifecycle = s.router.lifecycle)
    (hf : r.routes = s.router.routes ∧ r.stages = s.router.stages) :
    s.Keeps { s.moved t x r [] k' with active } where
  run {u v} hv hn := by
    show (s.tasks.set t k' ++ [])[u]? = _
    by_cases hu : u = t
    · subst hu
      rw [ht] at hv
      cases hv
      cases hg with
      | run => exact set_append_self ht
      | @rejected c o => exact absurd rfl (hn c)
      | caller hr _ => cases hr
    · exact set_append_of_ne hv hu
  runs {u v} hv := by
    rcases set_append_back hv with ⟨rfl, he⟩ | ⟨-, hv⟩ | ⟨-, hv⟩
    · subst he
      cases hg with
      | run => exact .inl ht
      | rejected => exact .inr trivial
      | caller _ hr => cases hr
    · exact .inl hv
    · cases hv
  worker {u w} hw := by
    show ∃ w', (s.tasks.set t k' ++ [])[u]? = _ ∧ _
    by_cases hu : u = t
    · subst hu
      rw [ht] at hw
      cases hw
      cases hg with
      | @worker _ w' hg => exact ⟨w', set_append_self ht, hg⟩
      | caller hr _ => cases hr
    · exact ⟨w, set_append_of_ne hw hu, .refl w⟩
  workers {u w'} hw := by
    rcases set_append_back hw with ⟨rfl, he⟩ | ⟨-, hw⟩ | ⟨-, hw⟩
    · subst he
      cases hg with
      | @worker w _ hg => exact ⟨w, ht, hg⟩
      | caller _ hr => cases hr
    · exact ⟨w', hw, .refl w'⟩
    · cases hw
  started := hs
  lifecycle := hl
  frozen _ := hf

/-- A step leaves the course as it is, or is one of a supervisor. -/
theorem Step.keeps_or (h : s.Step o s') : (s.Keeps s' ∧ ∀ t b v, o = .turn t b → s.tasks[t]? ≠ some (.run v)) ∨
    ∃ t v v' x r new active, s.tasks[t]? = some (.run v) ∧ v.Moves s t x r new v' ∧
      s' = { s.moved t x r new (.run v') with active } := by
  cases h with
  | outside hn _ h => exact .inl ⟨h.keeps, fun t b _ ho => absurd ho (hn t b)⟩
  | @turn t b k k' x r new ho _ ht hm =>
    by_cases hr : ∃ v, k = .run v
    · obtain ⟨v, rfl⟩ := hr
      cases hm with
      | stays => exact .inr ⟨t, v, v, _, _, _, _, ht, .stays, rfl⟩
      | run hv => exact .inr ⟨t, v, _, _, _, _, _, ht, hv, rfl⟩
    · refine .inl ⟨?_, fun t' b' v ho' hv => ?_⟩
      · cases hm with
        | stays => exact .moved ht (.refl k) rfl rfl ⟨rfl, rfl⟩
        | worker hw => exact .moved ht (.worker hw.goes) rfl rfl ⟨rfl, rfl⟩
        | @run v _ _ _ _ _ => exact absurd ⟨v, rfl⟩ hr
        | close hc =>
          have hsame : r.started = s.router.started ∧ r.lifecycle = s.router.lifecycle ∧
              r.routes = s.router.routes ∧ r.stages = s.router.stages := by
            cases hc with
            | stays | tells _ _ | rejected _ _ | returns _ _ _ | fails _ _ _ => exact ⟨rfl, rfl, rfl, rfl⟩
          exact .moved ht (.caller rfl rfl) hsame.1 hsame.2.1 hsame.2.2
        | learns _ | call _ | errand _ _ | unsent _ | sent _ | rings _ =>
          exact .moved ht (.caller rfl rfl) rfl rfl ⟨rfl, rfl⟩
      · rw [ho] at ho'
        cases ho'
        rw [ht] at hv
        cases hv
        exact hr ⟨v, rfl⟩
  | nobody ho _ ht =>
    have same : s.Keeps { s with active := none } :=
      ⟨fun h _ => h, .inl, fun h => ⟨_, h, .refl _⟩, fun h => ⟨_, h, .refl _⟩, rfl, rfl, fun _ => ⟨rfl, rfl⟩⟩
    refine .inl ⟨same, fun t' b' v ho' hv => ?_⟩
    rw [ho] at ho'
    cases ho'
    rw [ht] at hv
    cases hv

theorem Awaits.keeps {workers : List Nat} (ha : s.Awaits workers) (hk : s.Keeps s') : s'.Awaits workers where
  awaited u hu := by
    obtain ⟨w, hw⟩ := ha.awaited u hu
    obtain ⟨w', hw', -⟩ := hk.worker hw
    exact ⟨w', hw'⟩
  others {u w'} hw' := by
    obtain ⟨w, hw, hg⟩ := hk.workers hw'
    rcases ha.others hw with hu | ⟨f, hf⟩
    · exact .inl hu
    · exact .inr ⟨f, hg.ended f hf⟩

theorem Oversees.keeps (ho : s.Oversees t run) (hk : s.Keeps s')
    (hc : s.world.isCancelled run = true → s'.world.isCancelled run = true) : s'.Oversees t run := by
  cases ho with
  | watching ht hl ha => exact .watching (hk.run ht nofun) (hk.lifecycle.trans hl) (ha.keeps hk)
  | draining ht hl hcancel ha =>
    exact .draining (hk.run ht nofun) (hk.lifecycle.trans hl) (hc hcancel) (ha.keeps hk)
  | ended ht hl hcancel ha => exact .ended (hk.run ht nofun) (hk.lifecycle.trans hl) (hc hcancel) (ha.keeps hk)

theorem Serving.keeps (hs : s.Serving t base run) (h : s.Step o s') (hk : s.Keeps s') : s'.Serving t base run where
  started := hk.started.trans hs.started
  lone hv hu := (hk.runs hv).elim (fun hv => hs.lone hv hu) id
  token := Nat.lt_of_lt_of_le hs.token h.next_le
  manned i hi := by
    rw [(hk.frozen hs.started).1] at hi
    obtain ⟨w, hw, hr⟩ := hs.manned i hi
    obtain ⟨w', hw', hg⟩ := hk.worker hw
    exact ⟨w', hw', hg.route.trans hr⟩
  serves {u w'} hw' := by
    obtain ⟨w, hw, hg⟩ := hk.workers hw'
    obtain ⟨hu, hc, route, hr⟩ := hs.serves hw
    obtain ⟨hroutes, hstages⟩ := hk.frozen hs.started
    refine ⟨by rw [hg.route, hu], hg.context.trans hc, route, ?_, hg.name.trans hr.name, hg.topic.trans hr.topic,
      hg.handler.trans hr.handler, ?_⟩
    · rw [hg.route, hroutes, hr.listed]
    · rw [hg.stages, hr.stages, Router.pipeline, Router.pipeline, hstages]
  reads {u w'} hw' := by
    obtain ⟨w, hw, hg⟩ := hk.workers hw'
    obtain ⟨sub, hsub, htopic, htoken⟩ := hs.reads hw
    obtain ⟨sub', hsub', htopic', htoken', -⟩ := h.evolves.subscription hsub
    exact ⟨sub', by rw [hg.subscription, hsub'], by rw [htopic', htopic, hg.topic], by rw [htoken', htoken, hg.context]⟩
  distinct hw₁ hw₂ he := by
    obtain ⟨w₁, hw₁, hg₁⟩ := hk.workers hw₁
    obtain ⟨w₂, hw₂, hg₂⟩ := hk.workers hw₂
    exact hs.distinct hw₁ hw₂ (by rw [← hg₁.subscription, ← hg₂.subscription, he])
  oversees := hs.oversees.keeps hk h.cancelled

theorem Subscribing.keeps {made : List (Nat × Nat)} {rest : List Nat} (hs : s.Subscribing t run made rest)
    (h : s.Step o s') (hk : s.Keeps s')
    (hx : ∀ t b v, o = .turn t b → s.tasks[t]? = some (.run v) → s'.world.exchange = s.world.exchange) :
    s'.Subscribing t run made rest where
  started := hk.started.trans hs.started
  lifecycle := hk.lifecycle.trans hs.lifecycle
  owner := hk.run hs.owner nofun
  lone hv hu := (hk.runs hv).elim (fun hv => hs.lone hv hu) id
  unmanned {u w'} hw' := by
    obtain ⟨w, hw, -⟩ := hk.workers hw'
    exact hs.unmanned hw
  token := Nat.lt_of_lt_of_le hs.token h.next_le
  order := (hk.frozen hs.started).1 ▸ hs.order
  distinct := hs.distinct
  made m hm := by
    obtain ⟨route, sub, hr, hsub, htopic, htoken, htaken, hdropped⟩ := hs.made m hm
    have hfed : ∃ sub', s'.world.exchange.subscriptions[m.2]? = some sub' ∧ sub.Fed sub' := by
      by_cases hmover : ∃ t b v, o = .turn t b ∧ s.tasks[t]? = some (.run v)
      · obtain ⟨t', b, v, ho, hv⟩ := hmover
        exact ⟨sub, hx t' b v ho hv ▸ hsub, .refl sub⟩
      · -- Nobody reads a subscription yet but the supervisor, and it is not the one that moves.
        refine h.feeds hsub hs.owner ⟨m, hm, rfl⟩ fun t' b k ho hk hr => ?_
        cases k with
        | worker w => exact hs.unmanned hk
        | run v => exact hmover ⟨t', b, v, ho, hk⟩
        | close _ | awaitStart _ | call _ | errand _ _ _ | alarm _ _ _ => cases hr
    obtain ⟨sub', hsub', hf⟩ := hfed
    exact ⟨route, sub', (hk.frozen hs.started).1 ▸ hr, hsub', hf.topic.trans htopic, hf.token.trans htoken,
      hf.taken.trans htaken, hf.dropped.trans hdropped⟩

theorem Course.keeps (hc : s.Course) (h : s.Step o s') (hk : s.Keeps s')
    (hx : ∀ t b v, o = .turn t b → s.tasks[t]? = some (.run v) → s'.world.exchange = s.world.exchange) : s'.Course := by
  cases hc with
  | waiting hst hl hw hr =>
    refine .waiting (hk.started.trans hst) (hk.lifecycle.trans hl) (fun hw' => ?_) fun hv => (hk.runs hv).elim hr id
    obtain ⟨w, hw₀, -⟩ := hk.workers hw'
    exact hw hw₀
  | subscribing hs => exact .subscribing (hs.keeps h hk hx)
  | serving hs => exact .serving (hs.keeps h hk)
  | failed ho =>
    refine .failed ⟨hk.started.trans ho.started, fun hw' => ?_, fun hv => (hk.runs hv).elim ho.idle id, ?_⟩
    · obtain ⟨w, hw, -⟩ := hk.workers hw'
      exact ho.unmanned hw
    · rw [hk.lifecycle, Exchange.isOversized, h.evolves.capacity]
      exact ho.lifecycle

end State
end Relay
