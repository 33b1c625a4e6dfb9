import Relay.Broker
import Relay.Proofs.Call.Place
import Relay.Proofs.Isolation.Identifiers
import Relay.Proofs.Router.Supervisor

/-! A broker with nothing but its own stages. Every message of every worker passes the same stages, then
    the dispatch stage of its handler if that handles values, and nothing else. -/

namespace Relay

/-- What may be done to a broker: it takes handlers, but no stages of the user's own, and messages come to
    its handlers through their topics only. -/
def State.Op.OfBroker : State.Op → Prop
  | .addStage _ | .call .. => False
  | .addRoutes rs => ∀ r ∈ rs, r.stages.isEmpty = true
  | _ => True

instance State.Op.decidableOfBroker : (o : State.Op) → Decidable o.OfBroker
  | .addStage _ | .call .. => .isFalse id
  | .addRoutes rs => inferInstanceAs (Decidable (∀ r ∈ rs, r.stages.isEmpty = true))
  | .addHandlers .. | .token | .derive _ | .cancel _ | .run _ | .close | .awaitStart | .abandon _ | .publish ..
  | .send .. | .alarm .. | .subscribe .. | .poll _ | .drop _ | .closeExchange | .tick _ | .turn .. => .isTrue trivial

theorem State.Op.OfBroker.ofRouter {o : State.Op} (h : o.OfBroker) : o.OfRouter := by
  cases o with
  | call _ _ _ _ => exact h
  | _ => trivial

namespace Broker

/-- The stages that a message passes on its way to a handler of values. -/
def chain (p : RetryPolicy) (role : Role) (handler : String) : List Stage := defaultStages p ++ [.dispatch role handler]

/-- The place of a stage in a chain. -/
def place : Stage → Nat
  | .recoverer => 0
  | .correlation => 1
  | .propagation => 2
  | .retry _ => retryPlace
  | .filter _ | .dispatch _ _ => 4

theorem place_of_chain {p : RetryPolicy} {role : Role} {handler : String} {n : Nat} {g : Stage}
    (h : (chain p role handler)[n]? = some g) : n = place g := by
  have hl : n < 5 := (List.getElem?_eq_some_iff.mp h).1
  match n, hl with
  | 0, _ | 1, _ | 2, _ | 3, _ | 4, _ =>
    cases h
    rfl

/-- A broker with nothing in its world, and a type of values, to try things on. -/
def sample : State := start (defaultStages {}) (.start ⟨fun _ => .mask, 0⟩ (some 4))

def flag : PayloadType := ⟨"flag", "Flag", fun _ => .ok [1], fun _ => .ok (.flag true)⟩

end Broker

/-- A stage that has been entered has as many stages of a chain around it. -/
def Frame.InPlace (depth : Nat) : Frame → Prop
  | .guard _ _ => depth = 0
  | .plain => depth = 1 ∨ depth = 2
  | .retry _ _ _ _ _ => depth = 3
  | .dispatch _ _ _ => depth = 4
  | .filter _ => False

namespace Entered
variable {tok : Token} {p : RetryPolicy} {role : Role} {handler : String} {fs outer : List Frame} {f : Frame}
  {rest : List Stage} {g : Stage}

theorem length_chain (h : Entered tok (Broker.chain p role handler) fs []) : fs.length = 5 := h.length

theorem place (h : Entered tok (Broker.chain p role handler) fs (g :: rest)) : fs.length = Broker.place g :=
  Broker.place_of_chain h.stage

theorem inPlace (h : Entered tok (Broker.chain p role handler) (f :: outer) rest) : f.InPlace outer.length := by
  cases h with
  | guard h | retry h _ | dispatch h => exact h.place
  | correlation h => exact .inl h.place
  | propagation h => exact .inr h.place

end Entered

namespace Broker
variable {p : RetryPolicy} {stages : List Stage}

/-- The stages of a worker of a broker with nothing but its own stages. -/
def IsChain (p : RetryPolicy) (stages : List Stage) : Prop :=
  stages = defaultStages p ∨ ∃ role handler, stages = chain p role handler

theorem IsChain.place {tok : Token} {fs : List Frame} {g : Stage} {rest : List Stage} (h : IsChain p stages)
    (he : Entered tok stages fs (g :: rest)) : fs.length = Broker.place g := by
  rcases h with rfl | ⟨role, handler, rfl⟩
  · have hl := (List.getElem?_eq_some_iff.mp he.stage).1
    have hs : (chain p .command "")[fs.length]? = some g := (List.getElem?_append_left hl).trans he.stage
    exact place_of_chain hs
  · exact he.place

theorem IsChain.length (h : IsChain p stages) : 4 ≤ stages.length := by
  rcases h with rfl | ⟨role, handler, rfl⟩ <;> simp [defaultStages, chain]

theorem IsChain.not_filter (h : IsChain p stages) (f : Filter) : .filter f ∉ stages := by
  rcases h with rfl | ⟨role, handler, rfl⟩ <;> simp [defaultStages, chain]

end Broker

namespace Call.Stands
variable {tok : Token} {p : RetryPolicy} {role : Role} {handler : String} {c : Call} {f : Frame} {outer : List Frame}

theorem leaving_outer {o : Outcome} (h : c.Stands tok (Broker.chain p role handler)) (hp : c.phase = .leaving o)
    (hf : c.frames = f :: outer) : f.InPlace outer.length := by
  obtain ⟨rest, he⟩ := h.leaving hp
  rw [hf] at he
  exact he.inPlace

theorem backoff_outer {t : Timer} {e : Error} (h : c.Stands tok (Broker.chain p role handler))
    (hp : c.phase = .backoff t e) (hf : c.frames = f :: outer) : outer.length = 3 := by
  obtain ⟨_, _, _, _, _, _, hf', he⟩ := h.backoff hp
  rw [hf] at hf'
  cases hf'
  rw [hf] at he
  exact he.inPlace

end Call.Stands

namespace State
variable {p : RetryPolicy} {s s' : State} {o : Op} {t : Nat}

/-- The router of a broker has the broker's stages, and routes with a dispatch stage or without stages. -/
structure Chained (p : RetryPolicy) (s : State) : Prop where
  stages : s.router.stages = Broker.defaultStages p
  routes : ∀ r ∈ s.router.routes, r.stages = [] ∨ ∃ role handler, r.stages = [.dispatch role handler]

theorem Chained.step (hi : s.Chained p) (hk : o.OfBroker) (h : s.Step o s') : s'.Chained p := by
  rcases h.router with ⟨hs, hr⟩ | hg
  · exact ⟨hs ▸ hi.stages, hr ▸ hi.routes⟩
  · have hadds : o.adds.1 = [] ∧
        ∀ r ∈ o.adds.2, r.stages = [] ∨ ∃ role handler, r.stages = [.dispatch role handler] := by
      cases o with
      | addHandlers role c bs =>
        refine ⟨rfl, fun r hr => ?_⟩
        obtain ⟨b, -, rfl⟩ := List.mem_map.mp hr
        exact .inr ⟨b.role, b.name, rfl⟩
      | addRoutes rs => exact ⟨rfl, fun r hr => .inl (List.isEmpty_iff.mp (hk r hr))⟩
      | addStage _ | call _ _ _ _ => exact hk.elim
      | token | derive _ | cancel _ | run _ | close | awaitStart | abandon _ | publish _ _ | send _ _ | alarm _ _
      | subscribe _ _ | poll _ | drop _ | closeExchange | tick _ | turn _ _ => exact ⟨rfl, fun _ hr => (nomatch hr)⟩
    refine ⟨by rw [hg.stages, hadds.1, List.append_nil, hi.stages], fun r hr => ?_⟩
    rw [hg.routes] at hr
    exact (List.mem_append.mp hr).elim (hi.routes r) (hadds.2 r)

theorem Chained.stages_of_worker {w : Worker} (hi : s.Chained p) (hc : s.Course)
    (hw : s.tasks[t]? = some (.worker w)) : Broker.IsChain p w.stages := by
  obtain ⟨t₀, base, run, hs⟩ := hc.serving_of_worker hw
  obtain ⟨-, -, route, hr⟩ := hs.serves hw
  rw [hr.stages, Router.pipeline, hi.stages]
  rcases hi.routes route (List.mem_of_getElem? hr.listed) with he | ⟨role, handler, he⟩
  · exact .inl (by rw [he, List.append_nil])
  · exact .inr ⟨role, handler, by rw [he, Broker.chain]⟩

theorem Chained.not_filter {w : Worker} (hi : s.Chained p) (hc : s.Course) (hw : s.tasks[t]? = some (.worker w))
    (f : Filter) : .filter f ∉ w.stages :=
  (hi.stages_of_worker hc hw).not_filter f

/-- The calls of workers are on the way through the stages of the worker, and those of others are no more
    than programs. -/
structure Placed (s : State) : Prop where
  calls : ∀ {t : Nat} {w : Worker} {m : Message} {c : Call}, s.tasks[t]? = some (.worker w) →
    w.occupation = .busy m c → c.Stands w.context.token w.stages ∧ c.handler = some w.handler
  programs : ∀ {t : Nat} {c : Call}, s.tasks[t]? = some (.call c) → c.IsProgram
  errands : ∀ {t : Nat} {e : Errand} {c : Call} {o : Option Outcome}, s.tasks[t]? = some (.errand e c o) → c.IsProgram

theorem Placed.others (hp : s.Placed) : s.Programs := ⟨hp.programs, hp.errands⟩

/-- What the call of a worker is after a step of the worker. -/
theorem Placed.moves {x x' : World} {w w' : Worker} {m : Message} {c : Call} (hm : w.Moves t x x' w')
    (hn : ∀ f, .filter f ∉ w.stages)
    (hc : ∀ {m : Message} {c : Call}, w.occupation = .busy m c →
      c.Stands w.context.token w.stages ∧ c.handler = some w.handler)
    (ho : w'.occupation = .busy m c) : c.Stands w'.context.token w'.stages ∧ c.handler = some w'.handler := by
  cases hm with
  | stays => exact hc ho
  | takes _ _ _ _ =>
    cases ho
    exact ⟨Call.start_stands, rfl⟩
  | works ho' _ hm =>
    cases ho
    exact ⟨hm.stands (hc ho').1 hn, hm.same.1.trans (hc ho').2⟩
  | stops _ _ | succeeds _ _ | fails _ _ _ | breaksOff _ _ => cases ho

theorem Placed.step (hp : s.Placed) (hi : s.Chained p) (hcourse : s.Course) (hk : o.OfBroker) (h : s.Step o s') :
    s'.Placed := by
  have hprograms := hp.others.step hk.ofRouter h
  refine ⟨fun {t w' m c} hw' ho => ?_, hprograms.calls, hprograms.errands⟩
  rcases h.worker_from hw' with ⟨b, w, -, hw, hm⟩ | ⟨-, hw | ⟨_, _, _, _, _, _, -, -, -, -, hidle⟩⟩
  · exact Placed.moves hm (hi.not_filter hcourse hw) (hp.calls hw) ho
  · exact hp.calls hw ho
  · rw [hidle] at ho
    cases ho

/-- What holds of a broker at any time. -/
structure Orderly (p : RetryPolicy) (s : State) : Prop where
  chained : s.Chained p
  placed : s.Placed
  course : s.Course
  locked : s.Locked

theorem Orderly.start (p : RetryPolicy) (x : World) : (Broker.start (Broker.defaultStages p) x).Orderly p := by
  have ht : (Broker.start (Broker.defaultStages p) x).tasks = [] := rfl
  refine ⟨⟨rfl, fun r hr => ?_⟩, ⟨?_, ?_, ?_⟩, .waiting rfl rfl ?_ ?_, ?_⟩
  · cases hr
  all_goals simp [Locked, ht]

theorem Orderly.step (hi : s.Orderly p) (hk : o.OfBroker) (h : s.Step o s') : s'.Orderly p where
  chained := hi.chained.step hk h
  placed := hi.placed.step hi.chained hi.course hk h
  course := hi.course.step h
  locked := h.locked hi.locked

end State
end Relay
