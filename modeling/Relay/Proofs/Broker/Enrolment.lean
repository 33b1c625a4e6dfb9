import Relay.Proofs.Broker.Chain
import Relay.Proofs.Router.Reception

/-! Which routes a broker has. Handlers come to it through two doors, one for handlers of commands and one
    for handlers of events. The first lets in one handler for each topic; the second neither knows what came
    in through the first nor looks at what its own handlers are for. -/

namespace Relay

/-- Whether a binding is to a topic. -/
def Binding.isOn (topic : String) (b : Binding) : Bool := b.type.topic == topic

namespace Router
variable {r r' : Router} {bs cs vs : List Binding}

/-! ### One batch -/

theorem not_mem_of_lookup {bound : List (String × String)} {topic : String} (h : bound.lookup topic = none) :
    topic ∉ bound.map (·.1) := by
  induction bound with
  | nil => exact List.not_mem_nil
  | cons k bound ih =>
    rw [List.lookup_cons] at h
    split at h
    · cases h
    · rename_i hk
      rw [List.map_cons, List.mem_cons, not_or]
      exact ⟨fun he => by simp [he] at hk, ih h⟩

/-- Where there is no conflict, no topic of the batch is bound or comes twice. -/
theorem distinct_of_conflict {bound keys : List (String × String)} (h : conflict? bound keys = none) :
    (∀ t ∈ keys.map (·.1), t ∉ bound.map (·.1)) ∧ (keys.map (·.1)).Nodup := by
  induction keys generalizing bound with
  | nil => exact ⟨List.forall_mem_nil _, List.nodup_nil⟩
  | cons k keys ih =>
    rw [conflict?] at h
    split at h
    · cases h
    · rename_i hk
      obtain ⟨hbound, hnodup⟩ := ih h
      -- The rest of the batch meets the first key as one that is bound already.
      have hrest : ∀ t ∈ keys.map (·.1), t ≠ k.1 ∧ t ∉ bound.map (·.1) := fun t ht => by
        simpa using hbound t ht
      refine ⟨fun t ht => ?_, List.nodup_cons.mpr ⟨fun hk => (hrest _ hk).1 rfl, hnodup⟩⟩
      rcases List.mem_cons.mp ht with rfl | ht
      · exact not_mem_of_lookup hk
      · exact (hrest t ht).2

/-- The routes of a router are those of the handlers of commands and of events that it has taken, and it
    remembers the topics of the former, each of which is for one of them. -/
structure Enrolled (r : Router) (cs vs : List Binding) : Prop where
  routes : r.routes.Perm ((cs ++ vs).map (·.route))
  commands : r.commands = (cs.map key).reverse
  distinct : (cs.map (·.type.topic)).Nodup

namespace Enrolled

theorem start {stages : List Stage} {x : World} : (Broker.start stages x).router.Enrolled [] [] :=
  ⟨.nil, rfl, List.nodup_nil⟩

theorem topics (h : r.Enrolled cs vs) {topic : String} :
    topic ∈ r.commands.map (·.1) ↔ topic ∈ cs.map (·.type.topic) := by
  simp [h.commands, key]

theorem commands_added (h : r.Enrolled cs vs) (hr : r.addCommands bs = .ok r') : r'.Enrolled (cs ++ bs) vs := by
  obtain ⟨-, hc, rfl⟩ := State.addCommands_ok hr
  obtain ⟨hbound, hnodup⟩ := distinct_of_conflict hc
  have hkeys : (bs.map key).map (·.1) = bs.map (·.type.topic) := by simp [key]
  rw [hkeys] at hbound hnodup
  refine ⟨?_, by simp [h.commands], ?_⟩
  · have hmoved : ((cs ++ vs).map (·.route) ++ bs.map (·.route)).Perm ((cs ++ bs ++ vs).map (·.route)) := by
      rw [← List.map_append, List.append_assoc, List.append_assoc]
      exact (List.perm_append_comm.append_left cs).map _
    exact (h.routes.append_right _).trans hmoved
  · rw [List.map_append, List.nodup_append]
    exact ⟨h.distinct, hnodup, fun t ht u hu he => hbound u hu (h.topics.mpr (he ▸ ht))⟩

theorem events_added (h : r.Enrolled cs vs) (hr : r.addEvents bs = .ok r') : r'.Enrolled cs (vs ++ bs) := by
  obtain ⟨-, rfl⟩ := State.addEvents_ok hr
  refine ⟨?_, h.commands, h.distinct⟩
  rw [← List.append_assoc, List.map_append]
  exact h.routes.append_right _

theorem keeps (h : r.Enrolled cs vs) (hr : r'.routes = r.routes) (hc : r'.commands = r.commands) :
    r'.Enrolled cs vs :=
  ⟨hr ▸ h.routes, hc.trans h.commands, h.distinct⟩

/-- The handlers of one topic. -/
theorem count (h : r.Enrolled cs vs) (topic : String) :
    r.routes.countP (Route.isOn topic) = cs.countP (Binding.isOn topic) + vs.countP (Binding.isOn topic) := by
  rw [h.routes.countP_eq, List.countP_map, List.countP_append]
  rfl

theorem count_le_one (h : r.Enrolled cs vs) (topic : String) : cs.countP (Binding.isOn topic) ≤ 1 := by
  have := List.nodup_iff_count.mp h.distinct topic
  rw [List.count, List.countP_map] at this
  exact this

end Enrolled
end Router

namespace State
variable {s s' : State} {o : Op} {os : List Op} {cs vs : List Binding} {stages : List Stage} {x : World}

/-! ### All batches -/

/-- Whether handlers come only through the two doors. -/
def Op.Enrols : Op → Prop
  | .addRoutes _ => False
  | _ => True

instance Op.decidableEnrols : (o : Op) → Decidable o.Enrols
  | .addRoutes _ => .isFalse id
  | .addStage _ | .addHandlers .. | .token | .derive _ | .cancel _ | .run _ | .close | .awaitStart | .abandon _
  | .publish .. | .send .. | .call .. | .alarm .. | .subscribe .. | .poll _ | .drop _ | .closeExchange | .tick _
  | .turn .. => .isTrue trivial

/-- The handlers that are taken through a door. -/
def takes (s : State) (door : Role) : Op → List Binding
  | .addHandlers role c bs => if role = door ∧ (s.addHandlers role c bs).1.isNone then bs else []
  | _ => []

/-- The handlers that are taken through a door one after the other. -/
def taken (s : State) (door : Role) : List Op → List Binding
  | [] => []
  | o :: os => s.takes door o ++ (s.apply o).taken door os

/-- What is added to a router, if anything is. -/
def Op.added? (r : Router) : Op → Option (Except RegistrationError Router)
  | .addRoutes rs => some (r.addRoutes rs)
  | .addHandlers role _ bs => some <| r.admit role bs
  | _ => none

/-- Nothing else changes which handlers there are. -/
theorem apply_router (ho : o.added? s.router = none) :
    (s.apply o).router.routes = s.router.routes ∧ (s.apply o).router.commands = s.router.commands ∧
      (s.apply o).router.events = s.router.events := by
  cases o with
  | addRoutes _ | addHandlers _ _ _ => cases ho
  | addStage g =>
    simp only [apply, Router.addStage]
    split <;> exact ⟨rfl, rfl, rfl⟩
  | turn t b =>
    show (s.micro t b).router.routes = _ ∧ (s.micro t b).router.commands = _ ∧ (s.micro t b).router.events = _
    cases ht : s.tasks[t]? with
    | none => simp [micro, ht]
    | some k =>
      obtain ⟨x, r, new, k', hm, he⟩ := micro_moves b ht
      rw [he]
      exact ⟨hm.router.2, hm.bindings⟩
  | abandon t | subscribe t topic =>
    simp only [apply]
    split <;> exact ⟨rfl, rfl, rfl⟩
  | send v c =>
    simp only [apply]
    split <;> exact ⟨rfl, rfl, rfl⟩
  | token | derive _ | cancel _ | run _ | close | awaitStart | publish _ _ | call _ _ _ _ | alarm _ _ | poll _ | drop _
  | closeExchange | tick _ => exact ⟨rfl, rfl, rfl⟩

theorem takes_of_not_added {door : Role} (ho : o.added? s.router = none) : s.takes door o = [] := by
  cases o with
  | addHandlers _ _ _ => cases ho
  | _ => rfl

theorem Enrolled.apply (h : s.router.Enrolled cs vs) (hk : o.Enrols) :
    (s.apply o).router.Enrolled (cs ++ s.takes .command o) (vs ++ s.takes .event o) := by
  by_cases hh : ∃ role c bs, o = .addHandlers role c bs
  · obtain ⟨role, c, bs, rfl⟩ := hh
    show (s.addHandlers role c bs).2.router.Enrolled _ _
    rcases s.addHandlers_cases role c bs with ⟨r, hr, he⟩ | ⟨e, -, he | ⟨id, he⟩⟩
    · cases role with
      | command => simpa [takes, he, withRouter] using h.commands_added hr
      | event => simpa [takes, he, withRouter] using h.events_added hr
    · simpa [takes, he] using h
    · simpa [takes, he, note] using h
  · have hadded : o.added? s.router = none := by
      cases o with
      | addRoutes _ => exact hk.elim
      | addHandlers role c bs => exact absurd ⟨role, c, bs, rfl⟩ hh
      | _ => rfl
    obtain ⟨hr, hc, -⟩ := apply_router hadded
    rw [takes_of_not_added hadded, takes_of_not_added hadded, List.append_nil, List.append_nil]
    exact h.keeps hr hc

theorem Enrolled.replay (h : s.router.Enrolled cs vs) (hk : ∀ o ∈ os, o.Enrols) (hr : s.replay os = some s') :
    s'.router.Enrolled (cs ++ s.taken .command os) (vs ++ s.taken .event os) := by
  induction os generalizing s cs vs with
  | nil =>
    cases hr
    simpa [taken] using h
  | cons o os ih =>
    rw [State.replay] at hr
    split at hr
    · have := ih (Enrolled.apply h (hk o List.mem_cons_self)) (fun o' ho => hk o' (List.mem_cons_of_mem _ ho)) hr
      rwa [List.append_assoc, List.append_assoc] at this
    · cases hr

/-! ### The result -/

/-- Single consumer, as far as it goes. The routes of a broker are those of all handlers that it has
    taken, and of those that came through the door for commands no two are for one topic. So a topic that a
    handler of commands was taken for has exactly one route if no handler for it came through the door for
    events, or if that handler itself came this way and is alone; in all other cases it has more. When the
    router runs, what is sent comes to as many workers as its topic has routes. -/
theorem single_consumer (hk : ∀ o ∈ os, o.Enrols) (h : (Broker.start stages x).replay os = some s) :
    let cs := (Broker.start stages x).taken .command os
    let vs := (Broker.start stages x).taken .event os
    s.router.routes.Perm ((cs ++ vs).map (·.route)) ∧
    (∀ topic, cs.countP (Binding.isOn topic) ≤ 1) ∧
    (∀ b ∈ cs ++ vs, b.role = .command → (s.router.routes.countP (Route.isOn b.type.topic) = 1 ↔
      vs.countP (Binding.isOn b.type.topic) = 0 ∨
        cs.countP (Binding.isOn b.type.topic) = 0 ∧ vs.countP (Binding.isOn b.type.topic) = 1)) ∧
    ((Broker.start stages x).IsNew → s.router.lifecycle = .running → ∀ (p : Nat) (q : Publication),
      s.world.exchange.publications[p]? = some q → q.progress = .fresh → q.batch ≠ [] →
      ∀ s', Runs (fun _ => True) s s' → s'.Undisturbed → s'.world.exchange.returned? p = some none →
        s'.tasks.countP (s'.gets p) = s.router.routes.countP (Route.isOn q.topic)) := by
  intro cs vs
  have he : s.router.Enrolled cs vs := Enrolled.replay .start hk h
  refine ⟨he.routes, he.count_le_one, fun b hb _ => ?_, fun hn hl p q hq hf hne s' h' hu hr => ?_⟩
  · have hone := he.count_le_one b.type.topic
    have hsum := he.count b.type.topic
    have hpos : 0 < cs.countP (Binding.isOn b.type.topic) + vs.countP (Binding.isOn b.type.topic) := by
      rw [← List.countP_append]
      exact List.countP_pos_iff.mpr ⟨b, hb, beq_self_eq_true _⟩
    omega
  · have hruns : Runs (fun _ => True) (Broker.start stages x) s := Runs.refl.replay (fun _ _ => trivial) h
    exact (reception hn hruns.reachable hl hq hf h' hu hr).2 hne

/-- A handler that does nothing with what it is given. -/
def quiet (role : Role) (name : String) : Binding := ⟨role, Broker.flag, name, fun _ _ _ => .finish .ok⟩

/-- A broker gets a handler of commands and refuses a second one for the same topic; it is run, and a
    command is about to be sent. -/
def enrollingOne : List Op :=
  [Op.addHandlers .command { token := 0 } [quiet .command "do"],
    .addHandlers .command { token := 0 } [quiet .command "redo"], .token, .run { token := 0 }] ++
  List.replicate 3 (Op.turn 0 .shutdown) ++ [Op.send ⟨.command, "flag", .ok [1]⟩ { token := 0 }, .turn 2 .shutdown]

def enrolledOne : State := (Broker.sample.replay enrollingOne).getD Broker.sample

def servedOne : State := (enrolledOne.replay (List.replicate 7 (.turn 2 .shutdown))).getD enrolledOne

theorem single_consumer_of_one : Broker.sample.replay enrollingOne = some enrolledOne ∧
    Runs (fun _ => True) enrolledOne servedOne ∧ servedOne.Undisturbed ∧
    servedOne.world.exchange.returned? 0 = some none ∧
    enrolledOne.router.routes.countP (Route.isOn "flag") = 1 ∧ servedOne.tasks.countP (servedOne.gets 0) = 1 := by
  have h : Broker.sample.replay enrollingOne = some enrolledOne := rfl
  have h' : Runs (fun _ => True) enrolledOne servedOne :=
    Runs.refl.replay (fun _ _ => trivial)
      (show enrolledOne.replay (List.replicate 7 (.turn 2 .shutdown)) = some servedOne from rfl)
  have hu : servedOne.Undisturbed := .of_every rfl rfl rfl
  obtain ⟨-, -, hroutes, hsent⟩ := single_consumer (by decide) h
  have hone : enrolledOne.router.routes.countP (Route.isOn "flag") = 1 :=
    (hroutes (quiet .command "do") List.mem_cons_self rfl).mpr (.inl rfl)
  refine ⟨h, h', hu, rfl, hone, ?_⟩
  have hn : Broker.sample.IsNew := ⟨rfl, rfl, rfl, rfl, rfl, rfl⟩
  exact (hsent hn rfl 0 _ rfl rfl (List.cons_ne_nil _ _) servedOne h' hu rfl).trans hone

/-- A broker gets a handler of commands and, through the other door, one of events of the same type. A
    command comes to both. -/
def enrollingTwo : List Op :=
  [Op.addHandlers .command { token := 0 } [quiet .command "do"],
    .addHandlers .event { token := 0 } [quiet .event "note"], .token, .run { token := 0 }] ++
  List.replicate 4 (Op.turn 0 .shutdown) ++ [Op.send ⟨.command, "flag", .ok [1]⟩ { token := 0 }] ++
  List.replicate 9 (Op.turn 3 .shutdown) ++ List.replicate 14 (Op.turn 1 .shutdown) ++ List.replicate 14 (Op.turn 2 .shutdown)

def servedTogether : State := (Broker.sample.replay enrollingTwo).getD Broker.sample

theorem two_consumers : (∀ o ∈ enrollingTwo, o.Enrols) ∧ Broker.sample.replay enrollingTwo = some servedTogether ∧
    (Broker.sample.taken .command enrollingTwo).map (fun b => (b.role, b.type.topic)) = [(.command, "flag")] ∧
    servedTogether.router.routes.countP (Route.isOn "flag") = 2 ∧ servedTogether.isSettled = true ∧
    servedTogether.tasks.countP (servedTogether.gets 0) = 2 ∧
    (servedTogether.world.handled 1).map (·.payload) = [[1]] ∧
    (servedTogether.world.handled 2).map (·.payload) = [[1]] :=
  ⟨by decide, rfl, rfl, rfl, rfl, rfl, rfl, rfl⟩

end State
end Relay
