import Relay.Proofs.Broker.Enrolment
import Relay.Proofs.Router.Lifecycle
import Mathlib.Data.List.Nodup
import Mathlib.Data.String.Basic

/-! What a router remembers of the batches that it was given. Routes come to it directly, or as handlers of
    commands and of events; three lists keep them, and no batch ever gets into one of the lists in part, or into
    one of them and not into the others (`State.registration`). -/

namespace Relay

/-- The first of a batch whose key is that of an old one or of an earlier one of the batch, and those before it. -/
structure Repeats {α : Type} (key : α → String) (old batch ahead : List α) (a : α) : Prop where
  split : ∃ rest, batch = ahead ++ a :: rest
  distinct : ((old ++ ahead).map key).Nodup
  again : key a ∈ (old ++ ahead).map key

theorem Repeats.perm {α : Type} {key : α → String} {old old' batch ahead : List α} {a : α}
    (h : Repeats key old batch ahead a) (hp : old.Perm old') : Repeats key old' batch ahead a :=
  ⟨h.split, (((hp.append_right ahead).map key).nodup_iff).mp h.distinct,
    ((hp.append_right ahead).map key).mem_iff.mp h.again⟩

theorem Repeats.of_map {α β : Type} {f : α → β} {key : β → String} {old batch : List α} {ahead : List β} {b : β}
    (h : Repeats key (old.map f) (batch.map f) ahead b) :
    ∃ ahead' a, ahead = ahead'.map f ∧ b = f a ∧ Repeats (key ∘ f) old batch ahead' a := by
  obtain ⟨⟨rest, hsplit⟩, hd, ha⟩ := h
  obtain ⟨ahead', tail, rfl, rfl, htail⟩ := List.map_eq_append_iff.mp hsplit
  obtain ⟨a, rest', rfl, rfl, -⟩ := List.map_eq_cons_iff.mp htail
  rw [← List.map_append, List.map_map] at hd ha
  exact ⟨ahead', a, rfl, rfl, ⟨rest', rfl⟩, hd, ha⟩

theorem nodup_eraseDups (l : List String) : l.eraseDups.Nodup := by
  cases l with
  | nil => simp
  | cons a l =>
    rw [List.eraseDups_cons, List.nodup_cons, List.mem_eraseDups]
    exact ⟨by simp, nodup_eraseDups (l.filter fun b => !b == a)⟩
termination_by l.length
decreasing_by exact Nat.lt_succ_of_le (List.length_filter_le _ l)

theorem pairwise_lt_mergeSort {l : List String} (h : l.Nodup) : (l.mergeSort (· ≤ ·)).Pairwise (· < ·) := by
  have hle : (l.mergeSort (· ≤ ·)).Pairwise fun a b => decide (a ≤ b) = true :=
    List.pairwise_mergeSort (fun a b c hab hbc => by simp only [decide_eq_true_eq] at *; exact hab.trans hbc)
      (fun a b => by simpa using le_total a b) l
  have hne : (l.mergeSort (· ≤ ·)).Nodup := ((List.mergeSort_perm l _).nodup_iff).mpr h
  exact hle.imp₂ (fun a b hab hne => lt_of_le_of_ne (by simpa using hab) hne) hne

namespace Router
variable {r r' : Router} {rs : List Route} {bs cs vs : List Binding} {bound keys : List (String × String)}

/-! ### What is found in a batch -/

/-- Where there is a conflict, it is with the first key that repeats one, and this one is named. -/
theorem conflict?_cases (hd : (bound.map (·.1)).Nodup) :
    (conflict? bound keys = none ∧ ((bound ++ keys).map (·.1)).Nodup) ∨
      ∃ ahead k existing, Repeats (·.1) bound keys ahead k ∧ conflict? bound keys = some (k.1, existing) ∧
        (k.1, existing) ∈ bound ++ ahead := by
  induction keys generalizing bound with
  | nil => exact .inl ⟨rfl, by simpa using hd⟩
  | cons k keys ih =>
    cases hk : bound.lookup k.1 with
    | some existing =>
      have hmem : (k.1, existing) ∈ bound := by
        obtain ⟨l, l', rfl, -⟩ := List.lookup_eq_some_iff.mp hk
        simp
      refine .inr ⟨[], k, existing, ⟨⟨keys, rfl⟩, by simpa using hd, ?_⟩, by simp [conflict?, hk], by simpa using hmem⟩
      simpa using ⟨existing, hmem⟩
    | none =>
      -- The rest of the batch meets this key in front of the bound ones; but the order of these is all the same.
      have hmoved : ∀ l : List (String × String), (k :: bound ++ l).Perm (bound ++ k :: l) :=
        fun l => List.perm_middle.symm
      have hfresh : ((k :: bound).map (·.1)).Nodup := List.nodup_cons.mpr ⟨not_mem_of_lookup hk, hd⟩
      have hstep : conflict? bound (k :: keys) = conflict? (k :: bound) keys := by simp [conflict?, hk]
      rw [hstep]
      rcases ih hfresh with ⟨hnone, hnodup⟩ | ⟨ahead, k', existing, ⟨⟨rest, hsplit⟩, hdist, hagain⟩, hsome, hmem⟩
      · exact .inl ⟨hnone, (((hmoved keys).map _).nodup_iff).mp hnodup⟩
      · have hahead := hmoved ahead
        refine .inr ⟨k :: ahead, k', existing, ⟨⟨rest, by rw [hsplit]; rfl⟩, ((hahead.map _).nodup_iff).mp hdist,
          (hahead.map _).mem_iff.mp hagain⟩, hsome, hahead.mem_iff.mp hmem⟩

theorem duplicate?_eq (bound keys : List (String × String)) :
    duplicate? (bound.map (·.1)) (keys.map (·.1)) = (conflict? bound keys).map (·.1) := by
  induction keys generalizing bound with
  | nil => rfl
  | cons k keys ih =>
    rw [List.map_cons, duplicate?, conflict?]
    cases hk : bound.lookup k.1 with
    | some existing =>
      obtain ⟨l, l', rfl, -⟩ := List.lookup_eq_some_iff.mp hk
      simp
    | none =>
      rw [if_neg (not_mem_of_lookup hk)]
      exact ih (k :: bound)

/-- What becomes of a batch of routes, where `full` is the router with all of them. -/
inductive Judged (r : Router) (begun : Prop) (rs : List Route) (full : Router) :
    Except RegistrationError Router → Prop
  | late : begun → Judged r begun rs full (.error .running)
  | repeats {ahead : List Route} {a : Route} : ¬begun → Repeats (·.name) r.routes rs ahead a →
      Judged r begun rs full (.error (.duplicateName a.name))
  | added : ¬begun → ((r.routes ++ rs).map (·.name)).Nodup → Judged r begun rs full (.ok full)

/-- What becomes of a batch of handlers of commands, where `cs` are those that there are. -/
inductive JudgedCommands (r : Router) (begun : Prop) (cs bs : List Binding) (full : Router) :
    Except RegistrationError Router → Prop
  | bound {ahead : List Binding} {b e : Binding} : ¬begun → Repeats (·.type.topic) cs bs ahead b → e ∈ cs ++ ahead →
      e.type.topic = b.type.topic → JudgedCommands r begun cs bs full (.error (.duplicateCommand b.type.topic e.name))
  | judged {x : Except RegistrationError Router} : (¬begun → ((cs ++ bs).map (·.type.topic)).Nodup) →
      r.Judged begun (bs.map (·.route)) full x → JudgedCommands r begun cs bs full x

/-! ### What becomes of a batch -/

theorem addRoutes_judged (hd : (r.routes.map (·.name)).Nodup) :
    r.Judged (r.started = true) rs { r with routes := r.routes ++ rs } (r.addRoutes rs) := by
  unfold addRoutes
  split
  · exact .late ‹_›
  · rename_i hst
    let f : Route → String × String := fun a => (a.name, a.name)
    have hf : ∀ l : List Route, (l.map f).map (·.1) = l.map (·.name) := fun l => by simp [f]
    rw [← hf r.routes, ← hf rs, duplicate?_eq]
    have hnames : ((r.routes.map f).map (·.1)).Nodup := by rwa [hf]
    rcases conflict?_cases hnames with ⟨hnone, hnodup⟩ | ⟨ahead, k, existing, hrep, hsome, -⟩
    · rw [hnone]
      rw [← List.map_append, hf] at hnodup
      exact .added hst hnodup
    · rw [hsome]
      obtain ⟨ahead', a, rfl, rfl, hrep'⟩ := hrep.of_map
      exact .repeats hst hrep'

theorem Judged.map {begun : Prop} {full : Router} {x : Except RegistrationError Router} (f : Router → Router)
    (h : r.Judged begun rs full x) : r.Judged begun rs (f full) (x.map f) := by
  cases h with
  | late hb => exact .late hb
  | repeats hb hr => exact .repeats hb hr
  | added hb hd => exact .added hb hd

theorem addEvents_judged (hd : (r.routes.map (·.name)).Nodup) :
    r.Judged (r.started = true) (bs.map (·.route)) { r with
      routes := r.routes ++ bs.map (·.route), events := (bs.map key).reverse ++ r.events } (r.addEvents bs) :=
  (addRoutes_judged hd).map fun r => { r with events := (bs.map key).reverse ++ r.events }

theorem map_fst_key (bs : List Binding) : (bs.map key).map (·.1) = bs.map (·.type.topic) := by
  simp [key]

theorem addCommands_judged (hd : (r.routes.map (·.name)).Nodup) (hc : r.commands = (cs.map key).reverse)
    (ht : (cs.map (·.type.topic)).Nodup) :
    r.JudgedCommands (r.started = true) cs bs { r with
      routes := r.routes ++ bs.map (·.route), commands := (bs.map key).reverse ++ r.commands } (r.addCommands bs) := by
  unfold addCommands
  split
  · rename_i hst
    exact .judged (fun h => absurd hst h) (.late hst)
  · rename_i hst
    have hbound : (cs.map key).Perm r.commands := by
      rw [hc]
      exact (List.reverse_perm _).symm
    have hkeys : (r.commands.map (·.1)).Nodup := ((hbound.map _).nodup_iff).mp (by rwa [map_fst_key])
    rcases conflict?_cases hkeys with ⟨hnone, hnodup⟩ | ⟨ahead, k, existing, hrep, hsome, hmem⟩
    · rw [hnone]
      refine .judged (fun _ => ?_)
        ((addRoutes_judged hd).map fun r => { r with commands := (bs.map key).reverse ++ r.commands })
      have := (((hbound.append_right (bs.map key)).map _).nodup_iff).mpr hnodup
      rwa [← List.map_append, map_fst_key] at this
    · rw [hsome]
      obtain ⟨ahead', b, rfl, rfl, hrep'⟩ := (hrep.perm hbound.symm).of_map
      have hmem' := (hbound.append_right _).mem_iff.mpr hmem
      rw [← List.map_append] at hmem'
      obtain ⟨e, he, hkey⟩ := List.mem_map.mp hmem'
      obtain ⟨htopic, rfl⟩ := Prod.ext_iff.mp hkey
      exact .bound hst hrep' he htopic

/-! ### What a router remembers -/

/-- The lists of a router that has taken these handlers of commands and of events. -/
structure Remembers (r : Router) (cs vs : List Binding) : Prop where
  names : (r.routes.map (·.name)).Nodup
  routed : ∀ b ∈ cs ++ vs, b.route ∈ r.routes
  commands : r.commands = (cs.map key).reverse
  events : r.events = (vs.map key).reverse
  distinct : (cs.map (·.type.topic)).Nodup

namespace Remembers

theorem routes_added (h : r.Remembers cs vs) (hr : r.addRoutes rs = .ok r') : r'.Remembers cs vs := by
  have hj : r.Judged (r.started = true) rs _ (r.addRoutes rs) := addRoutes_judged h.names
  rw [hr] at hj
  cases hj with
  | added _ hd => exact ⟨hd, fun b hb => List.mem_append_left _ (h.routed b hb), h.commands, h.events, h.distinct⟩

theorem commands_added (h : r.Remembers cs vs) (hr : r.addCommands bs = .ok r') : r'.Remembers (cs ++ bs) vs := by
  have hj : r.JudgedCommands (r.started = true) cs bs _ (r.addCommands bs) :=
    addCommands_judged h.names h.commands h.distinct
  rw [hr] at hj
  cases hj with
  | judged ht hj =>
    cases hj with
    | added hst hd =>
      refine ⟨hd, fun b hb => ?_, by simp [h.commands], h.events, ht hst⟩
      have hb' : b ∈ cs ++ vs ∨ b ∈ bs := by
        simp only [List.mem_append] at hb ⊢
        tauto
      exact List.mem_append.mpr (hb'.imp (h.routed b) List.mem_map_of_mem)

theorem events_added (h : r.Remembers cs vs) (hr : r.addEvents bs = .ok r') : r'.Remembers cs (vs ++ bs) := by
  have hj : r.Judged (r.started = true) (bs.map (·.route)) _ (r.addEvents bs) := addEvents_judged h.names
  rw [hr] at hj
  cases hj with
  | added _ hd =>
    refine ⟨hd, fun b hb => ?_, h.commands, by simp [h.events], h.distinct⟩
    rw [← List.append_assoc] at hb
    exact List.mem_append.mpr ((List.mem_append.mp hb).imp (h.routed b) List.mem_map_of_mem)

theorem keeps (h : r.Remembers cs vs) (hr : r'.routes = r.routes ∧ r'.commands = r.commands ∧ r'.events = r.events) :
    r'.Remembers cs vs := by
  obtain ⟨hr, hc, he⟩ := hr
  exact ⟨hr ▸ h.names, hr ▸ h.routed, hc.trans h.commands, he.trans h.events, h.distinct⟩

theorem handlerFor (h : r.Remembers cs vs) (topic name : String) :
    r.handlerFor? topic = some name ↔ ∃ b ∈ cs, b.type.topic = topic ∧ b.name = name := by
  have hmem : (topic, name) ∈ r.commands ↔ ∃ b ∈ cs, b.type.topic = topic ∧ b.name = name := by
    simp [h.commands, key]
  rw [← hmem]
  constructor
  · intro hl
    obtain ⟨l, l', hl, -⟩ := List.lookup_eq_some_iff.mp hl
    simp [hl]
  · intro hm
    obtain ⟨l, l', hl⟩ := List.append_of_mem hm
    refine List.lookup_eq_some_iff.mpr ⟨l, l', hl, fun p hp => ?_⟩
    -- No topic is bound twice.
    have hd : (r.commands.map (·.1)).Nodup := by
      rw [h.commands, List.map_reverse, List.nodup_reverse, map_fst_key]
      exact h.distinct
    rw [hl, List.map_append, List.nodup_append] at hd
    have hne := hd.2.2 p.1 (List.mem_map_of_mem hp) topic (by simp)
    simpa using Ne.symm hne

theorem mem_handlersFor (h : r.Remembers cs vs) (topic name : String) :
    name ∈ r.handlersFor topic ↔ ∃ b ∈ vs, b.type.topic = topic ∧ b.name = name := by
  simp only [handlersFor, List.mem_mergeSort, List.mem_eraseDups, h.events, key, List.mem_map, List.mem_filter,
    List.mem_reverse, beq_iff_eq]
  constructor
  · rintro ⟨_, ⟨⟨b, hb, rfl⟩, ht⟩, rfl⟩
    exact ⟨b, hb, ht, rfl⟩
  · rintro ⟨b, hb, ht, rfl⟩
    exact ⟨_, ⟨⟨b, hb, rfl⟩, ht⟩, rfl⟩

end Remembers

theorem handlersFor_sorted (r : Router) (topic : String) : (r.handlersFor topic).Pairwise (· < ·) :=
  pairwise_lt_mergeSort (nodup_eraseDups _)

end Router

namespace State
variable {s s' start : State} {o : Op} {os : List Op} {cs vs : List Binding}

/-- Whether a run of the router has been called, and has begun. -/
def HasRun (s : State) : Prop := ∃ (t : Nat) (v : Supervision), s.tasks[t]? = some (.run v) ∧ ∀ c, v ≠ .fresh c

theorem Sole.hasRun (hs : s.Sole) : s.router.started = true ↔ s.HasRun := by
  cases hs with
  | none hst hfresh =>
    refine ⟨fun h => by simp [hst] at h, fun ⟨t, v, hv, hn⟩ => ?_⟩
    obtain ⟨c, rfl⟩ := hfresh hv
    exact absurd rfl (hn c)
  | one hst ht hp _ => exact ⟨fun _ => ⟨_, _, ht, hp.1⟩, fun _ => hst⟩

/-- A router that nobody has run or given anything. -/
structure IsBare (s : State) : Prop where
  tasks : s.tasks = []
  started : s.router.started = false
  routes : s.router.routes = []
  commands : s.router.commands = []
  events : s.router.events = []

theorem IsBare.sole (hb : s.IsBare) : s.Sole := .none hb.started (by simp [hb.tasks])

theorem IsBare.remembers (hb : s.IsBare) : s.router.Remembers [] [] :=
  ⟨by simp [hb.routes], by simp, hb.commands, hb.events, List.nodup_nil⟩

theorem Sole.replay (hs : s.Sole) (hr : s.replay os = some s') : s'.Sole := by
  have hruns : Runs (fun _ => True) s s' := Runs.refl.replay (fun _ _ => trivial) hr
  exact hruns.keeps hs fun _ h hs => hs.step h

/-- The router after an operation that adds something is the one with all of it, or the one before. -/
theorem apply_added {x : Except RegistrationError Router} (ho : o.added? s.router = some x) :
    (s.apply o).router = x.toOption.getD s.router := by
  cases o with
  | addRoutes rs =>
    cases ho
    rw [apply]
    cases s.router.addRoutes rs <;> rfl
  | addHandlers role c bs =>
    cases ho
    rw [apply]
    rcases s.addHandlers_cases role c bs with ⟨r, hr, he⟩ | ⟨e, hr, he | ⟨id, he⟩⟩
    all_goals
      rw [he, hr]
      rfl
  | _ => cases ho

theorem addHandlers_told (s : State) (role : Role) (c : Context) (bs : List Binding) :
    (s.addHandlers role c bs).1 = match s.router.admit role bs with
      | .ok _ => none
      | .error e => some (s.refusal role e) := by
  rcases s.addHandlers_cases role c bs with ⟨r, hr, he⟩ | ⟨e, hr, he | ⟨id, he⟩⟩
  all_goals rw [he, hr]

theorem Remembers.apply (h : s.router.Remembers cs vs) :
    (s.apply o).router.Remembers (cs ++ s.takes .command o) (vs ++ s.takes .event o) := by
  cases o with
  | addRoutes rs =>
    simp only [takes, List.append_nil]
    rw [apply_added (o := .addRoutes rs) rfl]
    cases hr : s.router.addRoutes rs with
    | ok r => exact h.routes_added hr
    | error e => exact h
  | addHandlers role c bs =>
    rw [apply]
    rcases s.addHandlers_cases role c bs with ⟨r, hr, he⟩ | ⟨e, -, he | ⟨id, he⟩⟩
    · cases role with
      | command => simpa [takes, he, withRouter] using h.commands_added hr
      | event => simpa [takes, he, withRouter] using h.events_added hr
    · simpa [takes, he] using h
    · simpa [takes, he, note] using h
  | _ =>
    rw [takes_of_not_added rfl, takes_of_not_added rfl, List.append_nil, List.append_nil]
    exact h.keeps (apply_router rfl)

theorem Remembers.replay (h : s.router.Remembers cs vs) (hr : s.replay os = some s') :
    s'.router.Remembers (cs ++ s.taken .command os) (vs ++ s.taken .event os) := by
  induction os generalizing s cs vs with
  | nil =>
    cases hr
    simpa [taken] using h
  | cons o os ih =>
    rw [State.replay] at hr
    split at hr
    · have := ih (Remembers.apply h) hr
      rwa [List.append_assoc, List.append_assoc] at this
    · cases hr

/-- What is known of a router that has taken these handlers of commands and of events. -/
structure Registered (s : State) (cs vs : List Binding) : Prop where
  names : (s.router.routes.map (·.name)).Nodup
  /-- A topic is bound to at most one handler of commands. -/
  distinct : (cs.map (·.type.topic)).Nodup
  handlerFor : ∀ topic name, s.router.handlerFor? topic = some name ↔ ∃ b ∈ cs, b.type.topic = topic ∧ b.name = name
  handlersFor : ∀ topic, (s.router.handlersFor topic).Pairwise (· < ·) ∧
    ∀ name, name ∈ s.router.handlersFor topic ↔ ∃ b ∈ vs, b.type.topic = topic ∧ b.name = name
  routed : ∀ b ∈ cs ++ vs, b.route ∈ s.router.routes
  /-- Routes that are given to the router. -/
  routes : ∀ rs, s.router.Judged s.HasRun rs { s.router with routes := s.router.routes ++ rs } (s.router.addRoutes rs)
  commands : ∀ bs, s.router.JudgedCommands s.HasRun cs bs { s.router with
    routes := s.router.routes ++ bs.map (·.route)
    commands := (bs.map Router.key).reverse ++ s.router.commands } <| s.router.admit .command bs
  events : ∀ bs, s.router.Judged s.HasRun (bs.map (·.route)) { s.router with
    routes := s.router.routes ++ bs.map (·.route)
    events := (bs.map Router.key).reverse ++ s.router.events } <| s.router.admit .event bs
  /-- A batch is added as it was judged, and whoever gave it is told of a refusal. -/
  whole : ∀ o x, o.added? s.router = some x → (s.apply o).router = x.toOption.getD s.router
  told : ∀ role c bs, (s.addHandlers role c bs).1 = match s.router.admit role bs with
    | .ok _ => none
    | .error e => some (s.refusal role e)
  /-- Nothing else that is done adds or removes anything. -/
  rest : ∀ o, o.added? s.router = none → (s.apply o).router.routes = s.router.routes ∧
    (s.apply o).router.commands = s.router.commands ∧ (s.apply o).router.events = s.router.events

/-- Registration, in every state that a router can come to. The names of its routes are distinct. A topic has at
    most one handler of commands, the one that was taken for it, and its handlers of events are those that were
    taken for it, in order; each handler that was taken has its route. A batch is judged by what was taken before
    and by whether a run has been called, and it is added as a whole or nothing changes. -/
theorem registration (hb : start.IsBare) (h : start.replay os = some s) :
    s.Registered (start.taken .command os) (start.taken .event os) := by
  have hr : s.router.Remembers (start.taken .command os) (start.taken .event os) := Remembers.replay hb.remembers h
  have hrun : (s.router.started = true) = s.HasRun := propext (hb.sole.replay h).hasRun
  exact {
    names := hr.names
    distinct := hr.distinct
    handlerFor := hr.handlerFor
    handlersFor := fun topic => ⟨s.router.handlersFor_sorted topic, hr.mem_handlersFor topic⟩
    routed := hr.routed
    routes := fun rs => hrun ▸ Router.addRoutes_judged hr.names
    commands := fun bs => hrun ▸ Router.addCommands_judged hr.names hr.commands hr.distinct
    events := fun bs => hrun ▸ Router.addEvents_judged hr.names
    whole := fun o x => apply_added
    told := s.addHandlers_told
    rest := fun o => apply_router }

/-- A broker gets a route and a handler of commands. It refuses a second one for the same topic, and one of events
    with the name of the first. Then it takes one of events, and is run. -/
def registering : List Op :=
  [Op.addRoutes [{ name := "copy", topic := "in", handler := ⟨"copy", none, fun _ _ _ => .started (.finish .ok)⟩ }],
    .addHandlers .command { token := 0 } [quiet .command "do"],
    .addHandlers .command { token := 0 } [quiet .command "redo"],
    .addHandlers .event { token := 0 } [quiet .event "note", quiet .event "do"],
    .addHandlers .event { token := 0 } [quiet .event "note"], .token, .run { token := 0 }, .turn 0 .shutdown]

def registeredOne : State := (Broker.sample.replay registering).getD Broker.sample

theorem registration_of_one : Broker.sample.IsBare ∧ Broker.sample.replay registering = some registeredOne ∧
    registeredOne.router.routes.map (·.name) = ["copy", "do", "note"] ∧
    registeredOne.router.handlerFor? "flag" = some "do" ∧ "note" ∈ registeredOne.router.handlersFor "flag" ∧
    registeredOne.HasRun ∧ registeredOne.router.admit .command [quiet .command "redo"] = .error .running := by
  have hb : Broker.sample.IsBare := ⟨rfl, rfl, rfl, rfl, rfl⟩
  have h : Broker.sample.replay registering = some registeredOne := rfl
  have hr := registration hb h
  refine ⟨hb, h, rfl, (hr.handlerFor _ _).mpr ⟨quiet .command "do", List.mem_cons_self, rfl, rfl⟩,
    ((hr.handlersFor _).2 _).mpr ⟨quiet .event "note", List.mem_cons_self, rfl, rfl⟩, ⟨0, _, rfl, nofun⟩, ?_⟩
  cases hr.commands [quiet .command "redo"] with
  | judged _ hj =>
    cases hj with
    | late _ => rfl

end State
end Relay
