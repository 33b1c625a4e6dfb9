import Mathlib.Algebra.GroupWithZero.Nat
import Relay.Proofs.Broker.Chain

/-! What becomes of a message. The history of a worker is cut into dealings, one for each message that it
    has taken; what stands in a dealing follows from how far the call of the message has come
    (`Call.Moves.owes`), and a dealing that is over shows one of four fates. -/

namespace Relay

/-- What is written down of a message in trouble. -/
inductive Mark where
  /-- The dispatch stage kept its failure; whether this would have been worth another attempt. -/
  | refused (again : Bool)
  /-- The last attempt has failed. -/
  | exhausted
  /-- The wait for the next attempt was cut short. -/
  | aborted
  /-- A break-off was turned into a failure. -/
  | recovered
  /-- The worker has dropped it. -/
  | abandoned
deriving DecidableEq

namespace Event

def mark? : Event → Option Mark
  | .noticed (.handlingFailed _ _ _ e) => some (.refused e.retryable)
  | .noticed (.retriesExhausted ..) => some .exhausted
  | .noticed (.retryAborted ..) => some .aborted
  | .noticed (.panicRecovered ..) => some .recovered
  | .noticed (.messageFailed ..) => some .abandoned
  | _ => none

/-- Whether a call of a handler has come back with success; it has not when it begins. -/
def success? : Event → Option Bool
  | .called .. => some false
  | .returned _ _ ok _ => some ok
  | _ => none

def isEnd : Event → Bool
  | .settled .. => true
  | _ => false

theorem isEnd_of_isInner {e : Event} (h : e.isInner = true) : e.isEnd = false := by
  cases e with
  | settled _ _ _ => cases h
  | taken _ _ | entered _ | left _ | called _ _ _ _ _ | returned _ _ _ _ | spanned _ _ | noticed _ => rfl

/-- Whether a message came to the stage at this place. -/
def isEntry (place : Nat) : Event → Bool
  | .entered p => p == place
  | _ => false

theorem isEntry_entered {p place : Nat} : (entered p).isEntry place = (p == place) := rfl

end Event

/-- A message that was taken, and the events until the next one was taken. -/
structure Dealing where
  message : Message
  events : List Event := []

namespace Dealing

def marks (d : Dealing) : List Mark := d.events.filterMap Event.mark?

/-- Whether the last call of the handler came back with success. -/
def succeeded (d : Dealing) : Bool := (d.events.filterMap Event.success?).getLast? == some true

def isFinished (d : Dealing) : Bool := d.events.any Event.isEnd

/-- How often the message came to the stage at this place. -/
def entries (d : Dealing) (place : Nat) : Nat := d.events.countP (Event.isEntry place)

/-- More events of the same message. -/
def andThen (d : Dealing) (es : List Event) : Dealing := { d with events := d.events ++ es }

/-- The dealings after one more event. -/
def next (ds : List Dealing) (e : Event) : List Dealing :=
  match e.taken?, ds.getLast? with
  | some m, _ => ds ++ [{ message := m }]
  | none, some d => ds.dropLast ++ [d.andThen [e]]
  | none, none => []

end Dealing

/-- The dealings of a task, the earliest first. -/
def World.dealings (w : World) (t : Nat) : List Dealing := (w.history t).foldl Dealing.next []

/-- What becomes of a message. -/
inductive Fate where
  /-- Its handler came back with success in the end, and it was not dropped. -/
  | handled
  /-- The dispatch stage dropped it: its failure is not worth another attempt. -/
  | refused
  /-- The retry stage dropped it after the last attempt. -/
  | exhausted
  /-- The worker dropped it, after an attempt was not made any more or a break-off was caught. -/
  | abandoned
deriving DecidableEq

/-- A dealing shows this fate. -/
def Fate.Of (f : Fate) (d : Dealing) : Prop :=
  match f with
  | handled => d.marks = [] ∧ d.succeeded = true
  | refused => d.marks = [.refused false]
  | exhausted => d.marks = [.exhausted]
  | abandoned => d.marks = [.aborted, .abandoned] ∨ d.marks = [.recovered, .abandoned]

instance Fate.decidableOf (d : Dealing) : (f : Fate) → Decidable (f.Of d)
  | handled => inferInstanceAs (Decidable (d.marks = [] ∧ d.succeeded = true))
  | refused => inferInstanceAs (Decidable (d.marks = [.refused false]))
  | exhausted => inferInstanceAs (Decidable (d.marks = [.exhausted]))
  | abandoned => inferInstanceAs (Decidable (d.marks = [.aborted, .abandoned] ∨ d.marks = [.recovered, .abandoned]))

/-- A dealing shows one fate at most. -/
theorem Fate.Of.eq {f g : Fate} {d : Dealing} (hf : f.Of d) (hg : g.Of d) : f = g := by
  cases f <;> cases g <;> simp_all [Fate.Of]

/-- A dealing that is over: the message came to the retry stage once, and its fate shows. -/
structure Dealing.Concluded (d : Dealing) : Prop where
  finished : d.events.countP Event.isEnd = 1
  entered : d.entries Broker.retryPlace = 1
  fate : ∃ f, Fate.Of f d

/-! ### Cutting a history into dealings -/

namespace Dealing

theorem next_of_taken {ds : List Dealing} {e : Event} {m : Message} (h : e.taken? = some m) :
    next ds e = ds ++ [{ message := m }] := by
  simp [next, h]

theorem next_of_last {ds : List Dealing} {d : Dealing} {e : Event} (h : e.taken? = none) :
    next (ds ++ [d]) e = ds ++ [d.andThen [e]] := by
  simp [next, h]

theorem foldl_next_of_last {ds : List Dealing} {d : Dealing} {es : List Event} (h : ∀ e ∈ es, e.taken? = none) :
    es.foldl next (ds ++ [d]) = ds ++ [d.andThen es] := by
  induction es generalizing d with
  | nil => simp [andThen]
  | cons e es ih =>
    rw [List.foldl_cons, next_of_last (h e List.mem_cons_self), ih fun e' he' => h e' (List.mem_cons_of_mem _ he')]
    simp [andThen]

theorem map_message_next (ds : List Dealing) (e : Event) :
    (next ds e).map (·.message) = ds.map (·.message) ++ e.taken?.toList := by
  cases h : e.taken? with
  | some m => simp [next_of_taken h]
  | none =>
    rcases List.eq_nil_or_concat ds with rfl | ⟨ds, d, rfl⟩
    · simp [next, h]
    · simp [next_of_last h, andThen]

theorem map_message_foldl (ds : List Dealing) (es : List Event) :
    (es.foldl next ds).map (·.message) = ds.map (·.message) ++ es.filterMap Event.taken? := by
  induction es generalizing ds with
  | nil => simp
  | cons e es ih =>
    rw [List.foldl_cons, ih, map_message_next, List.append_assoc, List.filterMap_cons]
    cases e.taken? <;> simp

end Dealing

namespace World
variable {w w' : World} {t : Nat} {ds : List Dealing} {d : Dealing} {new : List Event}

theorem dealings_of_taken {route : Nat} {m : Message} (h : w'.history t = w.history t ++ [.taken route m]) :
    w'.dealings t = w.dealings t ++ [{ message := m }] := by
  rw [dealings, h, List.foldl_append]
  exact Dealing.next_of_taken (e := .taken route m) rfl

theorem dealings_append (h : w'.history t = w.history t ++ new) (hn : ∀ e ∈ new, e.taken? = none)
    (hd : w.dealings t = ds ++ [d]) : w'.dealings t = ds ++ [d.andThen new] := by
  rw [dealings, h, List.foldl_append, ← dealings, hd, Dealing.foldl_next_of_last hn]

theorem dealings_eq (h : w'.history t = w.history t) : w'.dealings t = w.dealings t := by rw [dealings, h, dealings]

/-- There is one dealing for each message that was taken. -/
theorem map_message_dealings (w : World) (t : Nat) : (w.dealings t).map (·.message) = w.handled t :=
  Dealing.map_message_foldl [] _

/-- Nothing is written down or counted. -/
structure Still (w w' : World) : Prop where
  journal : w'.journal = w.journal
  counters : w'.counters = w.counters

namespace Still
variable {x y : World}

theorem trans (h₁ : w.Still x) (h₂ : x.Still y) : w.Still y :=
  ⟨h₂.journal.trans h₁.journal, h₂.counters.trans h₁.counters⟩

theorem fulfil {ds : List Draft} : w.Still (w.fulfil ds).2 := by
  obtain ⟨used, h⟩ := w.fulfil_eq ds
  rw [h]
  exact ⟨rfl, rfl⟩

theorem setExchange {port : Port} {e : Exchange} : w.Still (w.setExchange port e) := by
  unfold World.setExchange
  split <;> exact ⟨rfl, rfl⟩

theorem publish {port : Port} {topic : String} {batch : List Message} {pub : Nat}
    (h : w.publish port topic batch = .ok (pub, x)) : w.Still x := by
  unfold World.publish at h
  split at h
  · cases h
  · cases h
    exact .setExchange

end Still
end World

/-! ### What a dealing shows while it is under way -/

namespace Dealing
variable {d : Dealing} {es : List Event}

@[simp] theorem andThen_nil : d.andThen [] = d := by simp [andThen]

@[simp] theorem marks_andThen : (d.andThen es).marks = d.marks ++ es.filterMap Event.mark? := by
  simp [marks, andThen]

@[simp] theorem entries_andThen {place : Nat} :
    (d.andThen es).entries place = d.entries place + es.countP (Event.isEntry place) := by
  simp [entries, andThen]

theorem marks_andThen_of_none (h : es.filterMap Event.mark? = []) : (d.andThen es).marks = d.marks := by
  rw [marks_andThen, h, List.append_nil]

/-- What a call writes down does not end its dealing. -/
theorem unfinished_andThen (hd : d.events.countP Event.isEnd = 0) (h : ∀ e ∈ es, e.isInner = true) :
    (d.andThen es).events.countP Event.isEnd = 0 := by
  rw [andThen, List.countP_append, hd, Nat.zero_add, List.countP_eq_zero]
  exact fun e he => by simp [Event.isEnd_of_isInner (h e he)]

theorem succeeded_andThen (h : es.filterMap Event.success? = []) : (d.andThen es).succeeded = d.succeeded := by
  simp [succeeded, andThen, h]

/-- What a dealing shows while its call is in this phase, in as many stages. -/
def Shows (d : Dealing) (depth : Nat) : Phase → Prop
  | .entering _ _ _ => d.marks = [] ∧ d.entries Broker.retryPlace = if depth ≤ Broker.retryPlace then 0 else 1
  | .acting _ _ _ | .asleep _ _ _ _ | .awaiting _ _ _ | .sending _ _ _ _ _ _ | .backoff _ _ =>
    d.marks = [] ∧ d.entries Broker.retryPlace = 1
  | .leaving .ok => d.entries Broker.retryPlace = 1 ∧ (d.marks = [] ∧ d.succeeded = true ∨
      d.marks = [.refused false] ∧ depth ≤ 4 ∨ d.marks = [.exhausted] ∧ depth ≤ Broker.retryPlace)
  | .leaving (.failed e) => d.entries Broker.retryPlace = 1 ∧
      (d.marks = [] ∧ Broker.retryPlace < depth ∧ (depth = 4 → e.retryable = true) ∨
        (d.marks = [.aborted] ∨ d.marks = [.recovered]) ∧ depth ≤ Broker.retryPlace)
  | .leaving (.panicked _) => d.entries Broker.retryPlace = 1 ∧ d.marks = [] ∧ 0 < depth

/-- A failure that has not come to the retry stage yet has left no mark. -/
theorem Shows.of_deep {depth : Nat} {e : Error} (hd : d.Shows depth (.leaving (.failed e)))
    (hl : Broker.retryPlace < depth) : d.marks = [] ∧ (depth = 4 → e.retryable = true) := by
  rcases hd.2 with ⟨hm, -, he⟩ | ⟨-, hl'⟩
  · exact ⟨hm, he⟩
  · exact absurd hl' (Nat.not_le_of_lt hl)

/-- One that has come out of the retry stage has left one. -/
theorem Shows.of_shallow {depth : Nat} {e : Error} (hd : d.Shows depth (.leaving (.failed e)))
    (hl : depth ≤ Broker.retryPlace) : d.marks = [.aborted] ∨ d.marks = [.recovered] := by
  rcases hd.2 with ⟨-, hl', -⟩ | ⟨hm, -⟩
  · exact absurd hl (Nat.not_le_of_lt hl')
  · exact hm

end Dealing

namespace Call
variable {p : RetryPolicy} {role : Role} {handler : String} {tok : Token} {task : Nat} {w w' : World} {c c' : Call}
  {d : Dealing}

/-- What is written down from one world to the next makes a dealing show what it is to show in this call. -/
def Adds (c : Call) (task : Nat) (d : Dealing) (w w' : World) : Prop :=
  ∃ new, w'.history task = w.history task ++ new ∧ (d.andThen new).Shows c.frames.length c.phase

theorem adds (hj : w'.journal = w.journal) (hd : d.Shows c.frames.length c.phase) : c.Adds task d w w' :=
  ⟨[], by rw [World.history_eq hj, List.append_nil], by simpa using hd⟩

theorem noted {x : World} {e : Event} (hx : x.journal = w.journal) :
    (x.note task e).history task = w.history task ++ [e] := by
  rw [World.history_note_self, World.history_eq hx]

theorem noted_two {x : World} {e e' : Event} (hx : x.journal = w.journal) :
    ((x.note task e).note task e').history task = w.history task ++ [e, e'] := by
  rw [World.history_note_self, noted hx, List.append_assoc]
  rfl

/-- Into a stage: the message comes to the retry stage if three stages lie behind it. -/
theorem enters {x : World} {rest rest' : List Stage} {ctx ctx' : Context} {m m' : Message} {f : Frame}
    {new : List Event} (hd : d.Shows c.frames.length c.phase) (hp : c.phase = .entering rest' ctx m)
    (hx : x.history task = w.history task ++ (.entered c.frames.length :: new))
    (hm : new.filterMap Event.mark? = []) (he : new.countP (Event.isEntry Broker.retryPlace) = 0) :
    (c.push f rest ctx' m').Adds task d w x := by
  rw [hp] at hd
  obtain ⟨hmarks, hentries⟩ := hd
  refine ⟨_, hx, ?_, ?_⟩
  · simpa [hmarks, Event.mark?] using hm
  · rw [Dealing.entries_andThen, List.countP_cons, he, hentries]
    show _ = if c.frames.length + 1 ≤ Broker.retryPlace then 0 else 1
    rcases Nat.lt_trichotomy c.frames.length 3 with hl | hl | hl
    · simp [Event.isEntry, Broker.retryPlace, Nat.le_of_lt hl, Nat.ne_of_lt hl, Nat.succ_le_of_lt hl]
    · simp [Event.isEntry, Broker.retryPlace, hl]
    · simp [Event.isEntry, Broker.retryPlace, Nat.not_le_of_lt hl, Nat.ne_of_gt hl,
        Nat.not_le_of_lt (Nat.lt_succ_of_lt hl)]

/-- As long as it is not on its way out, a step of a call adds to its dealing what this is to show next. -/
theorem Moves.shows_inside (h : c.Moves task w w' c') (hs : c.Stands tok (Broker.chain p role handler))
    (hh : c.handler ≠ none) (hd : d.Shows c.frames.length c.phase) (hout : ∀ o, c.phase ≠ .leaving o) :
    c'.Adds task d w w' := by
  cases h with
  | stays => exact adds rfl hd
  | unhandled _ hn => exact absurd hn hh
  | undecoded hp _ _ _ =>
    have hl := (hs.entering hp).1.length_chain
    rw [hp, hl] at hd
    refine adds rfl ⟨hd.2, .inl ⟨hd.1, ?_⟩⟩
    simp [goto, hl, Broker.retryPlace]
  | refused hp _ _ _ =>
    have hl := (hs.entering hp).1.length_chain
    rw [hp, hl] at hd
    refine ⟨_, noted rfl, ?_⟩
    simpa [Dealing.Shows, goto, hl, Event.mark?, Event.isEntry, Broker.retryPlace] using hd.symm
  | called hp _ _ _ =>
    have hl := (hs.entering hp).1.length_chain
    rw [hp, hl] at hd
    refine ⟨_, noted_two rfl, ?_⟩
    simpa [Dealing.Shows, goto, hl, Event.mark?, Event.isEntry, Broker.retryPlace] using hd
  | guarded hp | unmarked hp _ | restored hp | tried hp => exact enters hd hp (noted rfl) rfl rfl
  | marked hp _ => exact enters hd hp (noted rfl) rfl rfl
  | dispatched hp => exact enters hd hp (noted_two (w := w) rfl) rfl rfl
  | passed hp _ | answered hp _ =>
    have hmem := (hs.entering hp).1.suffix.mem List.mem_cons_self
    simp [Broker.chain, Broker.defaultStages] at hmem
  | returned hp _ ho =>
    have hl := (hs.acting hp).1.length_chain
    rw [hp] at hd
    refine ⟨_, noted rfl, ?_⟩
    rcases ho with ⟨rfl, rfl⟩ | ⟨⟨e, rfl⟩, rfl⟩
    · refine ⟨by simpa [Event.isEntry] using hd.2, .inl ⟨by simpa [Event.mark?] using hd.1, ?_⟩⟩
      simp [Dealing.succeeded, Dealing.andThen, Event.success?]
    · refine ⟨by simpa [Event.isEntry] using hd.2, .inl ⟨by simpa [Event.mark?] using hd.1, ?_⟩⟩
      simp [goto, hl, Broker.retryPlace]
  | brokeOff hp ho =>
    have hl := (hs.acting hp).1.length_chain
    rw [hp] at hd
    obtain ⟨reason, rfl⟩ := ho.resolve_left hh
    exact adds rfl ⟨hd.2, hd.1, by simp [goto, hl]⟩
  | slept hp | cancelled hp | awaited hp | woke hp _ | freed hp _ | delivered hp _ | undelivered hp _ =>
    rw [hp] at hd
    exact adds rfl hd
  | delivers _ _ => exact adds World.Still.setExchange.journal hd
  | unpublished hp _ =>
    rw [hp] at hd
    exact adds World.Still.fulfil.journal hd
  | published hp hx =>
    rw [hp] at hd
    exact adds (World.Still.fulfil.trans (.publish hx)).journal hd
  | unwritten hp _ | unsent hp _ _ =>
    rw [hp] at hd
    exact ⟨_, noted rfl, by simpa [Dealing.Shows, goto, Event.mark?, Event.isEntry] using hd⟩
  | sent hp _ hx =>
    rw [hp] at hd
    refine ⟨_, (World.history_eq (World.Still.publish hx).journal task).trans (noted rfl), ?_⟩
    simpa [Dealing.Shows, goto, Event.mark?, Event.isEntry] using hd
  | aborted hp hf _ =>
    rw [hp] at hd
    have hl := hs.backoff_outer hp hf
    refine ⟨_, noted_two rfl, by simpa [Event.isEntry] using hd.2, .inr ⟨.inl ?_, Nat.le_of_eq hl⟩⟩
    rw [Dealing.marks_andThen, hd.1]
    rfl
  | retried hp hf _ _ =>
    rw [hp] at hd
    have hl := hs.backoff_outer hp hf
    refine adds rfl ⟨hd.1, ?_⟩
    simpa [hl, Broker.retryPlace] using hd.2
  | strayed hp hn =>
    obtain ⟨_, _, _, _, _, _, hf, -⟩ := hs.backoff hp
    exact absurd hf (hn _ _ _ _ _ _)
  | recovered hp _ | unwound hp _ _ | filtered hp _ _ | unretryable hp _ _ | backsOff hp _ _ _ | exhausted hp _ _ _
  | propagated hp _ _ | swallowed hp _ _ | left hp _ _ _ _ => exact absurd hp (hout _)

/-- Out of a stage that lets the outcome through. -/
theorem leaves {f : Frame} {outer : List Frame} {o : Outcome} (hs : c.Stands tok (Broker.chain p role handler))
    (hd : d.Shows c.frames.length c.phase) (hp : c.phase = .leaving o) (hf : c.frames = f :: outer)
    (ho : ∀ reason, o ≠ .panicked reason) (hfail : (∃ e, o = .failed e) → f = .plain ∨ ∃ id topic, f = .guard id topic) :
    (c.pop outer o).Adds task d w (w.note task (.left outer.length)) := by
  rw [hp, hf] at hd
  have hl := hs.leaving_outer hp hf
  refine ⟨_, noted rfl, ?_⟩
  cases o with
  | panicked reason => exact absurd rfl (ho reason)
  | ok =>
    refine ⟨by simpa [Event.isEntry] using hd.1, ?_⟩
    rw [Dealing.marks_andThen_of_none rfl, Dealing.succeeded_andThen rfl]
    exact hd.2.imp id (.imp (.imp id Nat.le_of_succ_le) (.imp id Nat.le_of_succ_le))
  | failed e =>
    have hshallow : outer.length ≤ 2 := by
      rcases hfail ⟨e, rfl⟩ with rfl | ⟨id, topic, rfl⟩ <;> dsimp only [Frame.InPlace] at hl <;> omega
    refine ⟨by simpa [Event.isEntry] using hd.1, .inr ?_⟩
    rw [Dealing.marks_andThen_of_none rfl]
    exact ⟨hd.of_shallow (Nat.succ_le_succ hshallow), Nat.le_succ_of_le hshallow⟩

/-- On its way out, a call adds to its dealing what the stages write down that it leaves. -/
theorem Moves.shows_leaving {o : Outcome} (h : c.Moves task w w' c') (hs : c.Stands tok (Broker.chain p role handler))
    (hd : d.Shows c.frames.length c.phase) (hout : c.phase = .leaving o) : c'.Adds task d w w' := by
  cases h with
  | stays => exact adds rfl hd
  | delivers _ _ => exact adds World.Still.setExchange.journal hd
  | recovered hp hf =>
    rw [hp] at hd
    have hl : _ = 0 := hs.leaving_outer hp hf
    refine ⟨_, noted_two rfl, by simpa [Event.isEntry] using hd.1, .inr ⟨.inr ?_, ?_⟩⟩
    · rw [Dealing.marks_andThen, hd.2.1]
      rfl
    · simp [pop, hl]
  | @unwound f outer reason hp hf hn =>
    rw [hp] at hd
    have hl := hs.leaving_outer hp hf
    refine ⟨_, noted rfl, by simpa [Event.isEntry] using hd.1, by simpa [Event.mark?] using hd.2.1, ?_⟩
    show 0 < outer.length
    cases f with
    | guard id topic => exact absurd rfl (hn id topic)
    | filter _ => exact hl.elim
    | plain | retry _ _ _ _ _ | dispatch _ _ _ =>
      dsimp only [Frame.InPlace] at hl
      omega
  | filtered hp _ hf => exact (hs.leaving_outer hp hf).elim
  | unretryable hp hf hr =>
    rw [hp, hf] at hd
    have hl : _ = 3 := hs.leaving_outer hp hf
    have he := (hd.of_deep (by simp [hl, Broker.retryPlace])).2 (by simp [hl])
    rw [hr] at he
    cases he
  | backsOff hp hf _ _ =>
    rw [hp, hf] at hd
    have hl : _ = 3 := hs.leaving_outer hp hf
    exact adds rfl ⟨(hd.of_deep (by simp [hl, Broker.retryPlace])).1, hd.1⟩
  | exhausted hp hf _ _ =>
    rw [hp, hf] at hd
    have hl : _ = 3 := hs.leaving_outer hp hf
    have hm := (hd.of_deep (by simp [hl, Broker.retryPlace])).1
    refine ⟨_, noted_two rfl, by simpa [Event.isEntry] using hd.1, .inr (.inr ⟨?_, Nat.le_of_eq hl⟩)⟩
    rw [Dealing.marks_andThen, hm]
    rfl
  | propagated hp hf hr =>
    rw [hp, hf] at hd
    have hl : _ = 4 := hs.leaving_outer hp hf
    have hm := (hd.of_deep (by simp [hl, Broker.retryPlace])).1
    refine ⟨_, noted rfl, by simpa [Event.isEntry] using hd.1,
      .inl ⟨by simpa [Event.mark?] using hm, ?_, fun _ => hr⟩⟩
    simp [pop, hl, Broker.retryPlace]
  | swallowed hp hf hr =>
    rw [hp, hf] at hd
    have hl : _ = 4 := hs.leaving_outer hp hf
    have hm := (hd.of_deep (by simp [hl, Broker.retryPlace])).1
    refine ⟨_, noted_two rfl, by simpa [Event.isEntry] using hd.1, .inr (.inl ⟨?_, Nat.le_of_eq hl⟩)⟩
    rw [Dealing.marks_andThen, hm, ← hr]
    rfl
  | left hp hf ho _ hfail => exact leaves hs hd hp hf ho hfail
  | unhandled hp _ | undecoded hp _ _ _ | refused hp _ _ _ | called hp _ _ _ | guarded hp | marked hp _ | unmarked hp _
  | restored hp | tried hp | passed hp _ | answered hp _ | dispatched hp | returned hp _ _ | brokeOff hp _ | slept hp
  | cancelled hp | awaited hp | unpublished hp _ | published hp _ | unwritten hp _ | unsent hp _ _ | sent hp _ _
  | woke hp _ | freed hp _ | delivered hp _ | undelivered hp _ | aborted hp _ _ | retried hp _ _ _ | strayed hp _ =>
    rw [hout] at hp
    cases hp

/-- A step of a call adds to its dealing what this is to show next. -/
theorem Moves.shows (h : c.Moves task w w' c') (hs : c.Stands tok (Broker.chain p role handler))
    (hh : c.handler ≠ none) (hd : d.Shows c.frames.length c.phase) : c'.Adds task d w w' := by
  by_cases hout : ∃ o, c.phase = .leaving o
  · obtain ⟨o, hout⟩ := hout
    exact h.shows_leaving hs hd hout
  · exact h.shows_inside hs hh hd fun o ho => hout ⟨o, ho⟩

/-- What a dealing shows as long as its call is under way. -/
structure Owes (c : Call) (d : Dealing) : Prop where
  unfinished : d.events.countP Event.isEnd = 0
  shows : d.Shows c.frames.length c.phase

/-- What a step of a call writes down belongs to its dealing. -/
theorem Moves.inner (h : c.Moves task w w' c') {new : List Event} (hh : w'.history task = w.history task ++ new) :
    ∀ e ∈ new, e.isInner = true := by
  have ht : World.Touches (fun _ => False) c.Writes task w w' := h.touches
  obtain ⟨new', hh', hw⟩ := ht.history
  obtain rfl := List.append_cancel_left (hh.symm.trans hh')
  exact fun e he => (hw e he).1

theorem Moves.owes (h : c.Moves task w w' c') (hs : c.Stands tok (Broker.chain p role handler)) (hh : c.handler ≠ none)
    (hd : c.Owes d) : ∃ new, w'.history task = w.history task ++ new ∧ (∀ e ∈ new, e.isInner = true) ∧
      c'.Owes (d.andThen new) := by
  obtain ⟨new, hnew, hshows⟩ := h.shows hs hh hd.shows
  have hinner := h.inner hnew
  exact ⟨new, hnew, hinner, Dealing.unfinished_andThen hd.unfinished hinner, hshows⟩

end Call

/-! ### The dealings of a worker -/

/-- What a worker has to show in this occupation: all its dealings are over but that with the message
    under way. -/
def Occupation.Deals (ds : List Dealing) : Occupation → Prop
  | .busy m c => ∃ done d, ds = done ++ [d] ∧ d.message = m ∧ c.Owes d ∧ ∀ d ∈ done, d.Concluded
  | _ => ∀ d ∈ ds, d.Concluded

namespace World
variable {w w' : World} {t : Nat} {ds : List Dealing} {d : Dealing} {new : List Event}

/-- All that a task has written down of the way of a message stands in one of its dealings. -/
def Tallied (w : World) (t : Nat) : Prop :=
  ∀ P : Event → Bool, (∀ e, P e = true → e.isWork = true ∧ e.taken? = none) →
    (w.history t).countP P = ((w.dealings t).map (·.events.countP P)).sum

namespace Tallied

theorem of_idle (h : ∀ e ∈ w.history t, e.isWork = false) : w.Tallied t ∧ w.dealings t = [] := by
  have hnone : ∀ es : List Event, (∀ e ∈ es, e.isWork = false) → es.foldl Dealing.next [] = [] := by
    intro es hes
    induction es with
    | nil => rfl
    | cons e es ih =>
      have hn : e.taken? = none := by
        have := hes e List.mem_cons_self
        cases e with
        | taken _ _ => cases this
        | settled _ _ _ | entered _ | left _ | called _ _ _ _ _ | returned _ _ _ _ | spanned _ _ | noticed _ => rfl
      rw [List.foldl_cons, show Dealing.next [] e = [] by simp [Dealing.next, hn]]
      exact ih fun e' he' => hes e' (List.mem_cons_of_mem _ he')
  have hd : w.dealings t = [] := hnone _ h
  refine ⟨fun P hP => ?_, hd⟩
  rw [hd, List.countP_eq_zero.mpr fun e he hp => ?_]
  · rfl
  · have := (hP e hp).1
    rw [h e he] at this
    cases this

theorem of_eq (h : w.Tallied t) (hh : w'.history t = w.history t) : w'.Tallied t := by
  intro P hP
  rw [hh, dealings_eq hh]
  exact h P hP

theorem taken {route : Nat} {m : Message} (h : w.Tallied t) (hh : w'.history t = w.history t ++ [.taken route m]) :
    w'.Tallied t := by
  intro P hP
  have hp : P (.taken route m) = false := Bool.eq_false_iff.mpr fun hp => nomatch (hP _ hp).2
  rw [hh, dealings_of_taken hh, List.countP_append, h P hP]
  simp [hp]

theorem append (h : w.Tallied t) (hh : w'.history t = w.history t ++ new) (hn : ∀ e ∈ new, e.taken? = none)
    (hd : w.dealings t = ds ++ [d]) : w'.Tallied t := by
  intro P hP
  rw [hh, dealings_append hh hn hd, List.countP_append, h P hP, hd]
  simp [Dealing.andThen, Nat.add_assoc]

end Tallied
end World

theorem Event.taken?_of_isInner {e : Event} (h : e.isInner = true) : e.taken? = none := by
  cases e with
  | taken _ _ => cases h
  | settled _ _ _ | entered _ | left _ | called _ _ _ _ _ | returned _ _ _ _ | spanned _ _ | noticed _ => rfl

/-- A call that has come to its end stands outside of all stages. -/
theorem Call.outcome?_eq {c : Call} {o : Outcome} (h : c.outcome? = some o) : c.phase = .leaving o ∧ c.frames = [] := by
  unfold outcome? at h
  split at h
  · rename_i hp hf
    cases h
    exact ⟨hp, hf⟩
  · cases h

/-- What a worker writes down when a call has come to its end. -/
inductive Ending (route : Nat) (m : Message) : Outcome → List Event → Prop where
  | ok : Ending route m .ok [.settled route m .ok]
  | failed {e : Error} {name topic : String} :
      Ending route m (.failed e) [.settled route m (.failed e), .noticed (.messageFailed name topic m.id e)]

theorem Ending.taken? {route : Nat} {m : Message} {o : Outcome} {es : List Event} (h : Ending route m o es) :
    ∀ e ∈ es, e.taken? = none := by
  cases h <;> simp [Event.taken?]

/-- The dealing of a call that has come to its end is over. -/
theorem Call.Owes.settles {c : Call} {o : Outcome} {d : Dealing} {route : Nat} {es : List Event} (hd : c.Owes d)
    (ho : c.outcome? = some o) (he : Ending route d.message o es) : (d.andThen es).Concluded := by
  obtain ⟨hp, hf⟩ := outcome?_eq ho
  have hs := hd.shows
  rw [hp, hf] at hs
  have hends : ∀ {n : Nat}, es.countP Event.isEnd = n → (d.andThen es).events.countP Event.isEnd = n := fun hn => by
    rw [Dealing.andThen, List.countP_append, hd.unfinished, hn, Nat.zero_add]
  cases he with
  | ok =>
    refine ⟨hends rfl, (Dealing.entries_andThen).trans hs.1, ?_⟩
    rcases hs.2 with ⟨hm, hok⟩ | ⟨hm, -⟩ | ⟨hm, -⟩
    · exact ⟨.handled, (Dealing.marks_andThen_of_none rfl).trans hm, (Dealing.succeeded_andThen rfl).trans hok⟩
    · exact ⟨.refused, (Dealing.marks_andThen_of_none rfl).trans hm⟩
    · exact ⟨.exhausted, (Dealing.marks_andThen_of_none rfl).trans hm⟩
  | failed =>
    refine ⟨hends rfl, (Dealing.entries_andThen).trans hs.1, .abandoned, ?_⟩
    rcases hs.2 with ⟨-, h, -⟩ | ⟨hm | hm, -⟩
    · cases h
    · exact .inl (by rw [Dealing.marks_andThen, hm]; rfl)
    · exact .inr (by rw [Dealing.marks_andThen, hm]; rfl)

namespace Worker
variable {p : RetryPolicy} {role : Role} {handler : String} {t : Nat} {x x' : World} {w w' : Worker} {m : Message}
  {c : Call} {o : Outcome} {es : List Event}

/-- The dealings of a worker whose message has come to its end are all over. -/
theorem settles (hd : (Occupation.busy m c).Deals (x.dealings t)) (ht : x.Tallied t) (ho : c.outcome? = some o)
    (he : Ending w.route m o es) (hh : x'.history t = x.history t ++ es) :
    (∀ d ∈ x'.dealings t, d.Concluded) ∧ x'.Tallied t := by
  obtain ⟨done, d, hds, rfl, howes, hdone⟩ := hd
  refine ⟨fun d' hd' => ?_, ht.append hh he.taken? hds⟩
  rw [World.dealings_append hh he.taken? hds] at hd'
  rcases List.mem_append.mp hd' with hd' | hd'
  · exact hdone d' hd'
  · obtain rfl := List.mem_singleton.mp hd'
    exact howes.settles ho he

/-- A worker's own step keeps its dealings as they are to be. -/
theorem Moves.deals (h : w.Moves t x x' w') (hstages : w.stages = Broker.chain p role handler)
    (hc : ∀ {m : Message} {c : Call}, w.occupation = .busy m c →
      c.Stands w.context.token w.stages ∧ c.handler = some w.handler)
    (hd : w.occupation.Deals (x.dealings t)) (ht : x.Tallied t) :
    w'.occupation.Deals (x'.dealings t) ∧ x'.Tallied t := by
  cases h with
  | stays => exact ⟨hd, ht⟩
  | @takes sub m rest ho _ _ _ =>
    rw [ho] at hd
    have hh := World.history_note_self
      { x with exchange := x.exchange.updateSubscription w.subscription (·.take m rest) } t (.taken w.route m)
    exact ⟨⟨_, _, World.dealings_of_taken hh, rfl, ⟨rfl, rfl, rfl⟩, hd⟩, ht.taken hh⟩
  | stops ho _ =>
    rw [ho] at hd
    exact ⟨hd, ht⟩
  | works ho _ hm =>
    rw [ho] at hd
    obtain ⟨done, d, hds, hmsg, howes, hdone⟩ := hd
    obtain ⟨hstands, hhandler⟩ := hc ho
    obtain ⟨new, hh, hinner, howes⟩ := hm.owes (hstages ▸ hstands) (by simp [hhandler]) howes
    have hn : ∀ e ∈ new, e.taken? = none := fun e he => Event.taken?_of_isInner (hinner e he)
    exact ⟨⟨done, _, World.dealings_append hh hn hds, hmsg, howes, hdone⟩, ht.append hh hn hds⟩
  | succeeds ho hout =>
    rw [ho] at hd
    exact settles hd ht hout .ok (World.history_note_self _ _ _)
  | @fails m c e lastError ho hout _ =>
    rw [ho] at hd
    have he : Ending w.route m (.failed e)
        [.settled w.route m (.failed e), .noticed (.messageFailed w.name w.topic m.id e)] := .failed
    refine settles hd ht hout he ?_
    rw [World.history_note_self, World.history_note_self, List.append_assoc]
    rfl
  | breaksOff ho hout =>
    -- The outermost stage lets no break-off pass.
    rw [ho] at hd
    obtain ⟨done, d, -, -, howes, -⟩ := hd
    obtain ⟨hp, hf⟩ := Call.outcome?_eq hout
    have hs := howes.shows
    rw [hp, hf] at hs
    exact absurd hs.2.2 (Nat.lt_irrefl 0)

end Worker
end Relay
