import Mathlib.Data.List.Nodup
import Relay.Proofs.Broker.Dealings
import Relay.Proofs.Router.Delivery

/-! A retry stage splits a pipeline in two. What lies outside of it is entered once for a message and left once;
    what lies inside is gone through once for each attempt, from the outside in to the handler and back again, and
    the next attempt begins when the one before has come out of all of it. -/

namespace Relay

/-- A message comes to a place of its pipeline, or leaves it. -/
inductive Crossing where
  | into (place : Nat)
  | out (place : Nat)
deriving DecidableEq

def Event.crossing? : Event → Option Crossing
  | .entered place => some (.into place)
  | .left place => some (.out place)
  | _ => none

/-- Where the message has been, in order. -/
def Dealing.crossings (d : Dealing) : List Crossing := d.events.filterMap Event.crossing?

theorem Dealing.crossings_andThen {d : Dealing} {es : List Event} :
    (d.andThen es).crossings = d.crossings ++ es.filterMap Event.crossing? := List.filterMap_append ..

/-! ### The way of a message -/

namespace Crossing

/-- The way in, from place `a` on and up to place `n`. -/
def inward (a n : Nat) : List Crossing := (List.range' a (n - a)).map .into

/-- The way out, from before place `n` down to place `a`. -/
def outward (n a : Nat) : List Crossing := ((List.range' a (n - a)).map .out).reverse

/-- What one attempt crosses inside of place `a`; `heard` says whether it gets as far as the handler, which comes
    behind the last stage. -/
def round (a n : Nat) (heard : Bool) : List Crossing :=
  inward (a + 1) n ++ (if heard then [.into n] else []) ++ outward n (a + 1)

/-- What is crossed before the attempts, and in those that are over. -/
def rounds (a n : Nat) (heard : List Bool) : List Crossing := inward 0 (a + 1) ++ heard.flatMap (round a n)

/-- All that is crossed, with one attempt for each element of `heard`. -/
def journey (a n : Nat) (heard : List Bool) : List Crossing := rounds a n heard ++ outward (a + 1) 0

variable {a n i : Nat}

@[simp] theorem inward_self (a : Nat) : inward a a = [] := by simp [inward]

@[simp] theorem outward_self (a : Nat) : outward a a = [] := by simp [outward]

theorem inward_succ (h : a ≤ n) : inward a (n + 1) = inward a n ++ [.into n] := by
  rw [inward, Nat.succ_sub h, List.range'_concat, List.map_append, Nat.one_mul, Nat.add_sub_cancel' h]
  rfl

theorem outward_of_lt (h : a < n) : outward n a = outward n (a + 1) ++ [.out a] := by
  rw [outward, show n - a = n - (a + 1) + 1 by omega, List.range'_succ, List.map_cons, List.reverse_cons]
  rfl

theorem rounds_append (a n : Nat) (heard : List Bool) (b : Bool) :
    rounds a n (heard ++ [b]) = rounds a n heard ++ round a n b := by
  simp [rounds]

theorem inward_isPrefix {m : Nat} (h : n ≤ m) : inward a n <+: inward a m := by
  obtain ⟨k, rfl⟩ := Nat.exists_eq_add_of_le h
  refine ⟨(List.range' (a + (n - a)) (n + k - a - (n - a))).map .into, ?_⟩
  rw [inward, inward, ← List.map_append, List.range'_append_1]
  exact congrArg (List.map _ <| List.range' a ·) (by omega)

theorem outward_isPrefix {b : Nat} (h : a ≤ b) : outward n b <+: outward n a := by
  induction h with
  | refl => exact List.prefix_rfl
  | @step b h ih =>
    refine .trans ?_ ih
    by_cases hb : b < n
    · exact ⟨[.out b], (outward_of_lt hb).symm⟩
    · rw [outward, Nat.sub_eq_zero_of_le (Nat.le_succ_of_le (Nat.le_of_not_lt hb))]
      exact List.nil_prefix

theorem into_injective : Function.Injective Crossing.into := fun _ _ h => Crossing.into.inj h

theorem out_injective : Function.Injective Crossing.out := fun _ _ h => Crossing.out.inj h

theorem count_into_inward : (inward a n).count (.into i) = if a ≤ i ∧ i < n then 1 else 0 := by
  have hmem : Crossing.into i ∈ inward a n ↔ a ≤ i ∧ i < n := by
    simp only [inward, List.mem_map, List.mem_range'_1, Crossing.into.injEq, exists_eq_right]
    omega
  have hn : (inward a n).Nodup := (List.nodup_range' _).map into_injective
  rw [hn.count]
  exact if_congr hmem rfl rfl

theorem count_out_outward : (outward n a).count (.out i) = if a ≤ i ∧ i < n then 1 else 0 := by
  have hmem : Crossing.out i ∈ outward n a ↔ a ≤ i ∧ i < n := by
    simp only [outward, List.mem_reverse, List.mem_map, List.mem_range'_1, Crossing.out.injEq, exists_eq_right]
    omega
  have hn : (outward n a).Nodup := List.nodup_reverse.mpr ((List.nodup_range' _).map out_injective)
  rw [hn.count]
  exact if_congr hmem rfl rfl

@[simp] theorem count_out_inward : (inward a n).count (.out i) = 0 :=
  List.count_eq_zero.mpr (by simp [inward])

@[simp] theorem count_into_outward : (outward n a).count (.into i) = 0 :=
  List.count_eq_zero.mpr (by simp [outward])

/-- A stage outside of the attempts is crossed once. -/
theorem count_outer (heard : List Bool) (h : i ≤ a) (hn : a < n) :
    (journey a n heard).count (.into i) = 1 ∧ (journey a n heard).count (.out i) = 1 := by
  have hin : ∀ b, (round a n b).count (.into i) = 0 := fun b => by
    cases b <;> simp [round, count_into_inward, List.count_cons] <;> omega
  have hout : ∀ b, (round a n b).count (.out i) = 0 := fun b => by
    cases b <;> simp [round, count_out_outward] <;> omega
  constructor
  · simp [journey, rounds, List.count_flatMap, Function.comp_def, hin, count_into_inward, Nat.lt_succ_of_le h]
  · simp [journey, rounds, List.count_flatMap, Function.comp_def, hout, count_out_outward, Nat.lt_succ_of_le h]

/-- A stage inside is crossed in each attempt. -/
theorem count_inner (heard : List Bool) (h : a < i) (hn : i < n) :
    (journey a n heard).count (.into i) = heard.length ∧ (journey a n heard).count (.out i) = heard.length := by
  have hin : ∀ b, (round a n b).count (.into i) = 1 := fun b => by
    cases b <;> simp [round, count_into_inward, Nat.succ_le_of_lt h, hn, Nat.ne_of_gt hn]
  have hout : ∀ b, (round a n b).count (.out i) = 1 := fun b => by
    cases b <;> simp [round, count_out_outward, Nat.succ_le_of_lt h, hn]
  constructor
  · simp [journey, rounds, List.count_flatMap, Function.comp_def, hin, count_into_inward, Nat.not_lt_of_le h]
  · simp [journey, rounds, List.count_flatMap, Function.comp_def, hout, count_out_outward, Nat.not_lt_of_le h]

/-- The handler is called in each attempt that gets as far as that. -/
theorem count_handler (heard : List Bool) (h : a < n) :
    (journey a n heard).count (.into n) = heard.count true := by
  have hin : ∀ b, (round a n b).count (.into n) = if b then 1 else 0 := fun b => by
    cases b <;> simp [round, count_into_inward]
  induction heard with
  | nil => simp [journey, rounds, count_into_inward, Nat.not_lt_of_le h]
  | cons b heard ih =>
    simp only [journey, rounds, List.flatMap_cons, List.count_append, hin] at ih ⊢
    cases b <;> simp at ih ⊢ <;> omega

end Crossing

open Crossing

/-! ### Pipelines with one retry stage -/

/-- A stage hands every message on, and does so once. -/
def Stage.HandsOn : Stage → Prop
  | retry _ => False
  | filter f => ∀ c m, ∃ c' m', f.enter c m = .pass c' m'
  | _ => True

/-- A pipeline with one retry stage, all of whose other stages hand every message on. -/
structure Split where
  before : List Stage
  policy : RetryPolicy
  within : List Stage
  handsOn : ∀ g ∈ before ++ within, g.HandsOn

/-- The attempt that is under way, if this is left by a retry stage. -/
def Frame.attempt? : Frame → Option Nat
  | retry _ n _ _ _ => some n
  | _ => none

/-- The attempt that is under way, if the call is in a retry stage. -/
def Call.attempt? (c : Call) : Option Nat := c.frames.findSome? Frame.attempt?

namespace Split
variable {q : Split} {pl : Payload} {fs : List Frame} {f : Frame} {g : Stage} {rest : List Stage}

def stages (q : Split) : List Stage := q.before ++ .retry q.policy :: q.within

/-- The place of the retry stage. -/
def place (q : Split) : Nat := q.before.length

/-- The place of the handler. -/
def depth (q : Split) : Nat := q.stages.length

/-- No stage of a user's own gives a message another payload. -/
def KeepsPayload (q : Split) : Prop :=
  ∀ f, .filter f ∈ q.stages → ∀ c m c' m', f.enter c m = .pass c' m' → m'.payload = m.payload

theorem place_lt_depth (q : Split) : q.place < q.depth := by
  simp [place, depth, stages]

/-- These frames, the innermost first, are what entering the stages up to `rest` with this payload leaves. -/
inductive Behind (q : Split) (pl : Payload) : List Frame → List Stage → Prop where
  | nil : Behind q pl [] q.stages
  | retry {fs : List Frame} {rest : List Stage} {policy : RetryPolicy} {n : Nat} {ctx : Context} {m : Message} :
      Behind q pl fs (.retry policy :: rest) → (q.KeepsPayload → m.payload = pl) →
      Behind q pl (.retry policy n ctx m rest :: fs) rest
  | other {fs : List Frame} {f : Frame} {g : Stage} {rest : List Stage} : Behind q pl fs (g :: rest) → g.HandsOn →
      f.attempt? = none → Behind q pl (f :: fs) rest

namespace Behind

theorem front (h : q.Behind pl fs rest) : ∃ front, q.stages = front ++ rest ∧ front.length = fs.length := by
  induction h with
  | nil => exact ⟨[], rfl, rfl⟩
  | retry _ _ ih | other _ _ _ ih =>
    obtain ⟨front, he, hl⟩ := ih
    exact ⟨front ++ [_], by rw [he, List.append_assoc]; rfl, by simp [hl]⟩

theorem mem_stages (h : q.Behind pl fs (g :: rest)) : g ∈ q.stages := by
  obtain ⟨front, he, -⟩ := h.front
  rw [he]
  exact List.mem_append_right _ List.mem_cons_self

theorem length_eq (h : q.Behind pl fs []) : fs.length = q.depth := by
  obtain ⟨front, he, hl⟩ := h.front
  rw [List.append_nil] at he
  rw [depth, he, hl]

/-- The next stage is the retry stage at its place, and elsewhere one that hands the message on. -/
theorem next (h : q.Behind pl fs (g :: rest)) : fs.length = q.place ∧ g = .retry q.policy ∧ rest = q.within ∨
    fs.length ≠ q.place ∧ g.HandsOn := by
  obtain ⟨front, he, hl⟩ := h.front
  rcases List.append_eq_append_iff.mp he.symm with ⟨more, hbefore, hmore⟩ | ⟨more, hfront, hmore⟩
  · cases more with
    | nil =>
      cases hmore
      exact .inl ⟨by rw [place, hbefore, List.append_nil, hl], rfl, rfl⟩
    | cons x more =>
      cases hmore
      refine .inr ⟨?_, q.handsOn _ (List.mem_append_left _ (hbefore ▸ by simp))⟩
      rw [place, hbefore, List.length_append, hl, List.length_cons]
      omega
  · cases more with
    | nil =>
      cases hmore
      exact .inl ⟨by rw [place, ← hl, hfront, List.append_nil], rfl, rfl⟩
    | cons x more =>
      rw [List.cons_append, List.cons.injEq] at hmore
      refine .inr ⟨?_, q.handsOn _ (List.mem_append_right _ (hmore.2 ▸ by simp))⟩
      rw [place, ← hl, hfront, List.length_append, List.length_cons]
      omega

theorem place_of_retry {policy : RetryPolicy} (h : q.Behind pl fs (.retry policy :: rest)) : fs.length = q.place :=
  h.next.elim And.left fun hn => hn.2.elim

theorem ne_place (h : q.Behind pl fs (g :: rest)) (hg : g.HandsOn) : fs.length ≠ q.place :=
  h.next.elim (fun hn => (hn.2.1 ▸ hg : Stage.HandsOn (.retry q.policy)).elim) And.left

/-- The innermost frame is left by the retry stage at its place, and elsewhere by another one. -/
theorem top (h : q.Behind pl (f :: fs) rest) : fs.length = q.place ∨ fs.length ≠ q.place ∧ f.attempt? = none := by
  cases h with
  | retry h _ => exact .inl h.place_of_retry
  | other h hg hf => exact .inr ⟨h.ne_place hg, hf⟩

theorem outer (h : q.Behind pl (f :: fs) rest) : ∃ rest', q.Behind pl fs rest' := by
  cases h with
  | retry h _ | other h _ _ => exact ⟨_, h⟩

/-- What a retry stage remembers is the way ahead of it. -/
theorem ahead {policy : RetryPolicy} {n : Nat} {ctx : Context} {m : Message} {rest' : List Stage}
    (h : q.Behind pl (.retry policy n ctx m rest' :: fs) rest) : fs.length = q.place ∧
      (q.KeepsPayload → m.payload = pl) ∧ ∀ k, q.Behind pl (.retry policy k ctx m rest' :: fs) rest' := by
  cases h with
  | retry h hm => exact ⟨h.place_of_retry, hm, fun _ => .retry h hm⟩
  | other _ _ hf => cases hf

end Behind
end Split

/-! ### One call -/

/-- The handler wants to be given values, and cannot read one from this payload. -/
def Handler.CannotRead (h : Handler) (pl : Payload) : Prop :=
  ∃ read fault, h.reads = some read ∧ read pl = .error fault

/-- The handler was called in an attempt, or could not read what came to it: that with which the message came, unless
    a stage has changed it. -/
def Split.Hears (q : Split) (h : Handler) (pl : Payload) (b : Bool) : Prop :=
  ∃ pl', (q.KeepsPayload → pl' = pl) ∧ (b = false ↔ h.CannotRead pl')

theorem Handler.Given.reads {h : Handler} {m : Message} {i : Input} (hi : h.Given m i) : ¬h.CannotRead m.payload := by
  rintro ⟨read, fault, hr, hf⟩
  rcases hi with ⟨hn, -⟩ | ⟨read', v, hr', hv, -⟩
  · rw [hr] at hn
    cases hn
  · rw [hr] at hr'
    cases hr'
    rw [unmarshal, hf] at hv
    cases hv

theorem unmarshal_error {read : Payload → Except ReadFault Value} {m : Message} {e : CodecError}
    (he : unmarshal read m = .error e) : ∃ fault, read m.payload = .error fault := by
  unfold unmarshal at he
  split at he
  · cases he
  · exact ⟨_, ‹_›⟩

/-- In the handler. -/
def Phase.Handling : Phase → Prop
  | acting .. | asleep .. | awaiting .. | sending .. => True
  | _ => False

namespace Call
variable {q : Split} {h : Handler} {pl : Payload} {task : Nat} {w w' : World} {c c' : Call} {heard : List Bool}
  {vs : List Crossing}
  {f : Frame} {outer : List Frame} {o : Outcome}

/-- Where a call is, what it has crossed, and how the attempts went that are over. -/
inductive On (q : Split) (h : Handler) (pl : Payload) (c : Call) : List Bool → List Crossing → Prop where
  | coming {rest : List Stage} {ctx : Context} {m : Message} : c.phase = .entering rest ctx m →
      q.Behind pl c.frames rest → (q.KeepsPayload → m.payload = pl) → c.frames.length ≤ q.place →
      On q h pl c [] (inward 0 c.frames.length)
  | trying {rest : List Stage} {ctx : Context} {m : Message} {heard : List Bool} : c.phase = .entering rest ctx m →
      q.Behind pl c.frames rest → (q.KeepsPayload → m.payload = pl) → q.place < c.frames.length →
      c.attempt? = some (heard.length + 1) →
      On q h pl c heard (rounds q.place q.depth heard ++ inward (q.place + 1) c.frames.length)
  | handling {heard : List Bool} : c.phase.Handling → q.Behind pl c.frames [] → c.attempt? = some (heard.length + 1) →
      q.Hears h pl true →
      On q h pl c heard (rounds q.place q.depth heard ++ inward (q.place + 1) q.depth ++ [.into q.depth])
  | returning {o : Outcome} {rest : List Stage} {b : Bool} {heard : List Bool} : c.phase = .leaving o →
      q.Behind pl c.frames rest → q.place < c.frames.length → c.attempt? = some (heard.length + 1) →
      q.Hears h pl b →
      On q h pl c heard (rounds q.place q.depth heard ++ inward (q.place + 1) q.depth ++
        (if b then [.into q.depth] else []) ++ outward q.depth c.frames.length)
  | waiting {t : Timer} {e : Error} {policy : RetryPolicy} {n : Nat} {ctx : Context} {m : Message} {rest : List Stage}
      {outer : List Frame} {heard : List Bool} : c.phase = .backoff t e →
      c.frames = .retry policy n ctx m rest :: outer → q.Behind pl c.frames rest → c.attempt? = some heard.length →
      heard ≠ [] → On q h pl c heard (rounds q.place q.depth heard)
  | leaving {o : Outcome} {rest : List Stage} {heard : List Bool} : c.phase = .leaving o → q.Behind pl c.frames rest →
      c.frames.length ≤ q.place → heard ≠ [] →
      On q h pl c heard (rounds q.place q.depth heard ++ outward (q.place + 1) c.frames.length)

namespace On

theorem start {route : Nat} {ctx : Context} {m : Message} :
    (Call.start route q.stages h ctx m).On q h m.payload [] [] := .coming rfl .nil (fun _ => rfl) (Nat.zero_le _)

/-- On the way in, before the retry stage or behind it. -/
theorem entering {rest : List Stage} {ctx : Context} {m : Message} (hon : c.On q h pl heard vs)
    (hp : c.phase = .entering rest ctx m) : q.Behind pl c.frames rest ∧ (q.KeepsPayload → m.payload = pl) ∧
      (c.frames.length ≤ q.place ∧ heard = [] ∧ vs = inward 0 c.frames.length ∨
        q.place < c.frames.length ∧ c.attempt? = some (heard.length + 1) ∧
          vs = rounds q.place q.depth heard ++ inward (q.place + 1) c.frames.length) := by
  cases hon with
  | coming hp' hb hm hl =>
    rw [hp] at hp'
    cases hp'
    exact ⟨hb, hm, .inl ⟨hl, rfl, rfl⟩⟩
  | trying hp' hb hm hl ha =>
    rw [hp] at hp'
    cases hp'
    exact ⟨hb, hm, .inr ⟨hl, ha, rfl⟩⟩
  | handling hp' _ _ _ => exact (hp ▸ hp' : Phase.Handling (.entering rest ctx m)).elim
  | returning hp' _ _ _ _ | waiting hp' _ _ _ _ | leaving hp' _ _ _ =>
    rw [hp] at hp'
    cases hp'

/-- Into a stage that hands the message on. -/
theorem push {g : Stage} {rest : List Stage} {ctx ctx' : Context} {m m' : Message} (hon : c.On q h pl heard vs)
    (hp : c.phase = .entering (g :: rest) ctx m) (hg : g.HandsOn) (hf : f.attempt? = none)
    (hm : q.KeepsPayload → m'.payload = m.payload) :
    (c.push f rest ctx' m').On q h pl heard (vs ++ [.into c.frames.length]) := by
  obtain ⟨hb, hpl, ⟨hl, rfl, rfl⟩ | ⟨hl, ha, rfl⟩⟩ := hon.entering hp
  · rw [← inward_succ (Nat.zero_le _)]
    exact .coming rfl (.other hb hg hf) (fun hk => (hm hk).trans (hpl hk))
      (Nat.succ_le_of_lt (Nat.lt_of_le_of_ne hl (hb.ne_place hg)))
  · rw [List.append_assoc, ← inward_succ hl]
    refine .trying rfl (.other hb hg hf) (fun hk => (hm hk).trans (hpl hk)) (Nat.lt_succ_of_lt hl) ?_
    rw [← ha]
    exact List.findSome?_cons_of_isNone (by simp [hf])

/-- Into the retry stage. -/
theorem tries {policy : RetryPolicy} {rest : List Stage} {ctx : Context} {m : Message} (hon : c.On q h pl heard vs)
    (hp : c.phase = .entering (.retry policy :: rest) ctx m) :
    (c.push (.retry policy 1 ctx m rest) rest ctx m).On q h pl heard (vs ++ [.into c.frames.length]) := by
  obtain ⟨hb, hpl, hcases⟩ := hon.entering hp
  have hl := hb.place_of_retry
  obtain ⟨-, rfl, rfl⟩ := hcases.resolve_right fun hin => Nat.ne_of_gt hin.1 hl
  rw [← inward_succ (Nat.zero_le _), hl]
  have hlength : (c.push (.retry policy 1 ctx m rest) rest ctx m).frames.length = q.place + 1 := congrArg (· + 1) hl
  have htrying : (c.push (.retry policy 1 ctx m rest) rest ctx m).On q h pl [] _ :=
    .trying rfl (.retry hb hpl) hpl (Nat.lt_of_lt_of_eq (Nat.lt_succ_self _) hlength.symm) rfl
  simpa [rounds, hlength] using htrying

/-- At the end of the pipeline. -/
theorem arrived {ctx : Context} {m : Message} (hon : c.On q h pl heard vs) (hp : c.phase = .entering [] ctx m) :
    q.Behind pl c.frames [] ∧ (q.KeepsPayload → m.payload = pl) ∧ c.frames.length = q.depth ∧
      c.attempt? = some (heard.length + 1) ∧
      vs = rounds q.place q.depth heard ++ inward (q.place + 1) q.depth := by
  obtain ⟨hb, hpl, hcases⟩ := hon.entering hp
  have hl := hb.length_eq
  obtain ⟨-, ha, rfl⟩ := hcases.resolve_left fun hout => Nat.not_le_of_lt (hl ▸ q.place_lt_depth) hout.1
  exact ⟨hb, hpl, hl, ha, by rw [hl]⟩

theorem calls {ctx : Context} {m : Message} {phase : Phase} (hon : c.On q h pl heard vs)
    (hp : c.phase = .entering [] ctx m) (hphase : phase.Handling) (hread : ¬h.CannotRead m.payload) :
    (c.goto phase).On q h pl heard (vs ++ [.into c.frames.length]) := by
  obtain ⟨hb, hpl, hl, ha, rfl⟩ := hon.arrived hp
  rw [hl]
  exact .handling hphase hb ha ⟨m.payload, hpl, by simpa using hread⟩

/-- Out of the pipeline's end, from the handler or because it cannot read the message. -/
theorem answers {ctx : Context} {m : Message} (b : Bool) (hon : c.On q h pl heard vs)
    (hp : c.phase = .entering [] ctx m) (hread : b = false ↔ h.CannotRead m.payload) :
    (c.goto (.leaving o)).On q h pl heard (vs ++ if b then [.into c.frames.length] else []) := by
  obtain ⟨hb, hpl, hl, ha, rfl⟩ := hon.arrived hp
  have hreturning : (c.goto (.leaving o)).On q h pl heard _ :=
    .returning rfl hb (hl ▸ q.place_lt_depth) ha ⟨m.payload, hpl, hread⟩
  simpa [goto, hl] using hreturning

theorem inside (hon : c.On q h pl heard vs) (hp : c.phase.Handling) : q.Behind pl c.frames [] ∧
    c.attempt? = some (heard.length + 1) ∧ q.Hears h pl true ∧
      vs = rounds q.place q.depth heard ++ inward (q.place + 1) q.depth ++ [.into q.depth] := by
  cases hon with
  | handling _ hb ha hread => exact ⟨hb, ha, hread, rfl⟩
  | coming hp' _ _ _ | trying hp' _ _ _ _ | returning hp' _ _ _ _ | waiting hp' _ _ _ _ | leaving hp' _ _ _ =>
    rw [hp'] at hp
    cases hp

theorem goto {phase : Phase} (hon : c.On q h pl heard vs) (hp : c.phase.Handling) (hphase : phase.Handling) :
    (c.goto phase).On q h pl heard vs := by
  obtain ⟨hb, ha, hread, rfl⟩ := hon.inside hp
  exact .handling hphase hb ha hread

theorem returns (hon : c.On q h pl heard vs) (hp : c.phase.Handling) : (c.goto (.leaving o)).On q h pl heard vs := by
  obtain ⟨hb, ha, hread, rfl⟩ := hon.inside hp
  have hl := hb.length_eq
  have hreturning : (c.goto (.leaving o)).On q h pl heard _ :=
    .returning (b := true) rfl hb (hl ▸ q.place_lt_depth) ha hread
  simpa [Call.goto, hl] using hreturning

theorem out (hon : c.On q h pl heard vs) (hp : c.phase = .leaving o) : ∃ rest, q.Behind pl c.frames rest ∧
    (c.frames.length ≤ q.place ∧ heard ≠ [] ∧
        vs = rounds q.place q.depth heard ++ outward (q.place + 1) c.frames.length ∨
      ∃ b : Bool, q.place < c.frames.length ∧ c.attempt? = some (heard.length + 1) ∧ q.Hears h pl b ∧
        vs = rounds q.place q.depth heard ++ inward (q.place + 1) q.depth ++ (if b then [.into q.depth] else []) ++
          outward q.depth c.frames.length) := by
  cases hon with
  | leaving _ hb hl hne => exact ⟨_, hb, .inl ⟨hl, hne, rfl⟩⟩
  | returning _ hb hl ha hread => exact ⟨_, hb, .inr ⟨_, hl, ha, hread, rfl⟩⟩
  | handling hp' _ _ _ => exact (hp ▸ hp' : Phase.Handling (.leaving o)).elim
  | coming hp' _ _ _ | trying hp' _ _ _ _ | waiting hp' _ _ _ _ =>
    rw [hp] at hp'
    cases hp'

/-- An attempt that has come out of all that lies inside the retry stage is over. -/
theorem round_eq (b : Bool) : rounds q.place q.depth heard ++ inward (q.place + 1) q.depth ++
    (if b then [.into q.depth] else []) ++ outward q.depth (q.place + 1) =
      rounds q.place q.depth (heard ++ [b]) := by
  rw [rounds_append, Crossing.round]
  simp only [List.append_assoc]

end On

/-- The attempts that are over went as they can go. -/
def Travels (q : Split) (h : Handler) (pl : Payload) (c : Call) (vs : List Crossing) : Prop :=
  ∃ heard, (∀ b ∈ heard, q.Hears h pl b) ∧ c.On q h pl heard vs

namespace Travels

theorem hears_append {b : Bool} (hu : ∀ b ∈ heard, q.Hears h pl b) (hb : q.Hears h pl b) :
    ∀ b' ∈ heard ++ [b], q.Hears h pl b' := fun b' hmem =>
  (List.mem_append.mp hmem).elim (hu b') fun hmem => List.mem_singleton.mp hmem ▸ hb

/-- Out of a stage. -/
theorem pop {o' : Outcome} (ht : c.Travels q h pl vs) (hp : c.phase = .leaving o) (hf : c.frames = f :: outer) :
    (c.pop outer o').Travels q h pl (vs ++ [.out outer.length]) := by
  obtain ⟨heard, hu, hon⟩ := ht
  obtain ⟨rest, hb, hcases⟩ := hon.out hp
  rw [hf] at hb hcases
  rw [List.length_cons] at hcases
  obtain ⟨rest', hb'⟩ := hb.outer
  rcases hcases with ⟨hl, hne, rfl⟩ | ⟨b, hl, ha, hread, rfl⟩
  · refine ⟨heard, hu, ?_⟩
    rw [List.append_assoc, ← outward_of_lt (Nat.lt_succ_of_lt hl)]
    exact .leaving rfl hb' (Nat.le_of_lt hl) hne
  · rcases hb.top with hplace | ⟨hplace, hframe⟩
    · -- Out of the retry stage itself: the attempt is over, and it was the last one.
      refine ⟨heard ++ [b], hears_append hu hread, ?_⟩
      rw [hplace, On.round_eq]
      have hleaving : (c.pop outer o').On q h pl (heard ++ [b]) _ := .leaving rfl hb' (Nat.le_of_eq hplace) (by simp)
      rwa [show (c.pop outer o').frames.length = q.place from hplace, outward_of_lt (Nat.lt_succ_self _), outward_self,
        List.nil_append] at hleaving
    · refine ⟨heard, hu, ?_⟩
      have hlt : outer.length < q.depth := by
        obtain ⟨front, he, hfront⟩ := hb.front
        rw [Split.depth, he, List.length_append, hfront, List.length_cons]
        omega
      rw [List.append_assoc, ← outward_of_lt hlt]
      refine .returning rfl hb' (Nat.lt_of_le_of_ne (Nat.le_of_lt_succ hl) (Ne.symm hplace)) ?_ hread
      rw [← ha]
      show outer.findSome? _ = c.frames.findSome? _
      rw [hf]
      exact (List.findSome?_cons_of_isNone (by simp [hframe])).symm

/-- The attempt is over, and there is to be another one. -/
theorem backsOff {t : Timer} {e : Error} {policy : RetryPolicy} {n : Nat} {ctx : Context} {m : Message}
    {rest : List Stage} (ht : c.Travels q h pl vs) (hp : c.phase = .leaving o)
    (hf : c.frames = .retry policy n ctx m rest :: outer) : (c.goto (.backoff t e)).Travels q h pl vs := by
  obtain ⟨heard, hu, hon⟩ := ht
  obtain ⟨rest', hb, hcases⟩ := hon.out hp
  rw [hf] at hb
  obtain ⟨hplace, -, hahead⟩ := hb.ahead
  have hlength : c.frames.length = q.place + 1 := by rw [hf, List.length_cons, hplace]
  rcases hcases with ⟨hl, -, -⟩ | ⟨b, -, ha, hread, rfl⟩
  · omega
  · refine ⟨heard ++ [b], hears_append hu hread, ?_⟩
    rw [hlength, On.round_eq]
    refine .waiting rfl hf (hf ▸ hahead n) ?_ (by simp)
    rw [List.length_append, List.length_singleton, ← ha]
    rfl

theorem waiting {t : Timer} {e : Error} (ht : c.Travels q h pl vs) (hp : c.phase = .backoff t e) :
    ∃ policy n ctx m rest outer heard, c.frames = .retry policy n ctx m rest :: outer ∧ q.Behind pl c.frames rest ∧
      c.attempt? = some heard.length ∧ heard ≠ [] ∧ (∀ b ∈ heard, q.Hears h pl b) ∧
        vs = rounds q.place q.depth heard := by
  obtain ⟨heard, hu, hon⟩ := ht
  cases hon with
  | waiting _ hf hb ha hne => exact ⟨_, _, _, _, _, _, heard, hf, hb, ha, hne, hu, rfl⟩
  | handling hp' _ _ _ => exact (hp ▸ hp' : Phase.Handling (.backoff t e)).elim
  | coming hp' _ _ _ | trying hp' _ _ _ _ | returning hp' _ _ _ _ | leaving hp' _ _ _ =>
    rw [hp] at hp'
    cases hp'

/-- There is no other attempt, for the wait was cut short. -/
theorem aborts {t : Timer} {e : Error} {policy : RetryPolicy} {n : Nat} {ctx : Context} {m : Message}
    {rest : List Stage} (ht : c.Travels q h pl vs) (hp : c.phase = .backoff t e)
    (hf : c.frames = .retry policy n ctx m rest :: outer) :
    (c.pop outer o).Travels q h pl (vs ++ [.out outer.length]) := by
  obtain ⟨_, _, _, _, _, _, heard, -, hb, -, hne, hu, rfl⟩ := ht.waiting hp
  rw [hf] at hb
  have hplace := hb.ahead.1
  obtain ⟨rest', hb'⟩ := hb.outer
  refine ⟨heard, hu, ?_⟩
  rw [hplace]
  have hleaving : (c.pop outer o).On q h pl heard _ := .leaving rfl hb' (Nat.le_of_eq hplace) hne
  rwa [show (c.pop outer o).frames.length = q.place from hplace, outward_of_lt (Nat.lt_succ_self _), outward_self,
    List.nil_append] at hleaving

/-- The next attempt begins. -/
theorem retries {t : Timer} {e : Error} {policy : RetryPolicy} {n : Nat} {ctx : Context} {m : Message}
    {rest : List Stage} (ht : c.Travels q h pl vs) (hp : c.phase = .backoff t e)
    (hf : c.frames = .retry policy n ctx m rest :: outer) :
    ({ c with frames := .retry policy (n + 1) ctx m rest :: outer, phase := .entering rest ctx m } : Call).Travels
      q h pl vs := by
  obtain ⟨_, _, _, _, _, _, heard, -, hb, ha, -, hu, rfl⟩ := ht.waiting hp
  rw [hf] at hb
  obtain ⟨hplace, hpl, hahead⟩ := hb.ahead
  rw [attempt?, hf] at ha
  cases ha
  refine ⟨heard, hu, ?_⟩
  have htrying : ({ c with
      frames := .retry policy (heard.length + 1) ctx m rest :: outer, phase := .entering rest ctx m } : Call).On q h
        pl heard _ := .trying rfl (hahead _) hpl (Nat.lt_succ_of_le (Nat.le_of_eq hplace.symm)) rfl
  rwa [List.length_cons, hplace, inward_self, List.append_nil] at htrying

end Travels

/-- What is written down from one world to the next brings the crossings up to date. -/
def Crosses (q : Split) (h : Handler) (pl : Payload) (c : Call) (task : Nat) (vs : List Crossing) (w w' : World) :
    Prop :=
  ∃ new, w'.history task = w.history task ++ new ∧ c.Travels q h pl (vs ++ new.filterMap Event.crossing?)

/-- A step of a call takes it one place further, or leaves it where it is. -/
theorem Moves.travels (hm : c.Moves task w w' c') (hh : c.handler = some h) (ht : c.Travels q h pl vs) :
    c'.Crosses q h pl task vs w w' := by
  have silent : ∀ {c' : Call} {x : World}, x.journal = w.journal → c'.Travels q h pl vs →
      c'.Crosses q h pl task vs w x :=
    fun hj ht => ⟨[], by rw [World.history_eq hj, List.append_nil], by simpa using ht⟩
  have spoken : ∀ {c' : Call} {x : World} {new : List Event} {vs' : List Crossing},
      x.history task = w.history task ++ new → new.filterMap Event.crossing? = vs' → c'.Travels q h pl (vs ++ vs') →
      c'.Crosses q h pl task vs w x := fun hh hn ht => ⟨_, hh, hn ▸ ht⟩
  have quiet : ∀ {c' : Call} {x : World} {new : List Event},
      x.history task = w.history task ++ new → new.filterMap Event.crossing? = [] → c'.Travels q h pl vs →
      c'.Crosses q h pl task vs w x := fun hh hn ht => ⟨_, hh, by rw [hn, List.append_nil]; exact ht⟩
  obtain ⟨heard, hu, hon⟩ := id ht
  -- A stage that lets no message pass, or more than one, is the retry stage.
  have handsOn : ∀ {g : Stage} {rest : List Stage} {ctx : Context} {m : Message},
      c.phase = .entering (g :: rest) ctx m → (∀ p, g ≠ .retry p) → g.HandsOn := fun hp hg =>
    (hon.entering hp).1.next.elim (fun hn => absurd hn.2.1 (hg _)) And.right
  have handled : ∀ {phase : Phase}, c.phase.Handling → phase.Handling → (c.goto phase).Travels q h pl vs :=
    fun hp hphase => ⟨heard, hu, hon.goto hp hphase⟩
  cases hm with
  | stays => exact silent rfl ht
  | delivers _ _ => exact silent World.Still.setExchange.journal ht
  -- On the way in.
  | guarded hp | unmarked hp _ | restored hp =>
    exact spoken (noted rfl) rfl ⟨heard, hu, hon.push hp (handsOn hp (by simp)) rfl fun _ => rfl⟩
  | marked hp _ => exact spoken (noted rfl) rfl ⟨heard, hu, hon.push hp (handsOn hp (by simp)) rfl fun _ => rfl⟩
  | passed hp hpass =>
    exact spoken (noted rfl) rfl ⟨heard, hu, hon.push hp (handsOn hp (by simp)) rfl fun hk =>
      hk _ (hon.entering hp).1.mem_stages _ _ _ _ hpass⟩
  | dispatched hp =>
    exact spoken (noted_two (w := w) rfl) rfl ⟨heard, hu, hon.push hp (handsOn hp (by simp)) rfl fun _ => rfl⟩
  | tried hp => exact spoken (noted rfl) rfl ⟨heard, hu, hon.tries hp⟩
  | answered hp ha =>
    obtain ⟨c', m', hpass⟩ := handsOn hp (by simp) _ _
    rw [ha] at hpass
    cases hpass
  | unhandled _ hn =>
    rw [hh] at hn
    cases hn
  | @undecoded _ m h' read e hp hh' hr he =>
    rw [hh] at hh'
    cases hh'
    obtain ⟨fault, hfault⟩ := unmarshal_error he
    have hanswers := hon.answers (o := .failed e.toError) false hp (iff_of_true rfl ⟨read, fault, hr, hfault⟩)
    exact silent rfl ⟨heard, hu, by simpa using hanswers⟩
  | refused hp hh' hi _ =>
    rw [hh] at hh'
    cases hh'
    exact spoken (noted rfl) rfl ⟨heard, hu, hon.answers true hp (iff_of_false nofun hi.reads)⟩
  | called hp hh' hi _ =>
    rw [hh] at hh'
    cases hh'
    exact spoken (noted_two rfl) rfl ⟨heard, hu, hon.calls hp trivial hi.reads⟩
  -- In the handler.
  | returned hp _ _ => exact quiet (noted rfl) rfl ⟨heard, hu, hon.returns (hp ▸ trivial)⟩
  | brokeOff hp _ => exact silent rfl ⟨heard, hu, hon.returns (hp ▸ trivial)⟩
  | slept hp | cancelled hp | awaited hp | woke hp _ | freed hp _ | delivered hp _ | undelivered hp _ =>
    exact silent rfl (handled (hp ▸ trivial) trivial)
  | unpublished hp _ => exact silent World.Still.fulfil.journal (handled (hp ▸ trivial) trivial)
  | published hp hx => exact silent (World.Still.fulfil.trans (.publish hx)).journal (handled (hp ▸ trivial) trivial)
  | unwritten hp _ | unsent hp _ _ => exact quiet (noted rfl) rfl (handled (hp ▸ trivial) trivial)
  | sent hp _ hx =>
    exact quiet ((World.history_eq (World.Still.publish hx).journal task).trans (noted rfl)) rfl
      (handled (hp ▸ trivial) trivial)
  -- Between two attempts.
  | aborted hp hf _ => exact spoken (noted_two rfl) rfl (ht.aborts hp hf)
  | retried hp hf _ _ => exact silent rfl (ht.retries hp hf)
  | strayed hp hn =>
    obtain ⟨_, _, _, _, _, _, _, hf, -⟩ := ht.waiting hp
    exact absurd hf (hn _ _ _ _ _ _)
  -- On the way out.
  | recovered hp hf | swallowed hp hf _ => exact spoken (noted_two rfl) rfl (ht.pop hp hf)
  | exhausted hp hf _ _ => exact spoken (noted_two rfl) rfl (ht.pop hp hf)
  | unwound hp hf _ | unretryable hp hf _ | propagated hp hf _ | left hp hf _ _ _ =>
    exact spoken (noted rfl) rfl (ht.pop hp hf)
  | filtered hp _ hf => exact spoken (noted rfl) rfl (ht.pop hp hf)
  | backsOff hp hf _ _ => exact silent rfl (ht.backsOff hp hf)

end Call

/-! ### The dealings of a worker -/

/-- A message has been all the way through a pipeline, with one attempt for each element of `heard`. -/
structure Dealing.Travelled (q : Split) (h : Handler) (heard : List Bool) (d : Dealing) : Prop where
  crossings : d.crossings = journey q.place q.depth heard
  attempted : heard ≠ []
  hears : ∀ b ∈ heard, q.Hears h d.message.payload b

/-- All dealings of a worker in this occupation are with messages that have been all the way through its pipeline, but
    that with the message under way. -/
def Occupation.Travels (q : Split) (h : Handler) (ds : List Dealing) : Occupation → Prop
  | .busy m c => c.handler = some h ∧ ∃ done d, ds = done ++ [d] ∧ d.message = m ∧
      c.Travels q h m.payload d.crossings ∧
      ∀ d ∈ done, ∃ heard, d.Travelled q h heard
  | _ => ∀ d ∈ ds, ∃ heard, d.Travelled q h heard

/-- A call that has come to its end has been all the way through. -/
theorem Call.Travels.ends {q : Split} {h : Handler} {c : Call} {d : Dealing} {o : Outcome} {es : List Event}
    (ht : c.Travels q h d.message.payload d.crossings) (ho : c.outcome? = some o)
    (hes : es.filterMap Event.crossing? = []) :
    ∃ heard, (d.andThen es).Travelled q h heard := by
  obtain ⟨hp, hf⟩ := outcome?_eq ho
  obtain ⟨heard, hu, hon⟩ := ht
  obtain ⟨rest, -, hcases⟩ := hon.out hp
  rw [hf] at hcases
  rcases hcases with ⟨-, hne, hvs⟩ | ⟨b, hl, -⟩
  · exact ⟨heard, by rw [Dealing.crossings_andThen, hes, List.append_nil, hvs]; rfl, hne, hu⟩
  · cases hl

namespace Worker
variable {q : Split} {t : Nat} {x x' : World} {w w' : Worker} {m : Message} {c : Call} {o : Outcome} {es : List Event}

theorem travels_settles (es : List Event) (ht : (Occupation.busy m c).Travels q w.handler (x.dealings t))
    (ho : c.outcome? = some o) (hh : x'.history t = x.history t ++ es) (hes : ∀ e ∈ es, e.taken? = none)
    (hv : es.filterMap Event.crossing? = []) :
    ∀ d ∈ x'.dealings t, ∃ heard, d.Travelled q w.handler heard := by
  obtain ⟨-, done, d, hds, rfl, htravels, hdone⟩ := ht
  intro d' hd'
  rw [World.dealings_append hh hes hds] at hd'
  rcases List.mem_append.mp hd' with hd' | hd'
  · exact hdone d' hd'
  · obtain rfl := List.mem_singleton.mp hd'
    exact htravels.ends ho hv

theorem Moves.travels (hm : w.Moves t x x' w') (hs : w.stages = q.stages)
    (ht : w.occupation.Travels q w.handler (x.dealings t)) : w'.occupation.Travels q w'.handler (x'.dealings t) := by
  rw [hm.goes.handler]
  cases hm with
  | stays => exact ht
  | @takes sub m rest ho _ _ _ =>
    rw [ho] at ht
    have hh := World.history_note_self
      { x with exchange := x.exchange.updateSubscription w.subscription (·.take m rest) } t (.taken w.route m)
    refine ⟨rfl, _, _, World.dealings_of_taken hh, rfl, ⟨[], by simp, ?_⟩, ht⟩
    rw [hs]
    exact .start
  | stops ho _ =>
    rw [ho] at ht
    exact ht
  | works ho _ hc =>
    rw [ho] at ht
    obtain ⟨hhandler, done, d, hds, hmsg, htravels, hdone⟩ := ht
    obtain ⟨new, hh, htravels⟩ := hc.travels hhandler htravels
    refine ⟨hc.same.1.trans hhandler, done, _,
      World.dealings_append hh (fun e he => Event.taken?_of_isInner (hc.inner hh e he)) hds, hmsg, ?_, hdone⟩
    rw [Dealing.crossings_andThen]
    exact htravels
  | succeeds ho hout =>
    rw [ho] at ht
    exact travels_settles _ ht hout (World.history_note_self _ _ _) (by simp [Event.taken?]) rfl
  | @fails m c e lastError ho hout _ =>
    rw [ho] at ht
    refine travels_settles [.settled w.route m (.failed e), .noticed (.messageFailed w.name w.topic m.id e)] ht hout ?_
      (by simp [Event.taken?]) rfl
    rw [World.history_note_self, World.history_note_self, List.append_assoc]
    rfl
  | @breaksOff m c reason ho hout =>
    rw [ho] at ht
    refine travels_settles [.settled w.route m (.panicked reason), .noticed (.workerPanicked w.name)] ht hout ?_
      (by simp [Event.taken?]) rfl
    rw [World.history_note_self]
    show (x.note t (.settled w.route m (.panicked reason))).history t ++ _ = _
    rw [World.history_note_self, List.append_assoc]
    rfl

end Worker

/-- A message has been all the way through a pipeline, and the retry stage has made `k` attempts. -/
structure Dealing.Through (q : Split) (h : Handler) (k : Nat) (d : Dealing) : Prop where
  /-- The way in is from the outside in, and the way out goes back over it. Before one attempt is out of all that
      lies inside the retry stage the next one does not begin. -/
  order : ∃ heard : List Bool, heard.length = k ∧ d.crossings = journey q.place q.depth heard ∧
    ∀ b ∈ heard, q.Hears h d.message.payload b
  attempted : 0 < k
  before : ∀ i ≤ q.place, d.crossings.count (.into i) = 1 ∧ d.crossings.count (.out i) = 1
  within : ∀ i, q.place < i → i < q.depth → d.crossings.count (.into i) = k ∧ d.crossings.count (.out i) = k
  /-- So does the handler, unless it wants to be given a value and cannot read it. -/
  handler : (h.reads = none ∨ q.KeepsPayload ∧ ¬h.CannotRead d.message.payload) → d.crossings.count (.into q.depth) = k

theorem Dealing.Travelled.through {q : Split} {h : Handler} {heard : List Bool} {d : Dealing}
    (ht : d.Travelled q h heard) : d.Through q h heard.length where
  order := ⟨heard, rfl, ht.crossings, ht.hears⟩
  attempted := List.length_pos_of_ne_nil ht.attempted
  before i hi := ht.crossings ▸ count_outer heard hi q.place_lt_depth
  within i hi hn := ht.crossings ▸ count_inner heard hi hn
  handler hread := by
    rw [ht.crossings, count_handler heard q.place_lt_depth, List.count_eq_length]
    exact fun b hb => by
      cases b with
      | true => rfl
      | false =>
        obtain ⟨pl, hpl, hb⟩ := ht.hears _ hb
        rcases hread with hnone | ⟨hk, hread⟩
        · obtain ⟨read, fault, hr, -⟩ := hb.mp rfl
          rw [hnone] at hr
          cases hr
        · exact absurd (hpl hk ▸ hb.mp rfl) hread

/-- What a call has crossed is the beginning of such a way, with as many attempts as the retry stage has made. -/
theorem Call.On.prefix_journey {q : Split} {h : Handler} {c : Call} {pl : Payload} {heard : List Bool}
    {vs : List Crossing} (hon : c.On q h pl heard vs) : ∃ heard', vs <+: journey q.place q.depth heard' ∧
      (q.place < c.frames.length → c.attempt? = some heard'.length) := by
  have hlength : ∀ b : Bool, (heard ++ [b]).length = heard.length + 1 := fun b => by simp
  cases hon with
  | coming _ _ _ hl =>
    refine ⟨[], ?_, fun hlt => absurd hl (Nat.not_le_of_lt hlt)⟩
    exact (inward_isPrefix (Nat.le_succ_of_le hl)).trans ((List.prefix_append _ _).trans (List.prefix_append _ _))
  | trying _ hb _ _ ha =>
    refine ⟨heard ++ [true], .trans ?_ (List.prefix_append _ _), fun _ => by rw [ha, hlength]⟩
    rw [← On.round_eq, List.append_assoc, List.append_assoc]
    obtain ⟨front, he, hfront⟩ := hb.front
    have hle : c.frames.length ≤ q.depth := by
      rw [Split.depth, he, List.length_append, hfront]
      exact Nat.le_add_right _ _
    exact (List.prefix_append_right_inj _).mpr ((inward_isPrefix hle).trans (List.prefix_append _ _))
  | handling _ _ ha _ =>
    refine ⟨heard ++ [true], .trans ?_ (List.prefix_append _ _), fun _ => by rw [ha, hlength]⟩
    rw [← On.round_eq]
    exact List.prefix_append _ _
  | @returning _ _ b _ _ _ hl ha _ =>
    refine ⟨heard ++ [b], .trans ?_ (List.prefix_append _ _), fun _ => by rw [ha, hlength]⟩
    rw [← On.round_eq]
    exact (List.prefix_append_right_inj _).mpr (outward_isPrefix (Nat.succ_le_of_lt hl))
  | waiting _ _ _ ha _ => exact ⟨heard, List.prefix_append _ _, fun _ => ha⟩
  | leaving _ _ hl _ =>
    exact ⟨heard, (List.prefix_append_right_inj _).mpr (outward_isPrefix (Nat.zero_le _)),
      fun hlt => absurd hl (Nat.not_le_of_lt hlt)⟩

namespace State
variable {start s s' : State} {o : Op}

/-- The dealings of all workers are as those of a pipeline with one retry stage, where theirs is one. -/
def Travels (s : State) : Prop :=
  ∀ (t : Nat) (w : Worker), s.tasks[t]? = some (.worker w) → ∀ q : Split, w.stages = q.stages →
    w.occupation.Travels q w.handler (s.world.dealings t)

theorem Travels.step (ht : s.Travels) (hd : s.Delivers) (h : s.Step o s') : s'.Travels := by
  intro t w' hw' q hq
  rcases h.worker_from hw' with ⟨b, w, -, hw, hm⟩ | ⟨hn, hw | ⟨_, _, _, _, _, _, -, -, -, hl, hidle⟩⟩
  · have hs : w.stages = q.stages := hm.goes.stages.symm.trans hq
    exact hm.travels hs (ht t w hw q hs)
  · rw [World.dealings_eq (h.history (List.getElem?_eq_some_iff.mp hw).1 hn)]
    exact ht t w' hw q hq
  · -- A worker that has just begun has dealt with nothing.
    have hnone : s'.world.dealings t = [] := (World.Tallied.of_idle fun e he => by
      obtain ⟨role, id, err, rfl⟩ := h.unborn hl (hd.unborn t hl) e he
      rfl).2
    rw [hnone, hidle]
    exact fun _ hd => nomatch hd

/-- What a retry stage makes of the ways of messages. -/
structure SplitsWays (s : State) : Prop where
  /-- Every worker has the stages of the router around those of its route. -/
  chain : ∀ {t : Nat} {w : Worker}, s.tasks[t]? = some (.worker w) → ∃ route, s.router.routes[w.route]? = some route ∧
    w.handler = route.handler ∧ w.stages = s.router.stages ++ route.stages
  /-- Every message but the one under way has been all the way through. -/
  through : ∀ {t : Nat} {w : Worker} {q : Split}, s.tasks[t]? = some (.worker w) → w.stages = q.stages →
    ∀ d ∈ s.world.dealings t, (∃ k, d.Through q w.handler k) ∨
      ∃ m c, w.occupation = .busy m c ∧ (s.world.dealings t).getLast? = some d
  underway : ∀ {t : Nat} {w : Worker} {q : Split} {m : Message} {c : Call}, s.tasks[t]? = some (.worker w) →
    w.stages = q.stages → w.occupation = .busy m c → ∃ d heard, (s.world.dealings t).getLast? = some d ∧ d.message = m ∧
      d.crossings <+: journey q.place q.depth heard ∧ (q.place < c.frames.length → c.attempt? = some heard.length)

/-- Retry splits the pipeline. Where a pipeline has one retry stage, and every other stage hands each message on once,
    a message crosses the stages around it once and those within it, and the handler, once for each attempt: in the
    order of the pipeline on the way in, in the reverse order on the way out, one attempt after the other. And the
    pipeline of each route is that of the router with the stages of the route inside. -/
theorem retry_splits (hn : start.IsNew) (h : Reachable start s) : s.SplitsWays := by
  have hinv : s.Course ∧ s.Delivers ∧ s.Travels :=
    (Runs.of_reachable h).keeps (P := fun s => s.Course ∧ s.Delivers ∧ s.Travels)
      ⟨hn.course, hn.delivers, fun t w hw => by simp [hn.tasks] at hw⟩ fun _ hs hi =>
        ⟨hi.1.step hs, hi.2.1.step hi.1 hs, hi.2.2.step hi.2.1 hs⟩
  obtain ⟨hc, -, ht⟩ := hinv
  refine ⟨fun {t w} hw => ?_, fun {t w q} hw hq d hd => ?_, fun {t w q m c} hw hq ho => ?_⟩
  · obtain ⟨t₀, base, run, hs⟩ := hc.serving_of_worker hw
    obtain ⟨-, -, route, hr⟩ := hs.serves hw
    exact ⟨route, hr.listed, hr.handler, hr.stages⟩
  · have htravels := ht t w hw q hq
    cases ho : w.occupation with
    | idle | ended _ =>
      rw [ho] at htravels
      obtain ⟨heard, hd⟩ := htravels d hd
      exact .inl ⟨_, hd.through⟩
    | busy m c =>
      rw [ho] at htravels
      obtain ⟨-, done, d', hds, -, -, hdone⟩ := htravels
      rw [hds] at hd ⊢
      rcases List.mem_append.mp hd with hd | hd
      · obtain ⟨heard, hd⟩ := hdone d hd
        exact .inl ⟨_, hd.through⟩
      · obtain rfl := List.mem_singleton.mp hd
        exact .inr ⟨m, c, rfl, List.getLast?_concat ..⟩
  · have htravels := ht t w hw q hq
    rw [ho] at htravels
    obtain ⟨-, done, d, hds, hmsg, ⟨heard, -, hon⟩, -⟩ := htravels
    obtain ⟨heard', hprefix, ha⟩ := hon.prefix_journey
    exact ⟨d, heard', by rw [hds, List.getLast?_concat], hmsg, hprefix, ha⟩

/-- A stage, a retry stage and another stage. -/
def sandwich : Split where
  before := [.filter (.marker "outer")]
  policy := ⟨0, .ofNat 2, 0, 3⟩
  within := [.filter (.marker "inner")]
  handsOn g hg := by
    simp only [List.mem_append, List.mem_singleton] at hg
    rcases hg with rfl | rfl <;> exact fun c m => ⟨c, m, rfl⟩

/-- A message comes through these stages to a handler that fails in a passing way when it is called first. -/
def hesitating : List Op :=
  sandwich.stages.map .addStage ++
  [Op.addRoutes [{
      name := "copy"
      topic := "in"
      handler := ⟨"copy", none, fun n _ _ => .started (.finish
        (if n = 0 then .failed (.custom ⟨"busy", .internal, "BUSY", true⟩ []) else .ok))⟩ }],
    .token, .run { token := 0 }] ++ List.replicate 3 (Op.turn 0 .shutdown) ++
  [Op.publish "in" [⟨some "a", [1], ∅⟩]] ++ List.replicate 7 (Op.turn 2 .shutdown) ++
  List.replicate 16 (Op.turn 1 .shutdown)

def hesitated : State := (blank.replay hesitating).getD blank

theorem retry_splits_of_two : Reachable blank hesitated ∧ hesitated.SplitsWays ∧
    (hesitated.world.dealings 1).map (·.crossings) = [journey sandwich.place sandwich.depth [true, true]] := by
  have hsome : (blank.replay hesitating).isSome = true := by decide +kernel
  have hreplay : blank.replay hesitating = some hesitated := by
    obtain ⟨s, hs⟩ := Option.isSome_iff_exists.mp hsome
    rw [hesitated, hs]
    rfl
  have hruns : Runs (fun _ => True) blank hesitated := Runs.refl.replay (fun _ _ => trivial) hreplay
  exact ⟨hruns.reachable, retry_splits ⟨rfl, rfl, rfl, rfl, rfl, rfl⟩ hruns.reachable, by decide +kernel⟩

end State
end Relay
