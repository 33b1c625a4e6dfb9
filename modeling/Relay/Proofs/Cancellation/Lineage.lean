import Mathlib.Data.List.Induction
import Relay.Cancellation.Lemmas
import Relay.Context.Run
import Relay.Proofs.Call.Place

/-! Whose token a context has. The operations of a run tell with which context each token came: a new context and a
    child have one of their own, and all others have that of a context from which they were derived. They tell as
    well which token is an ancestor of which, since only a child has a token with a parent. The forest of tokens
    that is kept is the one that the operations tell of. -/

namespace Relay

/-! ### The forest -/

namespace Tokens
variable {s s' : Tokens} {t u i p : Token} {n : TokenNode}

/-- The token that a token was derived from. -/
def parent? (s : Tokens) (t : Token) : Option Token := (s.nodes[t]?).bind (·.parent)

@[simp] theorem next_fresh (s : Tokens) : s.fresh.next = s.next + 1 := by simp [fresh, next]

@[simp] theorem next_derive (s : Tokens) (t : Token) : (s.derive t).next = s.next + 1 := by simp [derive, next]

@[simp] theorem next_cancel (s : Tokens) (t : Token) : (s.cancel t).next = s.next := by simp [cancel, next]

theorem below_iff : s.below t i = true ↔ i = t ∨ ∃ p, s.parent? i = some p ∧ p < i ∧ s.below t p = true := by
  rw [below, Bool.or_eq_true, beq_iff_eq]
  refine or_congr Iff.rfl ?_
  unfold parent?
  rcases s.nodes[i]? with _ | ⟨_ | p, c⟩
  · simp
  · simp
  · by_cases hp : p < i <;> simp [hp]

theorem below_self (s : Tokens) (t : Token) : s.below t t = true := below_iff.mpr (.inl rfl)

theorem below_of_parent (hp : s.parent? i = some p) (hlt : p < i) (h : s.below t p = true) : s.below t i = true :=
  below_iff.mpr (.inr ⟨p, hp, hlt, h⟩)

theorem below_of_parents_eq (h : ∀ j, j ≤ i → s'.parent? j = s.parent? j) : s'.below t i = s.below t i := by
  induction i using Nat.strongRecOn with
  | ind i ih =>
    rw [Bool.eq_iff_iff, below_iff, below_iff, h i (Nat.le_refl i)]
    refine or_congr Iff.rfl (exists_congr fun p => and_congr_right fun _ => and_congr_right fun hlt => ?_)
    rw [ih p hlt fun j hj => h j (Nat.le_trans hj (Nat.le_of_lt hlt))]

/-- The ancestors of a token stand in one line. -/
theorem below_total (ht : s.below t i = true) (hu : s.below u i = true) : s.below t u = true ∨ s.below u t = true := by
  induction i using Nat.strongRecOn with
  | ind i ih =>
    rcases below_iff.mp ht with rfl | ⟨p, hp, hlt, htp⟩
    · exact .inr hu
    · rcases below_iff.mp hu with rfl | ⟨p', hp', -, hup⟩
      · exact .inl ht
      · rw [hp] at hp'
        cases hp'
        exact ih p hlt htp hup

theorem parent?_append_of_lt (h : t < s.next) : (⟨s.nodes ++ [n]⟩ : Tokens).parent? t = s.parent? t := by
  rw [parent?, List.getElem?_append_left h, parent?]

theorem parent?_fresh_next : s.fresh.parent? s.next = none := by simp [parent?, fresh, next]

theorem parent?_derive_next : (s.derive t).parent? s.next = some t := by simp [parent?, derive, next]

theorem parent?_cancel : (s.cancel u).parent? t = s.parent? t := by
  unfold parent? cancel
  rw [List.getElem?_mapIdx]
  cases s.nodes[t]? with
  | none => rfl
  | some n =>
    simp only [Option.map_some, Option.bind_some]
    split <;> rfl

end Tokens

theorem Derivation.run_token (d : Derivation) (c : Context) (s : Supply) : (d.run c s).1.token = c.token := by
  cases d with
  | span => exact c.startSpan_token s
  | clone | correlationId _ | trace _ | baggage _ | baggageItem _ _ | extract _ => rfl

namespace Contexts
variable {s s' s'' : Contexts} {o : Op} {ops ops' : List Op} {supply : Supply} {i j k r : Nat} {c p : Context}

/-! ### One operation -/

/-- What an operation makes of the contexts, and when. -/
inductive Step (s : Contexts) : Op → Contexts → Prop where
  /-- The context that it is done to is not held. -/
  | stays {o : Op} : (∀ i, o = .cancel i → s.held? i = none) → Step s o s
  | new : Step s .new { s with tokens := s.tokens.fresh, made := s.made ++ [{ token := s.tokens.next }] }
  | child {i : Nat} {c : Context} : s.held? i = some c → Step s (.child i)
      { s with tokens := s.tokens.derive c.token, made := s.made ++ [{ c with token := s.tokens.next }] }
  | derive {i : Nat} {d : Derivation} {c c' : Context} {supply : Supply} : s.held? i = some c → c'.token = c.token →
      Step s (.derive i d) { s with supply, made := s.made ++ [c'] }
  | withToken {i j : Nat} {c c' : Context} : s.held? j = some c → c'.token = c.token →
      Step s (.withToken i j) { s with made := s.made ++ [c'] }
  | cancel {i : Nat} {c : Context} : s.held? i = some c →
      Step s (.cancel i) { s with tokens := s.tokens.cancel c.token }
  | drop {i : Nat} : Step s (.drop i) { s with dropped := i :: s.dropped }

theorem step_cases (s : Contexts) (o : Op) : s.Step o (s.step o) := by
  cases o with
  | new => exact .new
  | child i =>
    unfold step
    dsimp only
    split
    · exact .stays nofun
    · rename_i c hc
      exact .child hc
  | derive i d =>
    unfold step
    dsimp only
    split
    · exact .stays nofun
    · rename_i c hc
      exact .derive hc (d.run_token c s.supply)
  | withToken i j =>
    unfold step
    dsimp only
    split
    · rename_i c c' hc hc'
      exact .withToken hc' rfl
    · exact .stays nofun
  | cancel i =>
    unfold step
    dsimp only
    split
    · rename_i hc
      refine .stays ?_
      rintro _ ⟨⟩
      exact hc
    · rename_i c hc
      exact .cancel hc
  | drop i =>
    unfold step
    dsimp only
    split
    · exact .stays nofun
    · exact .drop

theorem made_of_held? (h : s.held? i = some c) : s.made[i]? = some c := by
  unfold held? at h
  split at h
  · cases h
  · exact h

/-! ### What stays -/

/-- Every context has a token that has been made. -/
def Rooted (s : Contexts) : Prop := ∀ c ∈ s.made, c.token < s.tokens.next

/-- What no operation undoes: contexts, the tokens that they have, and what these are derived from. -/
structure Grows (s s' : Contexts) : Prop where
  made : s.made <+: s'.made
  next : s.tokens.next ≤ s'.tokens.next
  parent : ∀ t, t < s.tokens.next → s'.tokens.parent? t = s.tokens.parent? t
  cancelled : ∀ t, s.tokens.isCancelled t = true → s'.tokens.isCancelled t = true

namespace Grows

theorem refl (s : Contexts) : s.Grows s := ⟨List.prefix_rfl, Nat.le_refl _, fun _ _ => rfl, fun _ => id⟩

theorem trans (h : s.Grows s') (h' : s'.Grows s'') : s.Grows s'' where
  made := h.made.trans h'.made
  next := Nat.le_trans h.next h'.next
  parent t ht := (h'.parent t (Nat.lt_of_lt_of_le ht h.next)).trans (h.parent t ht)
  cancelled t ht := h'.cancelled t (h.cancelled t ht)

theorem getElem? (h : s.Grows s') (hc : s.made[i]? = some c) : s'.made[i]? = some c := by
  obtain ⟨later, hlater⟩ := h.made
  rw [← hlater, List.getElem?_append_left (List.getElem?_eq_some_iff.mp hc).1]
  exact hc

theorem of_getElem? (h : s.Grows s') (hi : i < s.made.length) (hc : s'.made[i]? = some c) : s.made[i]? = some c := by
  obtain ⟨later, hlater⟩ := h.made
  rw [← hlater, List.getElem?_append_left hi] at hc
  exact hc

theorem below (h : s.Grows s') {t u : Token} (hu : u < s.tokens.next) :
    s'.tokens.below t u = s.tokens.below t u :=
  Tokens.below_of_parents_eq fun j hj => h.parent j (Nat.lt_of_le_of_lt hj hu)

end Grows

theorem Step.grows (h : s.Step o s') : s.Grows s' := by
  cases h with
  | stays _ => exact .refl s
  | drop => exact ⟨List.prefix_rfl, Nat.le_refl _, fun _ _ => rfl, fun _ => id⟩
  | new =>
    refine ⟨List.prefix_append _ _, by simp, ?_, ?_⟩
    · intro t ht
      exact Tokens.parent?_append_of_lt ht
    · intro t ht
      rw [Tokens.isCancelled_fresh, ht]
  | child _ =>
    refine ⟨List.prefix_append _ _, Nat.le_of_lt Tokens.lt_next_derive, ?_, ?_⟩
    · intro t ht
      exact Tokens.parent?_append_of_lt ht
    · intro t ht
      rw [Tokens.isCancelled_derive]
      split
      · rename_i hnext
        rw [Tokens.isCancelled_of_next_le (Nat.le_of_eq hnext.symm)] at ht
        cases ht
      · exact ht
  | derive _ _ | withToken _ _ => exact ⟨List.prefix_append _ _, Nat.le_refl _, fun _ _ => rfl, fun _ => id⟩
  | cancel _ =>
    refine ⟨List.prefix_rfl, by simp, fun t _ => Tokens.parent?_cancel, ?_⟩
    intro t ht
    exact Tokens.isCancelled_cancel_of_isCancelled _ ht

theorem grows_step (s : Contexts) (o : Op) : s.Grows (s.step o) := (step_cases s o).grows

theorem run_append (s : Contexts) (l l' : List Op) : s.run (l ++ l') = (s.run l).run l' := List.foldl_append

theorem grows_run (s : Contexts) (ops : List Op) : s.Grows (s.run ops) := by
  induction ops generalizing s with
  | nil => exact .refl s
  | cons o ops ih => exact (grows_step s o).trans (ih (s.step o))

theorem rooted_step (h : s.Rooted) (o : Op) : (s.step o).Rooted := by
  have hgrows := grows_step s o
  have hstep := step_cases s o
  generalize s.step o = s' at hgrows hstep
  -- The token of the last context, if there is a new one.
  have one : ∀ {c : Context}, s'.made = s.made ++ [c] → c.token < s'.tokens.next → s'.Rooted := by
    intro c hmade hc c' hm
    rw [hmade] at hm
    rcases List.mem_append.mp hm with hm | hm
    · exact Nat.lt_of_lt_of_le (h c' hm) hgrows.next
    · rw [List.mem_singleton.mp hm]
      exact hc
  cases hstep with
  | stays _ | drop => exact h
  | new => exact one rfl (by simp)
  | child _ => exact one rfl Tokens.lt_next_derive
  | derive hc ht | withToken hc ht =>
    refine one rfl ?_
    rw [ht]
    exact h _ (List.mem_of_getElem? (made_of_held? hc))
  | cancel _ =>
    intro c hm
    exact Nat.lt_of_lt_of_le (h c hm) hgrows.next

/-! ### Where the tokens come from -/

/-- The contexts after these operations. -/
abbrev after (supply : Supply) (ops : List Op) : Contexts := (start supply).run ops

theorem after_append (supply : Supply) (ops ops' : List Op) : after supply (ops ++ ops') = (after supply ops).run ops' :=
  run_append _ ops ops'

theorem after_concat (supply : Supply) (ops : List Op) (o : Op) :
    after supply (ops ++ [o]) = (after supply ops).step o := after_append supply ops [o]

theorem grows_after (supply : Supply) (h : ops <+: ops') : (after supply ops).Grows (after supply ops') := by
  obtain ⟨later, rfl⟩ := h
  rw [after_append]
  exact grows_run _ later

theorem rooted_after (supply : Supply) (ops : List Op) : (after supply ops).Rooted := by
  induction ops using List.reverseRecOn with
  | nil => exact fun _ hm => nomatch hm
  | append_singleton ops o ih =>
    rw [after_concat]
    exact rooted_step ih o

/-- Context `i` was made by this operation of the run. -/
def MadeBy (supply : Supply) (ops : List Op) (i : Nat) (o : Op) : Prop :=
  ∃ before, before ++ [o] <+: ops ∧ (after supply before).made.length = i ∧
    i < (after supply (before ++ [o])).made.length

/-- Context `i` has the token that came with context `r`. -/
inductive Origin (supply : Supply) (ops : List Op) : Nat → Nat → Prop where
  | new {i : Nat} : MadeBy supply ops i .new → Origin supply ops i i
  | child {i j : Nat} : MadeBy supply ops i (.child j) → Origin supply ops i i
  | derive {i j r : Nat} {d : Derivation} : MadeBy supply ops i (.derive j d) → Origin supply ops j r →
      Origin supply ops i r
  | withToken {i j k r : Nat} : MadeBy supply ops i (.withToken j k) → Origin supply ops k r → Origin supply ops i r

/-- The token of context `j` is that of context `i` or an ancestor of it. -/
inductive Above (supply : Supply) (ops : List Op) : Nat → Nat → Prop where
  | same {j i r : Nat} : Origin supply ops j r → Origin supply ops i r → Above supply ops j i
  | child {j k r i : Nat} : Above supply ops j k → MadeBy supply ops r (.child k) → Origin supply ops i r →
      Above supply ops j i

/-- No context that was made before has this token. -/
def Fresh (s : Contexts) (i : Nat) (c : Context) : Prop := ∀ k p, k < i → s.made[k]? = some p → p.token ≠ c.token

/-- What a context is like that comes from this operation. -/
inductive Born (s : Contexts) (i : Nat) (c : Context) : Op → Prop where
  | new : s.tokens.parent? c.token = none → s.Fresh i c → Born s i c .new
  | child {j : Nat} {p : Context} : s.made[j]? = some p → s.tokens.parent? c.token = some p.token →
      p.token < c.token → s.Fresh i c → Born s i c (.child j)
  | derive {j : Nat} {d : Derivation} {p : Context} : j < i → s.made[j]? = some p → c.token = p.token →
      Born s i c (.derive j d)
  | withToken {j k : Nat} {p : Context} : k < i → s.made[k]? = some p → c.token = p.token → Born s i c (.withToken j k)

theorem Fresh.grows (h : s.Fresh i c) (hg : s.Grows s') (hi : i ≤ s.made.length) : s'.Fresh i c :=
  fun k p hk hp => h k p hk (hg.of_getElem? (Nat.lt_of_lt_of_le hk hi) hp)

theorem Born.grows (h : s.Born i c o) (hg : s.Grows s') (hr : s.Rooted) (hc : s.made[i]? = some c) :
    s'.Born i c o := by
  have hi := Nat.le_of_lt (List.getElem?_eq_some_iff.mp hc).1
  have hparent := hg.parent c.token (hr c (List.mem_of_getElem? hc))
  cases h with
  | new hp hf => exact .new (hparent.trans hp) (hf.grows hg hi)
  | child hj hp hlt hf => exact .child (hg.getElem? hj) (hparent.trans hp) hlt (hf.grows hg hi)
  | derive hj hp ht => exact .derive hj (hg.getElem? hp) ht
  | withToken hk hp ht => exact .withToken hk (hg.getElem? hp) ht

theorem born_of_step (hr : s.Rooted) (hi : s.made.length < (s.step o).made.length) :
    ∃ c, (s.step o).made[s.made.length]? = some c ∧ (s.step o).Born s.made.length c o := by
  have hgrows := grows_step s o
  have hstep := step_cases s o
  generalize s.step o = s' at hgrows hstep hi
  have fresh : ∀ {c : Context}, c.token = s.tokens.next → s'.Fresh s.made.length c := by
    intro c hc k p hk hp
    rw [hc]
    exact Nat.ne_of_lt (hr p (List.mem_of_getElem? (hgrows.of_getElem? hk hp)))
  have lt_of_held : ∀ {i : Nat} {c : Context}, s.held? i = some c → i < s.made.length := fun hc =>
    (List.getElem?_eq_some_iff.mp (made_of_held? hc)).1
  cases hstep with
  | stays _ | drop | cancel _ => exact absurd hi (Nat.lt_irrefl _)
  | new => exact ⟨_, List.getElem?_concat_length, .new Tokens.parent?_fresh_next (fresh rfl)⟩
  | child hc =>
    refine ⟨_, List.getElem?_concat_length, .child (hgrows.getElem? (made_of_held? hc)) Tokens.parent?_derive_next ?_
      (fresh rfl)⟩
    exact hr _ (List.mem_of_getElem? (made_of_held? hc))
  | derive hc ht =>
    exact ⟨_, List.getElem?_concat_length, .derive (lt_of_held hc) (hgrows.getElem? (made_of_held? hc)) ht⟩
  | withToken hc ht =>
    exact ⟨_, List.getElem?_concat_length, .withToken (lt_of_held hc) (hgrows.getElem? (made_of_held? hc)) ht⟩

theorem MadeBy.born (h : MadeBy supply ops i o) :
    ∃ c, (after supply ops).made[i]? = some c ∧ (after supply ops).Born i c o := by
  obtain ⟨before, hbefore, rfl, hi⟩ := h
  rw [after_concat] at hi
  obtain ⟨c, hc, hborn⟩ := born_of_step (rooted_after supply before) hi
  have hgrows := grows_after supply hbefore
  rw [after_concat] at hgrows
  exact ⟨c, hgrows.getElem? hc, hborn.grows hgrows (rooted_step (rooted_after supply before) o) hc⟩

theorem exists_madeBy (h : i < (after supply ops).made.length) : ∃ o, MadeBy supply ops i o := by
  induction ops using List.reverseRecOn with
  | nil => exact absurd h (Nat.not_lt_zero i)
  | append_singleton ops o ih =>
    by_cases hi : i < (after supply ops).made.length
    · obtain ⟨o', before, hbefore, hmade⟩ := ih hi
      exact ⟨o', before, hbefore.trans (List.prefix_append _ _), hmade⟩
    · -- It is the one that the last operation made.
      refine ⟨o, ops, List.prefix_rfl, ?_, h⟩
      have hlast : (after supply (ops ++ [o])).made.length ≤ (after supply ops).made.length + 1 := by
        rw [after_concat]
        have hstep := step_cases (after supply ops) o
        generalize (after supply ops).step o = s' at hstep
        cases hstep <;> simp
      omega

/-- The context with which a token came was the first to have it. -/
theorem Origin.spec (h : Origin supply ops i r) : ∃ c p, (after supply ops).made[i]? = some c ∧
    (after supply ops).made[r]? = some p ∧ c.token = p.token ∧ (after supply ops).Fresh r p := by
  induction h with
  | new hm =>
    obtain ⟨c, hc, hborn⟩ := hm.born
    cases hborn with
    | new _ hf => exact ⟨c, c, hc, hc, rfl, hf⟩
  | child hm =>
    obtain ⟨c, hc, hborn⟩ := hm.born
    cases hborn with
    | child _ _ _ hf => exact ⟨c, c, hc, hc, rfl, hf⟩
  | derive hm _ ih =>
    obtain ⟨c', p, hc', hp, ht, hf⟩ := ih
    obtain ⟨c, hc, hborn⟩ := hm.born
    cases hborn with
    | derive _ hj htoken =>
      rw [hc'] at hj
      cases hj
      exact ⟨c, p, hc, hp, htoken.trans ht, hf⟩
  | withToken hm _ ih =>
    obtain ⟨c', p, hc', hp, ht, hf⟩ := ih
    obtain ⟨c, hc, hborn⟩ := hm.born
    cases hborn with
    | withToken _ hj htoken =>
      rw [hc'] at hj
      cases hj
      exact ⟨c, p, hc, hp, htoken.trans ht, hf⟩

theorem Origin.maker (h : Origin supply ops i r) : MadeBy supply ops r .new ∨ ∃ k, MadeBy supply ops r (.child k) := by
  induction h with
  | new hm => exact .inl hm
  | child hm => exact .inr ⟨_, hm⟩
  | derive _ _ ih | withToken _ _ ih => exact ih

theorem exists_origin (h : i < (after supply ops).made.length) : ∃ r, Origin supply ops i r := by
  induction i using Nat.strongRecOn with
  | ind i ih =>
    obtain ⟨o, hm⟩ := exists_madeBy h
    obtain ⟨c, hc, hborn⟩ := hm.born
    cases hborn with
    | new _ _ => exact ⟨i, .new hm⟩
    | child _ _ _ _ => exact ⟨i, .child hm⟩
    | derive hj hp _ =>
      obtain ⟨r, hr⟩ := ih _ hj (List.getElem?_eq_some_iff.mp hp).1
      exact ⟨r, .derive hm hr⟩
    | withToken hk hp _ =>
      obtain ⟨r, hr⟩ := ih _ hk (List.getElem?_eq_some_iff.mp hp).1
      exact ⟨r, .withToken hm hr⟩

/-- A token came with one context only. -/
theorem Origin.eq_of_token_eq {r' : Nat} (h : Origin supply ops i r) (h' : Origin supply ops j r')
    (hc : (after supply ops).made[i]? = some c) (hp : (after supply ops).made[j]? = some p) (ht : c.token = p.token) :
    r = r' := by
  obtain ⟨c₁, o, hc₁, ho, hto, hfresh⟩ := h.spec
  obtain ⟨p₁, o', hp₁, ho', hto', hfresh'⟩ := h'.spec
  rw [hc] at hc₁
  rw [hp] at hp₁
  cases hc₁
  cases hp₁
  have heq : o.token = o'.token := hto.symm.trans (ht.trans hto')
  obtain hlt | heq' | hlt := Nat.lt_trichotomy r r'
  · exact absurd heq (hfresh' r o hlt ho)
  · exact heq'
  · exact absurd heq.symm (hfresh r' o' hlt ho')

/-- Two contexts have the same token just where they have it from the same context. -/
theorem token_eq_iff (hc : (after supply ops).made[i]? = some c) (hp : (after supply ops).made[j]? = some p) :
    c.token = p.token ↔ ∃ r, Origin supply ops i r ∧ Origin supply ops j r := by
  constructor
  · intro ht
    obtain ⟨r, hr⟩ := exists_origin (List.getElem?_eq_some_iff.mp hc).1
    obtain ⟨r', hr'⟩ := exists_origin (List.getElem?_eq_some_iff.mp hp).1
    obtain rfl := hr.eq_of_token_eq hr' hc hp ht
    exact ⟨r, hr, hr'⟩
  · rintro ⟨r, hr, hr'⟩
    obtain ⟨c₁, o, hc₁, ho, hto, -⟩ := hr.spec
    obtain ⟨p₁, o', hp₁, ho', hto', -⟩ := hr'.spec
    rw [hc] at hc₁
    rw [hp] at hp₁
    rw [ho] at ho'
    cases hc₁
    cases hp₁
    cases ho'
    exact hto.trans hto'.symm

/-- The token of a child has that of the other context as its parent, and is younger. -/
theorem MadeBy.child_spec (h : MadeBy supply ops r (.child k)) : ∃ c p, (after supply ops).made[r]? = some c ∧
    (after supply ops).made[k]? = some p ∧ (after supply ops).tokens.parent? c.token = some p.token ∧
    p.token < c.token := by
  obtain ⟨c, hc, hborn⟩ := h.born
  cases hborn with
  | child hk hparent hlt _ => exact ⟨c, _, hc, hk, hparent, hlt⟩

/-! ### The two forests are one -/

theorem Above.spec (h : Above supply ops j i) : ∃ p c, (after supply ops).made[j]? = some p ∧
    (after supply ops).made[i]? = some c ∧ (after supply ops).tokens.below p.token c.token = true := by
  induction h with
  | same hj hi =>
    obtain ⟨p, _, hp, -⟩ := hj.spec
    obtain ⟨c, _, hc, -⟩ := hi.spec
    refine ⟨p, c, hp, hc, ?_⟩
    rw [(token_eq_iff hp hc).mpr ⟨_, hj, hi⟩]
    exact Tokens.below_self _ _
  | child _ hm hi ih =>
    obtain ⟨p, c', hp, hc', hbelow⟩ := ih
    obtain ⟨c, o, hc, ho, ht, -⟩ := hi.spec
    obtain ⟨o₁, p₁, ho₁, hk, hparent, hlt⟩ := hm.child_spec
    rw [ho] at ho₁
    rw [hc'] at hk
    cases ho₁
    cases hk
    refine ⟨p, c, hp, hc, ?_⟩
    rw [ht]
    exact Tokens.below_of_parent hparent hlt hbelow

theorem below_iff_above (hp : (after supply ops).made[j]? = some p) (hc : (after supply ops).made[i]? = some c) :
    (after supply ops).tokens.below p.token c.token = true ↔ Above supply ops j i := by
  constructor
  · intro hbelow
    -- By induction on the token, which is that of the context with which it came.
    induction ht : c.token using Nat.strongRecOn generalizing i c with
    | ind t ih =>
      subst ht
      rcases Tokens.below_iff.mp hbelow with heq | ⟨t', hparent, hlt, hbelow'⟩
      · obtain ⟨r, hi, hj⟩ := (token_eq_iff hc hp).mp heq
        exact .same hj hi
      · obtain ⟨r, hr⟩ := exists_origin (List.getElem?_eq_some_iff.mp hc).1
        obtain ⟨c₁, o, hc₁, ho, hto, -⟩ := hr.spec
        rw [hc] at hc₁
        cases hc₁
        rw [hto] at hparent
        rcases hr.maker with hm | ⟨k, hm⟩
        · obtain ⟨o₁, ho₁, hborn⟩ := hm.born
          rw [ho] at ho₁
          cases ho₁
          cases hborn with
          | new hnone _ => exact nomatch hnone.symm.trans hparent
        · obtain ⟨o₁, p₁, ho₁, hk, hsome, -⟩ := hm.child_spec
          rw [ho] at ho₁
          cases ho₁
          cases hsome.symm.trans hparent
          exact .child (ih _ hlt hk hbelow' rfl) hm hr
  · intro habove
    obtain ⟨p₁, c₁, hp₁, hc₁, hbelow⟩ := habove.spec
    rw [hp] at hp₁
    rw [hc] at hc₁
    cases hp₁
    cases hc₁
    exact hbelow

end Contexts
end Relay
