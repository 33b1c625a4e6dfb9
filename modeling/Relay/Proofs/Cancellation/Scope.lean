import Relay.Proofs.Cancellation.Lineage

/-! Whom cancelling reaches. A context is cancelled if somebody has cancelled a context with its token, or with an
    ancestor of its token, at any time; it makes no difference which of the two was there first, and none who has
    been dropped since. So what is done to a child reaches neither the context that it was made from nor the other
    children of that one. -/

namespace Relay
namespace Contexts
variable {s s' : Contexts} {o : Op} {ops : List Op} {supply : Supply} {i j k r : Nat} {c p : Context} {t : Token}

/-- Context `i` was cancelled in the course of the run, while it was held. -/
def Called (supply : Supply) (ops : List Op) (i : Nat) : Prop :=
  ∃ before, before ++ [.cancel i] <+: ops ∧ ((after supply before).held? i).isSome = true

theorem called_concat : Called supply (ops ++ [o]) i ↔
    Called supply ops i ∨ o = .cancel i ∧ ((after supply ops).held? i).isSome = true := by
  constructor
  · rintro ⟨before, hbefore, hheld⟩
    rcases List.prefix_concat_iff.mp hbefore with heq | hbefore
    · obtain ⟨rfl, ho⟩ := List.append_inj' heq rfl
      cases ho
      exact .inr ⟨rfl, hheld⟩
    · exact .inl ⟨before, hbefore, hheld⟩
  · rintro (⟨before, hbefore, hheld⟩ | ⟨rfl, hheld⟩)
    · exact ⟨before, hbefore.trans (List.prefix_append _ _), hheld⟩
    · exact ⟨ops, List.prefix_rfl, hheld⟩

theorem Called.made (h : Called supply ops i) : ∃ c, (after supply ops).made[i]? = some c := by
  obtain ⟨before, hbefore, hheld⟩ := h
  obtain ⟨c, hc⟩ := Option.isSome_iff_exists.mp hheld
  exact ⟨c, (grows_after supply ((List.prefix_append _ _).trans hbefore)).getElem? (made_of_held? hc)⟩

/-! ### Tokens -/

/-- One of the contexts that were cancelled has this token, or an ancestor of it. -/
def Reached (supply : Supply) (ops : List Op) (s : Contexts) (t : Token) : Prop :=
  ∃ j p, Called supply ops j ∧ s.made[j]? = some p ∧ s.tokens.below p.token t = true

/-- What comes later makes no difference to a token that is there. -/
theorem reached_grows (hg : (after supply ops).Grows s') (ht : t < (after supply ops).tokens.next) :
    Reached supply ops s' t ↔ Reached supply ops (after supply ops) t := by
  refine exists_congr fun j => exists_congr fun p => and_congr_right fun hcalled => ?_
  obtain ⟨c, hc⟩ := hcalled.made
  rw [hg.below ht, hg.getElem? hc, hc]

/-- A token that was made last has no context yet that was cancelled. -/
theorem reached_next (hg : (after supply ops).Grows s') : Reached supply ops s' (after supply ops).tokens.next ↔
    ∃ u, s'.tokens.parent? (after supply ops).tokens.next = some u ∧ u < (after supply ops).tokens.next ∧
      Reached supply ops (after supply ops) u := by
  constructor
  · rintro ⟨j, p, hcalled, hp, hbelow⟩
    obtain ⟨c, hc⟩ := hcalled.made
    rw [hg.getElem? hc] at hp
    cases hp
    rcases Tokens.below_iff.mp hbelow with heq | ⟨u, hu, hlt, hbelow⟩
    · exact absurd (rooted_after supply ops p (List.mem_of_getElem? hc)) (Nat.not_lt_of_le (Nat.le_of_eq heq))
    · exact ⟨u, hu, hlt, (reached_grows hg hlt).mp ⟨j, p, hcalled, hg.getElem? hc, hbelow⟩⟩
  · rintro ⟨u, hu, hlt, hreached⟩
    obtain ⟨j, p, hcalled, hp, hbelow⟩ := (reached_grows hg hlt).mpr hreached
    exact ⟨j, p, hcalled, hp, Tokens.below_of_parent hu hlt hbelow⟩

/-- Unless the operation cancels a context, it reaches none. -/
theorem reached_concat (h : ∀ i, o = .cancel i → (after supply ops).held? i = none) :
    Reached supply (ops ++ [o]) s' t ↔ Reached supply ops s' t := by
  refine exists_congr fun j => exists_congr fun p => and_congr_left' ?_
  rw [called_concat, or_iff_left]
  rintro ⟨rfl, hheld⟩
  simp [h j rfl] at hheld

/-- What cancels a context reaches its token and all that descend from it. -/
theorem reached_cancel (hc : (after supply ops).held? i = some c)
    (hs : s' = { after supply ops with tokens := (after supply ops).tokens.cancel c.token }) :
    Reached supply (ops ++ [.cancel i]) s' t ↔
      Reached supply ops s' t ∨ (after supply ops).tokens.below c.token t = true := by
  subst hs
  have hmade := made_of_held? hc
  constructor
  · rintro ⟨j, p, hcalled, hp, hbelow⟩
    rcases called_concat.mp hcalled with hcalled | ⟨heq, -⟩
    · exact .inl ⟨j, p, hcalled, hp, hbelow⟩
    · cases heq
      cases hmade.symm.trans hp
      rw [Tokens.below_cancel] at hbelow
      exact .inr hbelow
  · rintro (⟨j, p, hcalled, hp, hbelow⟩ | hbelow)
    · exact ⟨j, p, called_concat.mpr (.inl hcalled), hp, hbelow⟩
    · refine ⟨i, c, called_concat.mpr (.inr ⟨rfl, by simp [hc]⟩), hmade, ?_⟩
      rw [Tokens.below_cancel]
      exact hbelow

/-- A token is cancelled if somebody has cancelled a context with that token or an ancestor of it. -/
theorem isCancelled_iff_reached (supply : Supply) (ops : List Op) (t : Token) (ht : t < (after supply ops).tokens.next) :
    (after supply ops).tokens.isCancelled t = true ↔ Reached supply ops (after supply ops) t := by
  induction ops using List.reverseRecOn generalizing t with
  | nil => exact absurd ht (Nat.not_lt_zero t)
  | append_singleton ops o ih =>
    have hgrows := grows_step (after supply ops) o
    have hstep := step_cases (after supply ops) o
    rw [after_concat] at ht ⊢
    generalize (after supply ops).step o = s' at hgrows hstep ht
    have same : (∀ i, o = .cancel i → (after supply ops).held? i = none) →
        (Reached supply (ops ++ [o]) s' t ↔ Reached supply ops s' t) := reached_concat
    cases hstep with
    | stays hnone => rw [same hnone, ih t ht]
    | derive _ _ | withToken _ _ | drop => rw [same nofun, reached_grows hgrows ht, ← ih t ht]
    | new =>
      rw [same nofun, Tokens.isCancelled_fresh]
      rw [Tokens.next_fresh] at ht
      rcases Nat.lt_succ_iff_lt_or_eq.mp ht with hlt | rfl
      · rw [reached_grows hgrows hlt, ih t hlt]
      · rw [reached_next hgrows, Tokens.isCancelled_of_next_le (Nat.le_refl _)]
        simp [Tokens.parent?_fresh_next]
    | @child i c hc =>
      have hroot := rooted_after supply ops c (List.mem_of_getElem? (made_of_held? hc))
      rw [same nofun, Tokens.isCancelled_derive]
      rw [Tokens.next_derive] at ht
      rcases Nat.lt_succ_iff_lt_or_eq.mp ht with hlt | rfl
      · rw [if_neg (Nat.ne_of_lt hlt), reached_grows hgrows hlt, ih t hlt]
      · rw [if_pos rfl, reached_next hgrows, ih c.token hroot]
        simp [Tokens.parent?_derive_next, hroot]
    | @cancel i c hc =>
      have hlt : t < (after supply ops).tokens.next := by simpa using ht
      rw [Tokens.isCancelled_cancel, Bool.or_eq_true, ih t hlt, reached_cancel hc rfl, reached_grows hgrows hlt]
      simp [hlt]

/-! ### Contexts -/

theorem isCancelled_of_made (h : s.made[i]? = some c) : s.isCancelled i = s.tokens.isCancelled c.token := by
  simp [isCancelled, h, Context.isCancelled]

/-- Cancelling a context reaches those that it is above, if it is held. -/
theorem isCancelled_cancel (hc : (after supply ops).made[i]? = some c) (j : Nat) :
    (after supply (ops ++ [.cancel j])).isCancelled i = true ↔ (after supply ops).isCancelled i = true ∨
      ((after supply ops).held? j).isSome = true ∧ Above supply ops j i := by
  rw [after_concat]
  cases hj : (after supply ops).held? j with
  | none => simp [step, hj]
  | some p =>
    have hlt := rooted_after supply ops c (List.mem_of_getElem? hc)
    have hmade : ((after supply ops).step (.cancel j)).made[i]? = some c := (grows_step _ _).getElem? hc
    have htokens : ((after supply ops).step (.cancel j)).tokens = (after supply ops).tokens.cancel p.token := by
      simp [step, hj]
    rw [isCancelled_of_made hmade, isCancelled_of_made hc, htokens, Tokens.isCancelled_cancel, Bool.or_eq_true,
      ← below_iff_above (made_of_held? hj) hc]
    simp [hlt]

theorem Above.made (h : Above supply ops j i) : ∃ c, (after supply ops).made[i]? = some c := by
  obtain ⟨_, c, _, hc, _⟩ := h.spec
  exact ⟨c, hc⟩

/-- A context that is not reached is cancelled afterwards if it was before. -/
theorem isCancelled_cancel_of_not_above (hc : (after supply ops).made[i]? = some c) (h : ¬Above supply ops j i) :
    (after supply (ops ++ [.cancel j])).isCancelled i = (after supply ops).isCancelled i := by
  rw [Bool.eq_iff_iff, isCancelled_cancel hc, or_iff_left]
  rintro ⟨-, habove⟩
  exact h habove

/-- A child is above no context that has the token of its parent or an ancestor of that. -/
theorem not_above_of_parent (hm : MadeBy supply ops r (.child k)) (hj : Origin supply ops j r)
    (hi : Above supply ops i k) : ¬Above supply ops j i := by
  intro h
  obtain ⟨q, q', hq, hq', -, hlt⟩ := hm.child_spec
  obtain ⟨p, o, hp, ho, ht, -⟩ := hj.spec
  rw [hq] at ho
  cases ho
  obtain ⟨c, hc⟩ := h.made
  have hup := Tokens.below_le ((below_iff_above hc hq').mpr hi)
  have hdown := Tokens.below_le ((below_iff_above hp hc).mpr h)
  rw [ht] at hdown
  exact absurd hlt (Nat.not_lt_of_le (Nat.le_trans hdown hup))

/-- Of two children of contexts that share a token neither is above the other. -/
theorem not_above_of_siblings {k' r' o : Nat} (hm : MadeBy supply ops r (.child k)) (hm' : MadeBy supply ops r' (.child k'))
    (hk : Origin supply ops k o) (hk' : Origin supply ops k' o) (hne : r ≠ r') : ¬Above supply ops r r' := by
  intro h
  obtain ⟨c, p, hc, hp, -, hlt⟩ := hm.child_spec
  obtain ⟨c', p', hc', hp', hparent', -⟩ := hm'.child_spec
  have hshared : p.token = p'.token := (token_eq_iff hp hp').mpr ⟨o, hk, hk'⟩
  rcases Tokens.below_iff.mp ((below_iff_above hc hc').mpr h) with heq | ⟨t, ht, -, hbelow⟩
  · exact hne ((Origin.child hm).eq_of_token_eq (.child hm') hc hc' heq.symm)
  · cases hparent'.symm.trans ht
    have hle := Tokens.below_le hbelow
    rw [← hshared] at hle
    exact absurd hlt (Nat.not_lt_of_le hle)

/-- What is below one of the two is not below the other. -/
theorem not_above_of_sibling {k' r' o : Nat} (hm : MadeBy supply ops r (.child k)) (hm' : MadeBy supply ops r' (.child k'))
    (hk : Origin supply ops k o) (hk' : Origin supply ops k' o) (hne : r ≠ r') (hj : Origin supply ops j r)
    (hi : Above supply ops r' i) : ¬Above supply ops j i := by
  intro h
  obtain ⟨c, -, hc, -⟩ := hm.child_spec
  obtain ⟨c', -, hc', -⟩ := hm'.child_spec
  obtain ⟨q, o', hq, ho', ht, -⟩ := hj.spec
  rw [hc] at ho'
  cases ho'
  obtain ⟨x, hx⟩ := h.made
  have hboth := Tokens.below_total (ht ▸ (below_iff_above hq hx).mpr h) ((below_iff_above hc' hx).mpr hi)
  rcases hboth with hbelow | hbelow
  · exact not_above_of_siblings hm hm' hk hk' hne ((below_iff_above hc hc').mp hbelow)
  · exact not_above_of_siblings hm' hm hk' hk hne.symm ((below_iff_above hc' hc).mp hbelow)

/-! ### Dropping -/

/-- The same contexts and tokens, with the same contexts held but for `j`. -/
def SameBut (j : Nat) (s s' : Contexts) : Prop :=
  ∃ dropped : List Nat, s' = { s with dropped } ∧ ∀ k, k ≠ j → (k ∈ dropped ↔ k ∈ s.dropped)

theorem sameBut_drop (s : Contexts) (j : Nat) : SameBut j s (s.step (.drop j)) := by
  cases hj : s.held? j with
  | none => exact ⟨s.dropped, by simp [step, hj], by simp⟩
  | some c => exact ⟨j :: s.dropped, by simp [step, hj], fun k hk => by simp [hk]⟩

/-- What is not done to context `j` is done alike, whether or not that is held. -/
theorem SameBut.step (h : SameBut j s s') (ho : j ∉ o.uses) : SameBut j (s.step o) (s'.step o) := by
  obtain ⟨dropped, rfl, hdropped⟩ := h
  have hheld : ∀ k, k ∈ o.uses → ({ s with dropped } : Contexts).held? k = s.held? k := by
    intro k hk
    have hne : k ≠ j := by
      rintro rfl
      exact ho hk
    simp only [held?, hdropped k hne]
  cases o with
  | new => exact ⟨dropped, rfl, hdropped⟩
  | child i | derive i d | cancel i =>
    simp only [Contexts.step, hheld i List.mem_cons_self]
    split <;> exact ⟨dropped, rfl, hdropped⟩
  | withToken i k =>
    simp only [Contexts.step, hheld i List.mem_cons_self, hheld k (by simp [Op.uses])]
    split <;> exact ⟨dropped, rfl, hdropped⟩
  | drop i =>
    simp only [Contexts.step, hheld i List.mem_cons_self]
    split
    · exact ⟨dropped, rfl, hdropped⟩
    · refine ⟨i :: dropped, rfl, ?_⟩
      intro k hk
      simp [hdropped k hk]

theorem SameBut.run (h : SameBut j s s') (ho : ∀ o ∈ ops, j ∉ o.uses) : SameBut j (s.run ops) (s'.run ops) := by
  induction ops generalizing s s' with
  | nil => exact h
  | cons o ops ih =>
    obtain ⟨hfirst, hrest⟩ := List.forall_mem_cons.mp ho
    exact ih (h.step hfirst) hrest

theorem SameBut.isCancelled (h : SameBut j s s') (i : Nat) : s'.isCancelled i = s.isCancelled i := by
  obtain ⟨dropped, rfl, -⟩ := h
  rfl

/-! ### Whom cancelling reaches -/

/-- What holds of the contexts that these operations make, dropped or not. -/
structure Scoped (supply : Supply) (ops : List Op) : Prop where
  /-- A context is cancelled just where one was cancelled that has its token or an ancestor of its token. -/
  status : ∀ i, i < (after supply ops).made.length →
    ((after supply ops).isCancelled i = true ↔ ∃ j, Called supply ops j ∧ Above supply ops j i)
  /-- Two contexts share a token just where they have it from the same context, new or a child. -/
  shares : ∀ {i j : Nat} {c p : Context}, (after supply ops).made[i]? = some c → (after supply ops).made[j]? = some p →
    (c.token = p.token ↔ ∃ r, Origin supply ops i r ∧ Origin supply ops j r)
  cancels : ∀ i, i < (after supply ops).made.length → ∀ j,
    ((after supply (ops ++ [.cancel j])).isCancelled i = true ↔ (after supply ops).isCancelled i = true ∨
      ((after supply ops).held? j).isSome = true ∧ Above supply ops j i)
  /-- Cancelling what has the token of a child reaches none with that of the parent, or an ancestor of that. -/
  parent : ∀ {r k j i : Nat}, MadeBy supply ops r (.child k) → Origin supply ops j r → Above supply ops i k →
    (after supply (ops ++ [.cancel j])).isCancelled i = (after supply ops).isCancelled i
  /-- Nor does it reach another child of the parent, or what descends from that. -/
  sibling : ∀ {r r' k k' o j i : Nat}, MadeBy supply ops r (.child k) → MadeBy supply ops r' (.child k') →
    Origin supply ops k o → Origin supply ops k' o → r ≠ r' → Origin supply ops j r → Above supply ops r' i →
    (after supply (ops ++ [.cancel j])).isCancelled i = (after supply ops).isCancelled i
  /-- That a context is dropped makes no difference to any, now or later. -/
  drop : ∀ j later, (∀ o ∈ later, j ∉ Op.uses o) → ∀ i,
    (after supply (ops ++ .drop j :: later)).isCancelled i = (after supply (ops ++ later)).isCancelled i
  remains : ∀ i, (after supply ops).isCancelled i = true → ∀ later,
    (after supply (ops ++ later)).isCancelled i = true

/-- Whatever is done with contexts, one is cancelled just where somebody has cancelled, before or since it was made, a
    context with its token or with an ancestor of its token. Tokens have a parent only where they come with a child,
    and all other derivations give on the token that they are given. -/
theorem cancellation_scope (supply : Supply) (ops : List Op) : Scoped supply ops where
  status i hi := by
    have hc := List.getElem?_eq_getElem hi
    rw [isCancelled_of_made hc,
      isCancelled_iff_reached supply ops _ (rooted_after supply ops _ (List.mem_of_getElem? hc))]
    constructor
    · rintro ⟨j, p, hcalled, hp, hbelow⟩
      exact ⟨j, hcalled, (below_iff_above hp hc).mp hbelow⟩
    · rintro ⟨j, hcalled, habove⟩
      obtain ⟨p, hp⟩ := hcalled.made
      exact ⟨j, p, hcalled, hp, (below_iff_above hp hc).mpr habove⟩
  shares hc hp := token_eq_iff hc hp
  cancels _ hi j := isCancelled_cancel (List.getElem?_eq_getElem hi) j
  parent hm hj hi := by
    obtain ⟨c, _, hc, -⟩ := hi.spec
    exact isCancelled_cancel_of_not_above hc (not_above_of_parent hm hj hi)
  sibling hm hm' hk hk' hne hj hi := by
    obtain ⟨c, hc⟩ := hi.made
    exact isCancelled_cancel_of_not_above hc (not_above_of_sibling hm hm' hk hk' hne hj hi)
  drop j later hlater i := by
    rw [after_append, after_append]
    exact ((sameBut_drop _ j).run hlater).isCancelled i
  remains i hi later := by
    obtain ⟨c, hc, hcancelled⟩ := Option.any_eq_true _ _ |>.mp hi
    have hgrows := grows_after supply (List.prefix_append ops later)
    rw [isCancelled_of_made (hgrows.getElem? hc)]
    exact hgrows.cancelled _ hcancelled

/-- Of two children one is cancelled through a third context that has its token. -/
example : (List.range 4).map (after supply [.new, .child 0, .child 0, .withToken 0 1, .cancel 3, .drop 3]).isCancelled =
    [false, true, false, true] := by cbv

end Contexts
end Relay
