import Relay.Cancellation

/-!
What the operations on tokens do to the question whether a token has been cancelled.
-/

namespace Relay.Tokens

/-- The tokens that have been made are those before the next one. -/
theorem isCancelled_of_next_le {s : Tokens} {t : Token} (h : s.next ≤ t) : s.isCancelled t = false := by
  simp [isCancelled, List.getElem?_eq_none (show s.nodes.length ≤ t from h)]

theorem isCancelled_fresh (s : Tokens) (t : Token) : s.fresh.isCancelled t = s.isCancelled t := by
  rcases Nat.lt_trichotomy t s.next with h | rfl | h
  · simp [isCancelled, fresh, List.getElem?_append_left (show t < s.nodes.length from h)]
  · rw [isCancelled_of_next_le (Nat.le_refl _)]
    simp [isCancelled, fresh, next]
  · rw [isCancelled_of_next_le (Nat.le_of_lt h), isCancelled_of_next_le]
    simpa [next, fresh] using Nat.succ_le_of_lt h

/-- A token that is derived is cancelled if the one is that it is derived from. -/
theorem isCancelled_derive (s : Tokens) (p t : Token) :
    (s.derive p).isCancelled t = if t = s.next then s.isCancelled p else s.isCancelled t := by
  rcases Nat.lt_trichotomy t s.next with h | rfl | h
  · simp [isCancelled, derive, List.getElem?_append_left (show t < s.nodes.length from h),
      Nat.ne_of_lt h]
  · simp [isCancelled, derive, next]
  · rw [if_neg (Nat.ne_of_gt h), isCancelled_of_next_le (Nat.le_of_lt h), isCancelled_of_next_le]
    simpa [next, derive] using Nat.succ_le_of_lt h

/-- Cancelling a token cancels what is below it, and nothing else. -/
theorem isCancelled_cancel (s : Tokens) (t i : Token) :
    (s.cancel t).isCancelled i = (s.isCancelled i || (decide (i < s.next) && s.below t i)) := by
  by_cases h : i < s.nodes.length
  · by_cases hb : s.below t i = true <;>
      simp [isCancelled, cancel, next, h, hb]
  · simp [isCancelled, cancel, next, h]

/-- A token stays cancelled. -/
theorem isCancelled_cancel_of_isCancelled {s : Tokens} {i : Token} (t : Token)
    (h : s.isCancelled i = true) : (s.cancel t).isCancelled i = true := by
  simp [isCancelled_cancel, h]

/-! ### The forest -/

theorem below_le {s : Tokens} {t i : Token} (h : s.below t i = true) : t ≤ i := by
  induction i using Nat.strongRecOn with
  | ind i ih =>
    rw [below, Bool.or_eq_true, beq_iff_eq] at h
    rcases h with rfl | h
    · exact Nat.le_refl _
    · split at h
      · split at h
        · rename_i hlt
          exact Nat.le_trans (ih _ hlt h) (Nat.le_of_lt hlt)
        · cases h
      · cases h

theorem below_trans {s : Tokens} {t j i : Token} (htj : s.below t j = true) (hji : s.below j i = true) :
    s.below t i = true := by
  induction i using Nat.strongRecOn with
  | ind i ih =>
    rw [below, Bool.or_eq_true, beq_iff_eq] at hji
    rcases hji with rfl | h
    · exact htj
    · rw [below, Bool.or_eq_true]
      right
      split at h
      · rename_i p c hn
        split at h
        · rename_i hlt
          simp only [if_pos hlt]
          exact ih _ hlt h
        · cases h
      · cases h

/-- What is below what depends on the parents only. -/
theorem below_congr {s s' : Tokens} {t i : Token}
    (h : ∀ j, j ≤ i → (s'.nodes[j]?).map (·.parent) = (s.nodes[j]?).map (·.parent)) : s'.below t i = s.below t i := by
  induction i using Nat.strongRecOn with
  | ind i ih =>
    rw [below, below]
    congr 1
    have hi := h i (Nat.le_refl i)
    cases hn : s.nodes[i]? with
    | none =>
      rw [hn, Option.map_none, Option.map_eq_none_iff] at hi
      rw [hi]
    | some n =>
      rw [hn, Option.map_some] at hi
      obtain ⟨n', hn', hp⟩ := Option.map_eq_some_iff.mp hi
      obtain ⟨parent, c⟩ := n
      obtain ⟨parent', c'⟩ := n'
      obtain rfl : parent' = parent := hp
      rw [hn']
      cases parent' with
      | none => rfl
      | some p =>
        dsimp only
        split
        · rename_i hlt
          exact ih p hlt fun j hj => h j (Nat.le_trans hj (Nat.le_of_lt hlt))
        · rfl

theorem below_cancel {s : Tokens} {t u i : Token} : (s.cancel u).below t i = s.below t i := by
  refine below_congr fun j _ => ?_
  simp only [cancel, List.getElem?_mapIdx, Option.map_map]
  refine congrArg (Option.map · _) (funext fun n => ?_)
  dsimp only [Function.comp]
  split <;> rfl

theorem below_append {s : Tokens} {t i : Token} {n : TokenNode} (hi : i < s.next) :
    (⟨s.nodes ++ [n]⟩ : Tokens).below t i = s.below t i :=
  below_congr fun _ hj => by rw [List.getElem?_append_left (Nat.lt_of_le_of_lt hj hi)]

theorem lt_next_derive {s : Tokens} {t : Token} : s.next < (s.derive t).next := by
  simp [derive, next]

/-- A token that is derived is below the one that it is derived from. -/
theorem below_derive {s : Tokens} {t : Token} (ht : t < s.next) : (s.derive t).below t s.next = true := by
  have hget : (s.derive t).nodes[s.next]? = some ⟨some t, s.isCancelled t⟩ := List.getElem?_concat_length
  rw [below, hget]
  dsimp only
  rw [if_pos ht, below, beq_self_eq_true, Bool.true_or, Bool.or_true]

/-- Whatever is below a cancelled token is cancelled as well. -/
def Closed (s : Tokens) : Prop :=
  ∀ {t i : Token}, s.isCancelled t = true → i < s.next → s.below t i = true → s.isCancelled i = true

theorem closed_empty : ({} : Tokens).Closed := fun h _ _ => by cases h

/-- Another token, cancelled from the start if the one is that it is derived from. -/
theorem Closed.append {s : Tokens} {parent : Option Token} {c : Bool} (h : s.Closed)
    (hc : ∀ p, parent = some p → s.isCancelled p = true → c = true) : (⟨s.nodes ++ [⟨parent, c⟩]⟩ : Tokens).Closed := by
  intro t i ht hi hb
  have old : ∀ {j : Token}, j < s.next → (⟨s.nodes ++ [⟨parent, c⟩]⟩ : Tokens).isCancelled j = s.isCancelled j :=
    fun hj => by rw [isCancelled, isCancelled, List.getElem?_append_left hj]
  by_cases hi' : i < s.next
  · have hb' : s.below t i = true := below_append hi' ▸ hb
    rw [old (Nat.lt_of_le_of_lt (below_le hb') hi')] at ht
    rw [old hi']
    exact h ht hi' hb'
  · obtain rfl : i = s.next := by
      replace hi : i < (s.nodes ++ [(⟨parent, c⟩ : TokenNode)]).length := hi
      rw [List.length_append] at hi
      exact Nat.le_antisymm (Nat.le_of_lt_succ hi) (Nat.le_of_not_lt hi')
    have hget : (s.nodes ++ [(⟨parent, c⟩ : TokenNode)])[s.next]? = some ⟨parent, c⟩ := List.getElem?_concat_length
    rw [below, Bool.or_eq_true, beq_iff_eq] at hb
    rcases hb with rfl | hb
    · exact ht
    · rw [isCancelled]
      simp only [hget] at hb ⊢
      cases parent with
      | none => cases hb
      | some p =>
        dsimp only at hb
        split at hb
        · rename_i hp
          rw [below_append hp] at hb
          rw [old (Nat.lt_of_le_of_lt (below_le hb) hp)] at ht
          exact hc p rfl (h ht hp hb)
        · cases hb

theorem Closed.fresh {s : Tokens} (h : s.Closed) : s.fresh.Closed := h.append fun _ hp _ => by cases hp

theorem Closed.derive {s : Tokens} (h : s.Closed) (t : Token) : (s.derive t).Closed := h.append fun _ hp hc => by
  cases hp
  exact hc

theorem Closed.cancel {s : Tokens} (h : s.Closed) (t : Token) : (s.cancel t).Closed := by
  intro u i hu hi hb
  rw [below_cancel] at hb
  replace hi : i < s.next := by simpa [Tokens.cancel, next] using hi
  rw [isCancelled_cancel, Bool.or_eq_true, Bool.and_eq_true, decide_eq_true_eq] at hu ⊢
  rcases hu with hu | ⟨-, hu⟩
  · exact .inl (h hu hi hb)
  · exact .inr ⟨hi, below_trans hu hb⟩

/-- A token that is cancelled already is cancelled to no effect. -/
theorem Closed.cancel_eq {s : Tokens} {t : Token} (h : s.Closed) (ht : s.isCancelled t = true) : s.cancel t = s := by
  refine congrArg Tokens.mk (List.ext_getElem? fun i => ?_)
  rw [List.getElem?_mapIdx]
  cases hn : s.nodes[i]? with
  | none => rfl
  | some n =>
    rw [Option.map_some]
    split
    · rename_i hb
      have hi : s.isCancelled i = true := h ht (List.getElem?_eq_some_iff.mp hn).1 hb
      rw [isCancelled, hn] at hi
      exact congrArg some (by rw [← show n.cancelled = true from hi])
    · rfl

end Relay.Tokens
