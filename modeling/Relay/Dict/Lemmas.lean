import Relay.Dict

/-!
Look-ups in dictionaries: what binding and removing do to them, and that they determine a dictionary.
-/

namespace Relay

namespace Entries

theorem lookup_cons (k key value : String) (l : List (String × String)) :
    ((key, value) :: l).lookup k = if k = key then some value else l.lookup k := by
  rw [List.lookup_cons]
  split <;> rename_i h
  · simp [eq_of_beq h]
  · simp [ne_of_beq_false h]

theorem lookup_put (key value k : String) (l : List (String × String)) :
    (put key value l).lookup k = if k = key then some value else l.lookup k := by
  induction l with
  | nil => exact lookup_cons ..
  | cons e rest ih =>
    obtain ⟨k', v'⟩ := e
    unfold put
    split
    · exact lookup_cons ..
    · split
      · rename_i heq
        by_cases h : k = key <;> simp [lookup_cons, h, ← heq]
      · rename_i hne
        rw [lookup_cons, ih, lookup_cons]
        by_cases h : k = k'
        · have hk : k ≠ key := fun e => hne (e.symm.trans h)
          simp [h, h ▸ hk]
        · simp [h]

theorem lookup_filter_ne (key k : String) (l : List (String × String)) :
    (l.filter (·.1 != key)).lookup k = if k = key then none else l.lookup k := by
  induction l with
  | nil => simp
  | cons e rest ih =>
    obtain ⟨k', v'⟩ := e
    by_cases h' : k' = key
    · subst h'
      rw [List.filter_cons_of_neg (by simp), ih, lookup_cons]
      by_cases h : k = k' <;> simp [h]
    · have : (k' != key) = true := by simpa using h'
      rw [List.filter_cons_of_pos (by simpa using this), lookup_cons, ih, lookup_cons]
      by_cases h : k = k'
      · simp [h, h']
      · simp [h]

/-- Sorted entries with the same look-ups are the same. -/
theorem eq_of_lookup_eq {l m : List (String × String)} (hl : Sorted l) (hm : Sorted m)
    (h : ∀ k, l.lookup k = m.lookup k) : l = m := by
  have none_of {k : String} {l : List (String × String)} (hl : ∀ e ∈ l, k < e.1) :
      l.lookup k = none :=
    List.lookup_eq_none_iff.2 fun e he => by
      simpa using fun heq : k = e.1 => Std.lt_irrefl (heq ▸ hl e he)
  induction l generalizing m with
  | nil =>
    cases m with
    | nil => rfl
    | cons e m => have := h e.1; simp [lookup_cons e.1 e.1 e.2 m] at this
  | cons e l ih =>
    cases m with
    | nil => have := h e.1; simp [lookup_cons e.1 e.1 e.2 l] at this
    | cons f m =>
      obtain ⟨k, v⟩ := e
      obtain ⟨k', v'⟩ := f
      have ⟨hk, hl'⟩ := List.pairwise_cons.1 hl
      have ⟨hk', hm'⟩ := List.pairwise_cons.1 hm
      have hkk : k = k' := by
        by_cases hlt : k < k'
        · have := h k
          rw [none_of (l := (k', v') :: m), lookup_cons] at this
          · simp at this
          · intro e he
            rcases List.mem_cons.1 he with rfl | he
            · exact hlt
            · exact String.lt_trans hlt (hk' e he)
        · by_cases hgt : k' < k
          · have := h k'
            rw [none_of (l := (k, v) :: l), lookup_cons] at this
            · simp at this
            · intro e he
              rcases List.mem_cons.1 he with rfl | he
              · exact hgt
              · exact String.lt_trans hgt (hk e he)
          · exact Std.le_antisymm (String.not_lt.1 hgt) (String.not_lt.1 hlt)
      subst hkk
      have hv : v = v' := by simpa [lookup_cons] using h k
      subst hv
      have hlm (x : String) : l.lookup x = m.lookup x := by
        by_cases hx : x = k
        · rw [hx, none_of hk, none_of hk']
        · simpa [lookup_cons, hx] using h x
      rw [ih hl' hm' hlm]

end Entries

namespace Dict

@[simp] theorem get?_empty (k : String) : (∅ : Dict).get? k = none := rfl

theorem get?_insert (d : Dict) (key value k : String) :
    (d.insert key value).get? k = if k = key then some value else d.get? k :=
  Entries.lookup_put ..

theorem get?_erase (d : Dict) (key k : String) :
    (d.erase key).get? k = if k = key then none else d.get? k :=
  Entries.lookup_filter_ne ..

/-- Dictionaries with the same look-ups are equal. -/
theorem eq_of_get?_eq {d e : Dict} (h : ∀ k, d.get? k = e.get? k) : d = e := by
  obtain ⟨l, hl⟩ := d
  obtain ⟨m, hm⟩ := e
  have : l = m := Entries.eq_of_lookup_eq hl hm h
  subst this
  rfl

end Dict

end Relay
