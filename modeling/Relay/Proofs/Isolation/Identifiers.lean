import Relay.Trace.Parent

/-! What is written for an identifier. A trace parent that has been written is read back as it was, and
    the text of a random identifier is never taken for one. -/

namespace Relay

namespace Text

theorem isBlank_of_isLowerHex {c : Char} (h : isLowerHex c = true) : isBlank c = false := by
  simp only [isLowerHex, Bool.or_eq_true, Bool.and_eq_true, decide_eq_true_eq, Char.le_def, UInt32.le_iff_toNat_le] at h
  have hn : c.toNat = c.val.toNat := rfl
  simp only [isBlank, hn, Bool.or_eq_false_iff, Bool.and_eq_false_iff, decide_eq_false_iff_not, beq_eq_false_iff_ne,
    ne_eq]
  simp at h
  omega

theorem ne_dash_of_isLowerHex {c : Char} (h : isLowerHex c = true) : c ≠ '-' := by
  rintro rfl
  exact absurd h (by decide)

theorem dropWhile_of_first {p : Char → Bool} {l : List Char} (h : ∀ c ∈ l.head?, p c = false) :
    l.dropWhile p = l := by
  cases l with
  | nil => rfl
  | cons c l => exact List.dropWhile_cons_of_neg (ne_true_of_eq_false (h c rfl))

/-- A text without white space has none at its ends. -/
theorem trim_of_forall {cs : List Char} (h : ∀ c ∈ cs, isBlank c = false) : trim cs = cs := by
  rw [trim, dropWhile_of_first fun c hc => h c (List.mem_of_mem_head? hc),
    dropWhile_of_first fun c hc => h c (List.mem_reverse.mp (List.mem_of_mem_head? hc)), List.reverse_reverse]

theorem fields_of_not_mem {sep : Char} {l : List Char} (h : sep ∉ l) : fields sep l = [l] := by
  induction l with
  | nil => rfl
  | cons c l ih =>
    rw [List.mem_cons, not_or] at h
    rw [fields, if_neg (Ne.symm h.1), ih h.2]

theorem fields_append {sep : Char} {l rest : List Char} (h : sep ∉ l) :
    fields sep (l ++ sep :: rest) = l :: fields sep rest := by
  induction l with
  | nil => simp [fields]
  | cons c l ih =>
    rw [List.mem_cons, not_or] at h
    rw [List.cons_append, fields, if_neg (Ne.symm h.1), ih h.2]

end Text

open Text

/-- The identifier that stands for all that were drawn. -/
def Uuid.mask : Uuid := ⟨0, 0, 0, 0⟩

namespace HexId
variable {n : Nat}

theorem ofDigits?_digits (i : HexId n) : ofDigits? n i.digits = some i := dif_pos i.valid

theorem isLowerHex (i : HexId n) {c : Char} (h : c ∈ i.digits) : Text.isLowerHex c = true := i.valid.2.1 c h

theorem dash_not_mem (i : HexId n) : '-' ∉ i.digits := fun h => ne_dash_of_isLowerHex (i.isLowerHex h) rfl

end HexId

namespace TraceParent

/-- The flag byte that is written is read back. -/
theorem flags?_hexDigits (f : UInt8) : flags? (hexDigits 2 f.toNat) = some f := by
  have hplus : ∀ n : Fin 16, hexDigit n ≠ '+' := by decide
  have hbyte : UInt8.ofNat (16 * (f.toNat / 16 % 16) + f.toNat % 16) = f := by
    have hf := f.toNat_lt
    rw [show 16 * (f.toNat / 16 % 16) + f.toNat % 16 = f.toNat by omega, UInt8.ofNat_toNat]
  simp only [hexDigits, List.nil_append, List.cons_append]
  rw [flags?, if_neg (hplus _), hexValue?_hexDigit, hexValue?_hexDigit]
  exact congrArg some hbyte

theorem isBlank_of_mem_chars {p : TraceParent} {c : Char} (hc : c ∈ p.chars) : isBlank c = false := by
  simp only [chars, List.mem_append, List.mem_cons, List.cons_append] at hc
  rcases hc with rfl | rfl | rfl | (hc | rfl | hc) | rfl | hc
  · decide
  · decide
  · decide
  · exact isBlank_of_isLowerHex (p.traceId.isLowerHex hc)
  · decide
  · exact isBlank_of_isLowerHex (p.spanId.isLowerHex hc)
  · decide
  · exact isBlank_of_isLowerHex (isLowerHex_of_mem_hexDigits hc)

/-- What is written has the fields that were put into it, and no white space around them. -/
theorem fields_render (p : TraceParent) : fields '-' (trim p.render.toList) =
    [['0', '0'], p.traceId.digits, p.spanId.digits, hexDigits 2 p.flags.toNat] := by
  have hflags : '-' ∉ hexDigits 2 p.flags.toNat := fun h =>
    ne_dash_of_isLowerHex (isLowerHex_of_mem_hexDigits h) rfl
  rw [render, String.toList_ofList, trim_of_forall fun _ => isBlank_of_mem_chars,
    show p.chars = ['0', '0'] ++ '-' :: (p.traceId.digits ++ '-' :: (p.spanId.digits
      ++ '-' :: hexDigits 2 p.flags.toNat)) by simp [chars],
    fields_append (by decide), fields_append p.traceId.dash_not_mem, fields_append p.spanId.dash_not_mem,
    fields_of_not_mem hflags]

/-- What is written is read back. -/
theorem parse_render (p : TraceParent) : parse p.render = .ok p := by
  rw [parse, fields_render]
  show ofFields _ _ _ _ = _
  rw [ofFields, if_neg (by decide)]
  simp only [HexId.ofDigits?_digits, flags?_hexDigits]

/-- The text of a random identifier has five fields, so it is no trace parent. -/
theorem parse_text (u : Uuid) : ∃ e, parse u.text = .error e := by
  have hhex : ∀ {l : List Char} {c : Char}, l ⊆ u.digits → c ∈ l → Text.isLowerHex c = true := fun hl hc =>
    Uuid.isLowerHex_of_mem_digits (hl hc)
  have hdash : ∀ {l : List Char}, l ⊆ u.digits → '-' ∉ l := fun hl h => ne_dash_of_isLowerHex (hhex hl h) rfl
  have hpiece : ∀ m n : Nat, (u.digits.drop m).take n ⊆ u.digits := fun m n =>
    List.Subset.trans (List.take_subset _ _) (List.drop_subset _ _)
  have hend : u.digits.drop 20 ⊆ u.digits := List.drop_subset _ _
  have hstart : u.digits.take 8 ⊆ u.digits := List.take_subset _ _
  have hblank : ∀ c ∈ u.text.toList, isBlank c = false := fun c hc => by
    simp only [Uuid.text, String.toList_ofList, List.mem_append, List.mem_cons, List.append_assoc,
      List.cons_append] at hc
    rcases hc with hc | rfl | hc | rfl | hc | rfl | hc | rfl | hc
    · exact isBlank_of_isLowerHex (hhex hstart hc)
    · decide
    · exact isBlank_of_isLowerHex (hhex (hpiece 8 4) hc)
    · decide
    · exact isBlank_of_isLowerHex (hhex (hpiece 12 4) hc)
    · decide
    · exact isBlank_of_isLowerHex (hhex (hpiece 16 4) hc)
    · decide
    · exact isBlank_of_isLowerHex (hhex hend hc)
  have hfields : fields '-' u.text.toList = [u.digits.take 8, (u.digits.drop 8).take 4, (u.digits.drop 12).take 4,
      (u.digits.drop 16).take 4, u.digits.drop 20] := by
    rw [Uuid.text, String.toList_ofList]
    simp only [List.append_assoc, List.cons_append]
    rw [fields_append (hdash hstart), fields_append (hdash (hpiece 8 4)), fields_append (hdash (hpiece 12 4)),
      fields_append (hdash (hpiece 16 4)), fields_of_not_mem (hdash hend)]
  rw [parse, trim_of_forall hblank, hfields]
  exact ⟨_, rfl⟩

end TraceParent
end Relay
