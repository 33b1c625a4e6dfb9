import Mathlib.Data.List.DropRight
import Relay.Proofs.Isolation.Identifiers

/-! Which texts are trace parents. The grammar is said here without the functions that read it: a text is cut
    into fields by what they are joined to, a digit is a place in the alphabet, and the verdict on the fields
    names the first that is not of its form. The reader follows it in all but one respect: a last field of a
    plus sign and one digit passes for a byte (`TraceParent.grammar`). -/

namespace Relay

namespace Text

/-- The hexadecimal digits in the order of their values, the letters in lower case. -/
def lowerDigits : List Char := "0123456789abcdef".toList

/-- The hexadecimal digits in the order of their values, the letters in upper case. -/
def upperDigits : List Char := "0123456789ABCDEF".toList

/-- The digit, of either case, stands for the value. -/
def Denotes (c : Char) (n : Nat) : Prop := lowerDigits[n]? = some c ∨ upperDigits[n]? = some c

instance (c : Char) (n : Nat) : Decidable (Denotes c n) := inferInstanceAs (Decidable (_ ∨ _))

theorem Denotes.lt {c : Char} {n : Nat} (h : Denotes c n) : n < 16 := by
  rcases h with h | h <;> exact (List.getElem?_eq_some_iff.mp h).1

theorem toNat_lt_of_hexValue? {c : Char} {n : Nat} (h : hexValue? c = some n) : c.toNat < 128 := by
  have below : ∀ {d : Char}, c ≤ d → c.toNat ≤ d.toNat := fun hd => UInt32.le_iff_toNat_le.mp (Char.le_def.mp hd)
  simp only [hexValue?, Bool.and_eq_true, decide_eq_true_eq] at h
  split at h
  · exact Nat.lt_of_le_of_lt (below (And.right ‹_›)) (by decide)
  · split at h
    · exact Nat.lt_of_le_of_lt (below (And.right ‹_›)) (by decide)
    · split at h
      · exact Nat.lt_of_le_of_lt (below (And.right ‹_›)) (by decide)
      · cases h

theorem hexValue?_of_getElem? {ds : List Char} {c : Char} {n : Nat}
    (hds : ds.map hexValue? = (List.range 16).map some) (h : ds[n]? = some c) : hexValue? c = some n := by
  have hvalue : (ds.map hexValue?)[n]? = some (hexValue? c) := by rw [List.getElem?_map, h, Option.map_some]
  rw [hds] at hvalue
  obtain ⟨_, hn⟩ := List.getElem?_eq_some_iff.mp hvalue
  rw [List.getElem_map, List.getElem_range] at hn
  exact hn.symm

theorem hexValue?_eq_some_iff {c : Char} {n : Nat} : hexValue? c = some n ↔ Denotes c n := by
  constructor
  · intro h
    -- every digit is among the first 128 characters
    have hall : ∀ k : Fin 128, ∀ m ∈ hexValue? (Char.ofNat k), Denotes (Char.ofNat k) m := by decide +kernel
    have hc : Char.ofNat c.toNat = c := Char.ofNat_toNat c
    simpa [hc] using hall ⟨c.toNat, toNat_lt_of_hexValue? h⟩ n (by simpa [hc] using h)
  · intro h
    rcases h with h | h
    · exact hexValue?_of_getElem? (by decide +kernel) h
    · exact hexValue?_of_getElem? (by decide +kernel) h

theorem isLowerHex_iff {c : Char} : isLowerHex c = true ↔ c ∈ lowerDigits := by
  constructor
  · intro h
    have hall : ∀ k : Fin 128, isLowerHex (Char.ofNat k) = true → Char.ofNat k ∈ lowerDigits := by decide +kernel
    have hlt : c.toNat < 128 := by
      simp only [isLowerHex, Bool.or_eq_true, Bool.and_eq_true, decide_eq_true_eq, Char.le_def,
        UInt32.le_iff_toNat_le] at h
      rcases h with h | h <;> exact Nat.lt_of_le_of_lt h.2 (by decide)
    have hc : Char.ofNat c.toNat = c := Char.ofNat_toNat c
    simpa [hc] using hall ⟨c.toNat, hlt⟩ (by simpa [hc] using h)
  · intro h
    have hall : lowerDigits.all isLowerHex = true := by decide +kernel
    exact List.all_eq_true.mp hall c h

/-! ### Cutting a text into fields -/

/-- The second text is the first without the white space at both ends. -/
structure Trims (cs body : List Char) : Prop where
  between : ∃ before after, cs = before ++ (body ++ after) ∧
    (∀ c ∈ before, isBlank c = true) ∧ ∀ c ∈ after, isBlank c = true
  first : ∀ c ∈ body.head?, isBlank c = false
  last : ∀ c ∈ body.getLast?, isBlank c = false

theorem trim_eq (cs : List Char) : trim cs = (cs.dropWhile isBlank).rdropWhile isBlank := rfl

theorem trims_trim (cs : List Char) : Trims cs (trim cs) where
  between := by
    refine ⟨cs.takeWhile isBlank, (cs.dropWhile isBlank).rtakeWhile isBlank, ?_, ?_, ?_⟩
    · rw [trim_eq, List.rdropWhile_append_rtakeWhile, List.takeWhile_append_dropWhile]
    · intro c hc
      exact List.mem_takeWhile_imp hc
    · intro c hc
      exact List.mem_rtakeWhile_imp hc
  first := by
    intro c hc
    have hdrop : (cs.dropWhile isBlank).head? = some c := by
      rw [← List.rdropWhile_append_rtakeWhile (p := isBlank) (l := cs.dropWhile isBlank), ← trim_eq]
      exact List.mem_head?_append_of_mem_head? hc
    have hfirst := List.head?_dropWhile_not isBlank cs
    rw [hdrop] at hfirst
    exact hfirst
  last := by
    intro c hc
    obtain ⟨hne, rfl⟩ := List.mem_getLast?_eq_getLast hc
    exact eq_false_of_ne_true (List.rdropWhile_last_not isBlank (cs.dropWhile isBlank) hne)

theorem Trims.eq {cs body : List Char} (h : Trims cs body) : trim cs = body := by
  obtain ⟨before, after, rfl, hbefore, hafter⟩ := h.between
  have hlast : ∀ c ∈ body.reverse.head?, isBlank c = false := by
    intro c hc
    exact h.last c (by simpa using hc)
  cases body with
  | nil =>
    rw [trim, List.dropWhile_append_of_pos hbefore, List.nil_append, List.dropWhile_eq_nil_iff.mpr hafter]
    rfl
  | cons c body =>
    have hstart : (c :: body ++ after).dropWhile isBlank = c :: body ++ after :=
      List.dropWhile_cons_of_neg (ne_true_of_eq_false (h.first c rfl))
    rw [trim, List.dropWhile_append_of_pos hbefore, hstart, List.reverse_append,
      List.dropWhile_append_of_pos fun d hd => hafter d (List.mem_reverse.mp hd), dropWhile_of_first hlast,
      List.reverse_reverse]

theorem fields_eq_splitOn (sep : Char) (cs : List Char) : fields sep cs = cs.splitOn sep := by
  induction cs with
  | nil => rfl
  | cons c cs ih =>
    rw [List.splitOn, List.splitOnP_cons_eq_if_modifyHead, ← List.splitOn, ← ih, fields]
    by_cases hc : c = sep
    · simp [hc]
    · have hne := fields_ne_nil sep cs
      cases hfs : fields sep cs with
      | nil => exact absurd hfs hne
      | cons f fs => simp [hc]

theorem not_mem_of_mem_fields {sep : Char} {cs f : List Char} (h : f ∈ fields sep cs) : sep ∉ f := by
  induction cs generalizing f with
  | nil => simp_all [fields]
  | cons c cs ih =>
    rw [fields] at h
    split at h
    · rcases List.mem_cons.mp h with rfl | h
      · exact List.not_mem_nil
      · exact ih h
    · cases hfs : fields sep cs with
      | nil => exact absurd hfs (fields_ne_nil sep cs)
      | cons g gs =>
        rw [hfs] at h ih
        rcases List.mem_cons.mp h with rfl | h
        · rw [List.mem_cons, not_or]
          exact ⟨Ne.symm ‹_›, ih List.mem_cons_self⟩
        · exact ih (List.mem_cons_of_mem g h)

end Text

open Text

/-- The text, without the white space at both ends, is these fields separated by single dashes. -/
structure Splits (s : String) (fs : List (List Char)) : Prop where
  joined : Trims s.toList (['-'].intercalate fs)
  ne_nil : fs ≠ []
  dash_not_mem : ∀ f ∈ fs, '-' ∉ f

/-- There is exactly one way to cut a text into fields. -/
theorem splits_iff {s : String} {fs : List (List Char)} : Splits s fs ↔ fields '-' (trim s.toList) = fs := by
  constructor
  · intro h
    rw [h.joined.eq, fields_eq_splitOn, List.splitOn_intercalate '-' h.dash_not_mem h.ne_nil]
  · rintro rfl
    refine ⟨?_, fields_ne_nil _ _, fun f => not_mem_of_mem_fields⟩
    rw [fields_eq_splitOn, List.intercalate_splitOn]
    exact trims_trim _

namespace TraceParent

/-! ### The forms of the fields -/

/-- Two lower-case digits other than `ff`. -/
def IsVersion (ds : List Char) : Prop := ds.length = 2 ∧ (∀ c ∈ ds, c ∈ lowerDigits) ∧ ds ≠ ['f', 'f']

/-- So many lower-case digits, not all zero. -/
def IsId (n : Nat) (ds : List Char) : Prop :=
  ds.length = n ∧ (∀ c ∈ ds, c ∈ lowerDigits) ∧ ds ≠ List.replicate n '0'

/-- Two digits of either case, and the byte that they stand for. -/
def IsByte (ds : List Char) (b : UInt8) : Prop :=
  ∃ a c x y, ds = [a, c] ∧ Denotes a x ∧ Denotes c y ∧ b.toNat = 16 * x + y

/-- A plus sign before one digit, and the value of the digit. -/
def IsSigned (ds : List Char) (b : UInt8) : Prop := ∃ c y, ds = ['+', c] ∧ Denotes c y ∧ b.toNat = y

/-- What is made of the fields when `Flag` says which bytes the last of them may stand for: the first field that
    is not of its form is reported with its text, and else the trace parent holds what the fields say. -/
inductive Verdict (Flag : List Char → UInt8 → Prop) :
    List (List Char) → Except TraceParentError TraceParent → Prop where
  | fieldCount {fs : List (List Char)} : fs.length ≠ 4 → Verdict Flag fs (.error (.fieldCount fs.length))
  | version {v t sp f : List Char} : ¬IsVersion v → Verdict Flag [v, t, sp, f] (.error (.version (String.ofList v)))
  | traceId {v t sp f : List Char} : IsVersion v → ¬IsId 32 t →
      Verdict Flag [v, t, sp, f] (.error (.traceId (String.ofList t)))
  | spanId {v t sp f : List Char} : IsVersion v → IsId 32 t → ¬IsId 16 sp →
      Verdict Flag [v, t, sp, f] (.error (.spanId (String.ofList sp)))
  | flags {v t sp f : List Char} : IsVersion v → IsId 32 t → IsId 16 sp → (∀ b, ¬Flag f b) →
      Verdict Flag [v, t, sp, f] (.error (.flags (String.ofList f)))
  | accepted {v t sp f : List Char} {p : TraceParent} : IsVersion v → IsId 32 t → IsId 16 sp → Flag f p.flags →
      p.traceId.digits = t → p.spanId.digits = sp → Verdict Flag [v, t, sp, f] (.ok p)

theorem isVersion_iff {ds : List Char} : isVersion ds = true ↔ IsVersion ds := by
  simp [isVersion, IsVersion, isLowerHex_iff, and_assoc]

theorem isId_iff {n : Nat} {ds : List Char} : IsId n ds ↔ HexId.Valid n ds := by
  simp only [IsId, HexId.Valid, ← isLowerHex_iff]
  refine and_congr_right fun hlen => and_congr_right fun _ => ?_
  rw [ne_eq, List.eq_replicate_iff]
  simp [hlen]

theorem ofNat_eq_iff {n : Nat} {b : UInt8} (h : n < 256) : UInt8.ofNat n = b ↔ b.toNat = n := by
  rw [← UInt8.toNat_inj, UInt8.toNat_ofNat_of_lt' h, eq_comm]

/-- No digit is a plus sign. -/
theorem not_denotes_plus (n : Nat) : ¬Denotes '+' n := by
  intro h
  have := hexValue?_eq_some_iff.mpr h
  cases this

theorem flags?_eq_some_iff {ds : List Char} {b : UInt8} : flags? ds = some b ↔ IsByte ds b ∨ IsSigned ds b := by
  constructor
  · intro h
    match ds with
    | [] | [_] | _ :: _ :: _ :: _ => cases h
    | [a, c] =>
      rw [flags?] at h
      split at h
      · obtain ⟨y, hy, hb⟩ := Option.map_eq_some_iff.mp h
        have hd := hexValue?_eq_some_iff.mp hy
        have hlt := hd.lt
        exact .inr ⟨c, y, by rw [‹a = '+'›], hd, (ofNat_eq_iff (by omega)).mp hb⟩
      · split at h
        · rename_i x y hx hy
          have ha := hexValue?_eq_some_iff.mp hx
          have hc := hexValue?_eq_some_iff.mp hy
          have hlt := ha.lt
          have hlt' := hc.lt
          exact .inl ⟨a, c, x, y, rfl, ha, hc, (ofNat_eq_iff (by omega)).mp (Option.some.inj h)⟩
        · cases h
  · rintro (⟨a, c, x, y, rfl, ha, hc, hb⟩ | ⟨c, y, rfl, hc, hb⟩)
    · have hplus : a ≠ '+' := by
        rintro rfl
        exact not_denotes_plus x ha
      have hlt := ha.lt
      have hlt' := hc.lt
      rw [flags?, if_neg hplus, hexValue?_eq_some_iff.mpr ha, hexValue?_eq_some_iff.mpr hc]
      exact congrArg some ((ofNat_eq_iff (by omega)).mpr hb)
    · have hlt := hc.lt
      rw [flags?, if_pos rfl, hexValue?_eq_some_iff.mpr hc]
      exact congrArg some ((ofNat_eq_iff (by omega)).mpr hb)

theorem ofDigits?_of_isId {n : Nat} {ds : List Char} (h : IsId n ds) :
    HexId.ofDigits? n ds = some ⟨ds, isId_iff.mp h⟩ := dif_pos _

theorem ofDigits?_of_not_isId {n : Nat} {ds : List Char} (h : ¬IsId n ds) : HexId.ofDigits? n ds = none :=
  dif_neg (mt isId_iff.mpr h)

/-! ### The verdict -/

theorem verdict_ofFields (v t sp f : List Char) :
    Verdict (fun ds b => IsByte ds b ∨ IsSigned ds b) [v, t, sp, f] (ofFields v t sp f) := by
  rw [ofFields]
  by_cases hv : IsVersion v
  · rw [isVersion_iff.mpr hv, if_neg (by simp)]
    by_cases ht : IsId 32 t
    · rw [ofDigits?_of_isId ht]
      by_cases hs : IsId 16 sp
      · rw [ofDigits?_of_isId hs]
        cases hf : flags? f with
        | none =>
          refine .flags hv ht hs fun b hb => ?_
          rw [flags?_eq_some_iff.mpr hb] at hf
          cases hf
        | some b => exact .accepted hv ht hs (flags?_eq_some_iff.mp hf) rfl rfl
      · rw [ofDigits?_of_not_isId hs]
        exact .spanId hv ht hs
    · rw [ofDigits?_of_not_isId ht]
      exact .traceId hv ht
  · rw [if_pos (by simpa using mt isVersion_iff.mp hv)]
    exact .version hv

theorem Verdict.ofFields_eq {v t sp f : List Char} {r : Except TraceParentError TraceParent}
    (h : Verdict (fun ds b => IsByte ds b ∨ IsSigned ds b) [v, t, sp, f] r) : ofFields v t sp f = r := by
  cases h with
  | fieldCount hlen => exact absurd rfl hlen
  | version hv => rw [ofFields, if_pos (by simpa using mt isVersion_iff.mp hv)]
  | traceId hv ht => simp [ofFields, isVersion_iff.mpr hv, ofDigits?_of_not_isId ht]
  | spanId hv ht hs => simp [ofFields, isVersion_iff.mpr hv, ofDigits?_of_isId ht, ofDigits?_of_not_isId hs]
  | flags hv ht hs hf =>
    have hnone : flags? f = none := Option.eq_none_iff_forall_ne_some.mpr fun b hb => hf b (flags?_eq_some_iff.mp hb)
    simp [ofFields, isVersion_iff.mpr hv, ofDigits?_of_isId ht, ofDigits?_of_isId hs, hnone]
  | accepted hv ht hs hf htrace hspan =>
    subst htrace hspan
    simp [ofFields, isVersion_iff.mpr hv, HexId.ofDigits?_digits, flags?_eq_some_iff.mpr hf]

/-- The reader takes a pair of digits for a byte, and a plus sign with one digit as well. -/
theorem parse_eq_iff {s : String} {r : Except TraceParentError TraceParent} {fs : List (List Char)} (h : Splits s fs) :
    parse s = r ↔ Verdict (fun ds b => IsByte ds b ∨ IsSigned ds b) fs r := by
  rw [parse, splits_iff.mp h]
  split
  · constructor
    · rintro rfl
      exact verdict_ofFields ..
    · exact Verdict.ofFields_eq
  · rename_i hfour
    constructor
    · rintro rfl
      refine .fieldCount fun hlen => ?_
      obtain ⟨v, t, sp, f, rfl⟩ := List.length_eq_four.mp hlen
      exact hfour v t sp f rfl
    · rintro (_ | _)
      · rfl
      all_goals exact absurd rfl (hfour _ _ _ _)

/-- Four fields, all of their form but the last, which is a plus sign and one digit. -/
def SignedFlags (fs : List (List Char)) : Prop :=
  ∃ v t sp f b, fs = [v, t, sp, f] ∧ IsVersion v ∧ IsId 32 t ∧ IsId 16 sp ∧ IsSigned f b

/-- It matters only behind three fields of their form what the last one may stand for. -/
theorem Verdict.congr {Flag Flag' : List Char → UInt8 → Prop} {fs : List (List Char)}
    {r : Except TraceParentError TraceParent} (hr : Verdict Flag fs r)
    (h : ∀ {v t sp f : List Char}, fs = [v, t, sp, f] → IsVersion v → IsId 32 t → IsId 16 sp →
      ∀ b, Flag f b ↔ Flag' f b) : Verdict Flag' fs r := by
  cases hr with
  | fieldCount hlen => exact .fieldCount hlen
  | version hv => exact .version hv
  | traceId hv ht => exact .traceId hv ht
  | spanId hv ht hs => exact .spanId hv ht hs
  | flags hv ht hs hf =>
    refine .flags hv ht hs fun b hb => ?_
    exact hf b ((h rfl hv ht hs b).mpr hb)
  | accepted hv ht hs hf htrace hspan => exact .accepted hv ht hs ((h rfl hv ht hs _).mp hf) htrace hspan

/-- Only where the last field bears a sign does it matter that such a field is read at all. -/
theorem verdict_isByte_iff {fs : List (List Char)} (h : ¬SignedFlags fs) {r : Except TraceParentError TraceParent} :
    Verdict (fun ds b => IsByte ds b ∨ IsSigned ds b) fs r ↔ Verdict IsByte fs r := by
  have hflag : ∀ {v t sp f : List Char}, fs = [v, t, sp, f] → IsVersion v → IsId 32 t → IsId 16 sp →
      ∀ b, IsByte f b ∨ IsSigned f b ↔ IsByte f b := by
    intro v t sp f hfs hv ht hs b
    have hunsigned : ¬IsSigned f b := fun hf => h ⟨v, t, sp, f, b, hfs, hv, ht, hs, hf⟩
    exact or_iff_left hunsigned
  constructor
  · intro hr
    exact hr.congr hflag
  · intro hr
    exact hr.congr fun hfs hv ht hs b => (hflag hfs hv ht hs b).symm

theorem not_isByte_of_isSigned {ds : List Char} {b : UInt8} (h : IsSigned ds b) (b' : UInt8) : ¬IsByte ds b' := by
  obtain ⟨c, y, rfl, -, -⟩ := h
  rintro ⟨a, d, x, z, hds, ha, -, -⟩
  obtain ⟨rfl, -⟩ := List.cons_eq_cons.mp hds
  exact not_denotes_plus x ha

/-- What becomes of any text. It is cut into fields in one way, and the verdict on these is what is read, where a
    byte is two digits of either case or, against the grammar, a plus sign and one digit. So the grammar is
    followed exactly by the texts whose last field is not such a one behind three fields of their form. -/
theorem grammar (s : String) : ∃ fs, (∀ fs', Splits s fs' ↔ fs' = fs) ∧
    (∀ r, parse s = r ↔ Verdict (fun ds b => IsByte ds b ∨ IsSigned ds b) fs r) ∧
    ((∀ r, parse s = r ↔ Verdict IsByte fs r) ↔ ¬SignedFlags fs) := by
  have hsplits : Splits s (fields '-' (trim s.toList)) := splits_iff.mpr rfl
  refine ⟨_, fun fs' => splits_iff.trans eq_comm, fun r => parse_eq_iff hsplits, ?_⟩
  constructor
  · rintro h ⟨v, t, sp, f, b, hfs, hv, ht, hs, hf⟩
    rw [hfs] at h hsplits
    obtain ⟨p, hp⟩ : ∃ p, parse s = .ok p :=
      ⟨⟨⟨t, isId_iff.mp ht⟩, ⟨sp, isId_iff.mp hs⟩, b⟩,
        (parse_eq_iff hsplits).mpr (.accepted hv ht hs (.inr hf) rfl rfl)⟩
    cases (h _).mp hp with
    | accepted _ _ _ hbyte _ _ => exact not_isByte_of_isSigned hf _ hbyte
  · intro h r
    exact (parse_eq_iff hsplits).trans (verdict_isByte_iff h)

/-- A last field of a plus sign and the digit `f` is read as the byte fifteen, where the grammar has an error that
    carries the field. -/
theorem signed_flags_read :
    (∃ p, parse "00-4bf92f3577b34da6a3ce929d0e0e4736-00f067aa0ba902b7-+f" = .ok p ∧ p.flags = 15) ∧
    ∃ fs, Splits "00-4bf92f3577b34da6a3ce929d0e0e4736-00f067aa0ba902b7-+f" fs ∧
      Verdict IsByte fs (.error (.flags "+f")) ∧
      ¬∀ r, parse "00-4bf92f3577b34da6a3ce929d0e0e4736-00f067aa0ba902b7-+f" = r ↔ Verdict IsByte fs r := by
  have hsplits : Splits "00-4bf92f3577b34da6a3ce929d0e0e4736-00f067aa0ba902b7-+f"
      [['0', '0'], "4bf92f3577b34da6a3ce929d0e0e4736".toList, "00f067aa0ba902b7".toList, ['+', 'f']] :=
    splits_iff.mpr (by decide +kernel)
  have hv : IsVersion ['0', '0'] := isVersion_iff.mp (by decide)
  have ht : IsId 32 "4bf92f3577b34da6a3ce929d0e0e4736".toList := isId_iff.mpr (by decide +kernel)
  have hs : IsId 16 "00f067aa0ba902b7".toList := isId_iff.mpr (by decide +kernel)
  have hf : IsSigned ['+', 'f'] 15 := ⟨'f', 15, rfl, by decide, rfl⟩
  have hread := (parse_eq_iff hsplits).mpr (.accepted (p := ⟨⟨_, isId_iff.mp ht⟩, ⟨_, isId_iff.mp hs⟩, 15⟩)
    hv ht hs (.inr hf) rfl rfl)
  have herr : Verdict IsByte [['0', '0'], "4bf92f3577b34da6a3ce929d0e0e4736".toList, "00f067aa0ba902b7".toList,
      ['+', 'f']] (.error (.flags "+f")) := .flags hv ht hs (not_isByte_of_isSigned hf)
  refine ⟨⟨_, hread, rfl⟩, _, hsplits, herr, fun h => ?_⟩
  rw [(h _).mpr herr] at hread
  cases hread

end TraceParent
end Relay
