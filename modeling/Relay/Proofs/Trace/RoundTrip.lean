import Relay.Proofs.Trace.Grammar

/-! Reading and writing trace parents. Whatever is written is in the grammar and is read back as it was, however
    the trace parent came about; what is read is written as it stood exactly when it stood in the written form
    (`TraceParent.round_trip`). -/

namespace Relay

open Text

namespace Text

theorem mem_lowerDigits_iff {c : Char} : c ∈ lowerDigits ↔ ∃ n : Fin 16, c = hexDigit n := by
  have hdigits : lowerDigits = (List.finRange 16).map hexDigit := by decide +kernel
  simp [hdigits, eq_comm]

theorem hexDigit_of_denotes {c : Char} {n : Nat} (hc : c ∈ lowerDigits) (h : Denotes c n) :
    hexDigit ⟨n, h.lt⟩ = c := by
  obtain ⟨m, rfl⟩ := mem_lowerDigits_iff.mp hc
  have hm : n = m.val := Option.some.inj ((hexValue?_eq_some_iff.mpr h).symm.trans (hexValue?_hexDigit m))
  exact congrArg hexDigit (Fin.ext hm)

end Text

namespace Uuid

theorem take_digits (u : Uuid) : u.digits.take 16 = u.leading := by
  rw [digits, List.take_left' u.length_leading]

end Uuid

namespace TraceParent

/-- The written form, said of any text: no white space around it, version `00`, and two lower-case digits for the
    flags. -/
structure Canonical (s : String) : Prop where
  first : ∀ c ∈ s.toList.head?, isBlank c = false
  last : ∀ c ∈ s.toList.getLast?, isBlank c = false
  fields : ∃ t sp f, Splits s [['0', '0'], t, sp, f] ∧ f.length = 2 ∧ ∀ c ∈ f, c ∈ lowerDigits

theorem canonical_render (p : TraceParent) : Canonical p.render where
  first c hc := isBlank_of_mem_chars (List.mem_of_mem_head? (by simpa [render] using hc))
  last c hc := isBlank_of_mem_chars (List.mem_of_getLast? (by simpa [render] using hc))
  fields := by
    refine ⟨_, _, _, splits_iff.mpr p.fields_render, length_hexDigits 2 _, fun c hc => ?_⟩
    exact isLowerHex_iff.mp (isLowerHex_of_mem_hexDigits hc)

theorem render_toList (p : TraceParent) : p.render.toList =
    ['-'].intercalate [['0', '0'], p.traceId.digits, p.spanId.digits, hexDigits 2 p.flags.toNat] := by
  simp [render, chars, List.intercalate]

/-- Two lower-case digits are what is written for the byte that they are read as. -/
theorem hexDigits_of_flag {f : List Char} {b : UInt8} (hf : ∀ c ∈ f, c ∈ lowerDigits) (h : IsByte f b ∨ IsSigned f b) :
    hexDigits 2 b.toNat = f := by
  rcases h with ⟨a, c, x, y, rfl, ha, hc, hb⟩ | ⟨c, y, rfl, -, -⟩
  · have hlt := ha.lt
    have hlt' := hc.lt
    have hx : b.toNat / 16 % 16 = x := by omega
    have hy : b.toNat % 16 = y := by omega
    rw [List.forall_mem_cons, List.forall_mem_singleton] at hf
    simp only [hexDigits, hx, hy, hexDigit_of_denotes hf.1 ha, hexDigit_of_denotes hf.2 hc, List.nil_append,
      List.cons_append]
  · have hplus : '+' ∉ lowerDigits := by decide
    exact absurd (hf '+' List.mem_cons_self) hplus

theorem Canonical.render_eq {s : String} {p : TraceParent} (hs : Canonical s) (h : parse s = .ok p) : p.render = s := by
  obtain ⟨t, sp, f, hsplits, -, hlower⟩ := hs.fields
  -- nothing was trimmed away, so the text is its fields joined
  have htext : s.toList = ['-'].intercalate [['0', '0'], t, sp, f] := by
    have hwhole : Trims s.toList s.toList := ⟨⟨[], [], by simp, by simp, by simp⟩, hs.first, hs.last⟩
    exact hwhole.eq.symm.trans hsplits.joined.eq
  cases (parse_eq_iff hsplits).mp h with
  | accepted _ _ _ hflag htrace hspan =>
    rw [← String.toList_inj, render_toList, htext, htrace, hspan, hexDigits_of_flag hlower hflag]

theorem foldl_child (p : TraceParent) (spans : List Uuid) :
    (spans.foldl child p).traceId = p.traceId ∧ (spans.foldl child p).flags = p.flags := by
  induction spans generalizing p with
  | nil => exact ⟨rfl, rfl⟩
  | cons u spans ih => exact ih (p.child u)

/-- Every trace parent is read back from what is written for it, and that is in the written form. A new one shows all
    digits of one random identifier, the first sixteen of the other, and is sampled; after any number of children
    the trace and the flags are those at the start and the span is that of the last. A text that is read is what
    is written for the result exactly when it is in the written form. -/
theorem round_trip :
    (∀ p : TraceParent, parse p.render = .ok p ∧ Canonical p.render) ∧
    (∀ trace span : Uuid, (root trace span).render =
      "00-" ++ String.ofList trace.digits ++ "-" ++ String.ofList (span.digits.take 16) ++ "-01") ∧
    (∀ (p : TraceParent) (spans : List Uuid) (span : Uuid), ((spans.foldl child p).child span).render =
      "00-" ++ String.ofList p.traceId.digits ++ "-" ++ String.ofList (span.digits.take 16) ++ "-" ++
        String.ofList (hexDigits 2 p.flags.toNat)) ∧
    ∀ s p, parse s = .ok p → (p.render = s ↔ Canonical s) := by
  refine ⟨fun p => ⟨p.parse_render, p.canonical_render⟩, ?_, ?_, ?_⟩
  · intro trace span
    have hflags : hexDigits 2 1 = ['0', '1'] := by decide
    rw [← String.toList_inj, render_toList, Uuid.take_digits]
    simp [List.intercalate, root, Uuid.traceId, Uuid.spanId, hflags]
  · intro p spans span
    obtain ⟨htrace, hflags⟩ := foldl_child p spans
    rw [← String.toList_inj, render_toList, Uuid.take_digits]
    simp [List.intercalate, child, htrace, hflags, Uuid.spanId]
  · intro s p h
    constructor
    · rintro rfl
      exact p.canonical_render
    · intro hs
      exact hs.render_eq h

theorem round_trip_of_sampled : ∃ p, parse "00-4bf92f3577b34da6a3ce929d0e0e4736-00f067aa0ba902b7-01" = .ok p ∧
    p.render = "00-4bf92f3577b34da6a3ce929d0e0e4736-00f067aa0ba902b7-01" := by
  have hsplits : Splits "00-4bf92f3577b34da6a3ce929d0e0e4736-00f067aa0ba902b7-01"
      [['0', '0'], "4bf92f3577b34da6a3ce929d0e0e4736".toList, "00f067aa0ba902b7".toList, ['0', '1']] :=
    splits_iff.mpr (by decide +kernel)
  have ht : IsId 32 "4bf92f3577b34da6a3ce929d0e0e4736".toList := isId_iff.mpr (by decide +kernel)
  have hs : IsId 16 "00f067aa0ba902b7".toList := isId_iff.mpr (by decide +kernel)
  have hread : parse "00-4bf92f3577b34da6a3ce929d0e0e4736-00f067aa0ba902b7-01" =
      .ok ⟨⟨_, isId_iff.mp ht⟩, ⟨_, isId_iff.mp hs⟩, 1⟩ :=
    (parse_eq_iff hsplits).mpr (.accepted (isVersion_iff.mp (by decide)) ht hs
      (.inl ⟨'0', '1', 0, 1, rfl, by decide, by decide, rfl⟩) rfl rfl)
  refine ⟨_, hread, (round_trip.2.2.2 _ _ hread).mpr ⟨?_, ?_, _, _, _, hsplits, rfl, ?_⟩⟩
  · simp [isBlank]
  · simp [isBlank]
  · have hlower : ['0', '1'].all isLowerHex = true := by decide
    intro c hc
    exact isLowerHex_iff.mp (List.all_eq_true.mp hlower c hc)

end TraceParent
end Relay
