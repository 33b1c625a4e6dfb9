import Relay.Text.Hex

/-!
Random identifiers: the 122 random bits of a version 4 UUID and its two written forms. The
thirteenth digit is always `4`, so no piece of sixteen leading digits is all zero.
-/

namespace Relay

open Text

/-- The random parts of a version 4 UUID, in the order in which they are written. -/
structure Uuid where
  head : Fin (Nat.pow 16 12)
  mid : Fin (Nat.pow 16 3)
  /-- The two free bits of the variant digit. -/
  variant : Fin 4
  tail : Fin (Nat.pow 16 15)
deriving DecidableEq

namespace Uuid

/-- The digits before the fourth group: those from which a span identifier is cut. -/
def leading (u : Uuid) : List Char := hexDigits 12 u.head ++ '4' :: hexDigits 3 u.mid

def trailing (u : Uuid) : List Char :=
  hexDigit ⟨8 + u.variant.val, by omega⟩ :: hexDigits 15 u.tail

def digits (u : Uuid) : List Char := u.leading ++ u.trailing

theorem length_leading (u : Uuid) : u.leading.length = 16 := by
  simp [leading, length_hexDigits]

theorem length_digits (u : Uuid) : u.digits.length = 32 := by
  simp [digits, leading, trailing, length_hexDigits]

theorem isLowerHex_of_mem_leading {u : Uuid} {c : Char} (h : c ∈ u.leading) :
    isLowerHex c = true := by
  simp only [leading, List.mem_append, List.mem_cons] at h
  rcases h with h | rfl | h
  · exact isLowerHex_of_mem_hexDigits h
  · decide
  · exact isLowerHex_of_mem_hexDigits h

theorem isLowerHex_of_mem_digits {u : Uuid} {c : Char} (h : c ∈ u.digits) :
    isLowerHex c = true := by
  simp only [digits, trailing, List.mem_append, List.mem_cons] at h
  rcases h with h | rfl | h
  · exact isLowerHex_of_mem_leading h
  · exact isLowerHex_hexDigit _
  · exact isLowerHex_of_mem_hexDigits h

/-- The five groups of digits, joined by dashes. -/
def text (u : Uuid) : String :=
  let ds := u.digits
  String.ofList (ds.take 8 ++ '-' :: (ds.drop 8).take 4 ++ '-' :: (ds.drop 12).take 4
    ++ '-' :: (ds.drop 16).take 4 ++ '-' :: ds.drop 20)

theorem text_ne_empty (u : Uuid) : u.text ≠ "" := by
  intro h
  have := congrArg (fun s => s.toList.length) h
  simp [text, String.toList_ofList] at this

end Uuid

end Relay
