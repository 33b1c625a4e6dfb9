/-!
Hexadecimal digits: reading them in either case, and writing numbers with a fixed number of
lower-case ones.
-/

namespace Relay.Text

/-- One of `0`-`9` and `a`-`f`. -/
def isLowerHex (c : Char) : Bool := ('0' ≤ c && c ≤ '9') || ('a' ≤ c && c ≤ 'f')

/-- The value of a hexadecimal digit of either case. -/
def hexValue? (c : Char) : Option Nat :=
  if '0' ≤ c && c ≤ '9' then some (c.toNat - '0'.toNat)
  else if 'a' ≤ c && c ≤ 'f' then some (c.toNat - 'a'.toNat + 10)
  else if 'A' ≤ c && c ≤ 'F' then some (c.toNat - 'A'.toNat + 10)
  else none

/-- The lower-case digit of a value below sixteen. -/
def hexDigit (n : Fin 16) : Char :=
  if n.val < 10 then Char.ofNat ('0'.toNat + n.val) else Char.ofNat ('a'.toNat + (n.val - 10))

theorem isLowerHex_hexDigit : ∀ n : Fin 16, isLowerHex (hexDigit n) = true := by decide

theorem hexValue?_hexDigit : ∀ n : Fin 16, hexValue? (hexDigit n) = some n.val := by decide

/-- The lowest `width` hexadecimal digits of a number, the most significant first. -/
def hexDigits : Nat → Nat → List Char
  | 0, _ => []
  | width + 1, n => hexDigits width (n / 16) ++ [hexDigit ⟨n % 16, Nat.mod_lt _ (by decide)⟩]

theorem length_hexDigits (width n : Nat) : (hexDigits width n).length = width := by
  induction width generalizing n with
  | zero => rfl
  | succ w ih => simp [hexDigits, ih]

theorem isLowerHex_of_mem_hexDigits {width n : Nat} {c : Char} (h : c ∈ hexDigits width n) :
    isLowerHex c = true := by
  induction width generalizing n with
  | zero => simp [hexDigits] at h
  | succ w ih =>
    rcases List.mem_append.1 h with h | h
    · exact ih h
    · exact List.mem_singleton.1 h ▸ isLowerHex_hexDigit _

/-- The bytes that pairs of digits stand for. -/
def unhex? : List Char → Option (List UInt8)
  | [] => some []
  | a :: b :: rest =>
    match hexValue? a, hexValue? b, unhex? rest with
    | some x, some y, some bytes => some (UInt8.ofNat (16 * x + y) :: bytes)
    | _, _, _ => none
  | _ => none

def hex (bytes : List UInt8) : List Char := bytes.flatMap fun b => hexDigits 2 b.toNat

end Relay.Text
