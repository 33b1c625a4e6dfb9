import Relay.Json.Scan
import Relay.Number.Binary64

/-!
Reading JSON numbers. A number without point and exponent is a whole number as far as 64 bits hold
it. Any other is a floating-point number: its digits are kept as far as 64 bits hold them, and
scaled by one power of ten, each of the two steps with a rounding of its own.
-/

namespace Relay.Json

/-- A number as it is written. -/
inductive Numeral where
  | natural (n : Nat)
  | negative (n : Nat)
  | real (x : Binary64)
deriving DecidableEq

/-- The greatest number of 64 bits. -/
def maxWord : Nat := Nat.pow 2 64 - 1

/-- The greatest number of 31 bits. -/
def maxExponent : Nat := Nat.pow 2 31 - 1

/-- The greatest power of ten that is used at once. -/
def maxPower : Nat := 308

/-- Appends digits as long as the value stays within `limit`: the value, and the digits that no
longer fit. -/
def absorb (limit value : Nat) : List Nat → Nat × List Nat
  | [] => (value, [])
  | d :: ds => if limit < 10 * value + d then (value, d :: ds) else absorb limit (10 * value + d) ds

/-- The digits at the start of a text, and what follows them. -/
def takeDigits (bs : List UInt8) : List Nat × List UInt8 :=
  ((bs.takeWhile isDigit).map digitValue, bs.dropWhile isDigit)

/-- `x · 10 ^ exponent`; a result that is too large is a fault. -/
def scale (x : Binary64) (exponent : Int) : Except ReadFault Binary64 :=
  if exponent.natAbs ≤ maxPower then
    let power := Binary64.ofDecimal false 1 exponent.natAbs
    if 0 ≤ exponent then
      let y := x * power
      if y.isFinite then .ok y else .error .malformed
    else .ok (x / power)
  else if x = .finite false 0 Binary64.minExponent then .ok x
  else if 0 ≤ exponent then .error .malformed
  else scale (x / Binary64.ofDecimal false 1 maxPower) (exponent + maxPower)
termination_by exponent.natAbs
decreasing_by simp only [maxPower] at *; omega

def realOf (negative : Bool) (digits : Nat) (exponent : Int) : Except ReadFault Numeral :=
  (scale (.ofNat digits) exponent).map fun x => .real (if negative then -x else x)

/-- Holds an exponent within 32 bits. -/
def clampExponent (e : Int) : Int := max (-(Int.pow 2 31)) (min (Int.pow 2 31 - 1) e)

def readExponent (negative : Bool) (digits : Nat) (start : Int) : Reader Numeral := fun bs =>
  let (minus, bs) := match bs with
    | b :: rest => if b = byte '-' then (true, rest) else if b = byte '+' then (false, rest)
        else (false, bs)
    | [] => (false, [])
  match bs with
  | [] => .error .ended
  | b :: _ =>
    if !isDigit b then .error .malformed
    else
      let (ds, rest) := takeDigits bs
      match absorb maxExponent 0 ds with
      | (e, []) =>
        let shift : Int := if minus then -e else e
        (realOf negative digits (clampExponent (start + shift))).map (·, rest)
      | _ =>
        if digits ≠ 0 ∧ !minus then .error .malformed
        else .ok (.real (.finite negative 0 Binary64.minExponent), rest)

/-- What follows the digits of a number that is no whole number. -/
def readTail (negative : Bool) (digits : Nat) (exponent : Int) : Reader Numeral := fun bs =>
  match bs with
  | b :: rest =>
    if b = byte 'e' ∨ b = byte 'E' then readExponent negative digits exponent rest
    else (realOf negative digits exponent).map (·, bs)
  | [] => (realOf negative digits exponent).map (·, [])

def readFraction (negative : Bool) (digits : Nat) (exponent : Int) : Reader Numeral := fun bs =>
  match takeDigits bs with
  | ([], []) => .error .ended
  | ([], _) => .error .malformed
  | (ds, rest) =>
    let (value, left) := absorb maxWord digits ds
    readTail negative value (exponent - (ds.length - left.length : Nat)) rest

/-- What follows the digits before the point; `dropped` of them did not fit. -/
def readAfterWhole (negative : Bool) (digits dropped : Nat) : Reader Numeral := fun bs =>
  let whole : Except ReadFault Numeral :=
    if dropped ≠ 0 then realOf negative digits dropped
    else if !negative then .ok (.natural digits)
    else if 0 < digits ∧ digits ≤ Nat.pow 2 63 then .ok (.negative digits)
    else .ok (.real (-(.ofNat digits)))
  match bs with
  | b :: rest =>
    if b = byte '.' then readFraction negative digits dropped rest
    else if b = byte 'e' ∨ b = byte 'E' then readExponent negative digits dropped rest
    else whole.map (·, bs)
  | [] => whole.map (·, [])

/-- Reads a number whose sign has been read. -/
def readNumeral (negative : Bool) : Reader Numeral := fun bs =>
  match bs with
  | [] => .error .ended
  | b :: rest =>
    if b = byte '0' then
      match rest with
      | c :: _ => if isDigit c then .error .malformed else readAfterWhole negative 0 0 rest
      | [] => readAfterWhole negative 0 0 []
    else if isDigit b then
      let (ds, rest) := takeDigits bs
      let (value, left) := absorb maxWord 0 ds
      readAfterWhole negative value left.length rest
    else .error .malformed

/-- Passes over the digits of an exponent, its letter already read. -/
def skipExponent : Reader Unit := fun bs =>
  let bs := match bs with
    | b :: rest => if b = byte '-' ∨ b = byte '+' then rest else bs
    | [] => []
  match takeDigits bs with
  | ([], _) => .error .malformed
  | (_, rest) => .ok ((), rest)

/-- Passes over an exponent, if there is one. -/
def skipTail : Reader Unit := fun bs =>
  match bs with
  | b :: rest => if b = byte 'e' ∨ b = byte 'E' then skipExponent rest else .ok ((), bs)
  | [] => .ok ((), [])

/-- Passes over a number whose sign has been read. That it ends early is no different from any other
way of being malformed. -/
def skipNumeral : Reader Unit := fun bs =>
  match bs with
  | [] => .error .malformed
  | b :: rest =>
    if !isDigit b then .error .malformed
    else
      let rest := if b = byte '0' then rest else rest.dropWhile isDigit
      match rest with
      | c :: more =>
        if isDigit c then .error .malformed
        else if c = byte '.' then
          match takeDigits more with
          | ([], _) => .error .malformed
          | (_, rest) => skipTail rest
        else skipTail rest
      | [] => .ok ((), [])

end Relay.Json
