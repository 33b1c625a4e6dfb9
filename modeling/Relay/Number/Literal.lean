import Relay.Number.Binary64

/-!
Reading numbers from plain text. A decimal has an optional sign, digits with an optional point, at
least one digit in all, and an optional exponent; infinities and the non-number have names. A natural
number has an optional plus sign and digits.
-/

namespace Relay

open Binary64

def digit? (c : Char) : Option Nat :=
  if '0' ≤ c && c ≤ '9' then some (c.toNat - '0'.toNat) else none

/-- The digits at the start of a text, and what follows them. -/
def takeDigits : List Char → List Nat × List Char
  | [] => ([], [])
  | c :: cs =>
    match digit? c with
    | none => ([], c :: cs)
    | some d => (d :: (takeDigits cs).1, (takeDigits cs).2)

def ofDigits (ds : List Nat) : Nat := ds.foldl (fun n d => 10 * n + d) 0

/-- Splits off a sign; `true` is a minus. -/
def takeSign : List Char → Bool × List Char
  | '-' :: cs => (true, cs)
  | '+' :: cs => (false, cs)
  | cs => (false, cs)

/-- The exponent that ends a decimal: nothing at all means zero. -/
def exponent? : List Char → Option Int
  | [] => some 0
  | c :: cs =>
    if c = 'e' ∨ c = 'E' then
      let (negative, cs) := takeSign cs
      match takeDigits cs with
      | ([], _) => none
      | (ds, []) => some (if negative then -(ofDigits ds : Int) else ofDigits ds)
      | _ => none
    else none

/-- The text in lower case, as far as it is ASCII. -/
def lowerCase (cs : List Char) : List Char := cs.map Char.toLower

def Binary64.parse? (s : String) : Option Binary64 :=
  let (negative, cs) := takeSign s.toList
  let name := lowerCase cs
  if name = "inf".toList ∨ name = "infinity".toList then some (.infinite negative)
  else if name = "nan".toList then some .nan
  else
    let (whole, rest) := takeDigits cs
    let (part, rest) := match rest with
      | '.' :: cs => takeDigits cs
      | cs => ([], cs)
    if whole.isEmpty && part.isEmpty then none
    else (exponent? rest).map fun e =>
      ofDecimal negative (ofDigits (whole ++ part)) (e - part.length)

def natural? (s : String) : Option Nat :=
  let cs := match s.toList with
    | '+' :: cs => cs
    | cs => cs
  match takeDigits cs with
  | ([], _) => none
  | (ds, []) => some (ofDigits ds)
  | _ => none

def integer? (s : String) : Option Int :=
  let (negative, cs) := takeSign s.toList
  match takeDigits cs with
  | ([], _) => none
  | (ds, []) => some (if negative then -(ofDigits ds : Int) else ofDigits ds)
  | _ => none

end Relay
