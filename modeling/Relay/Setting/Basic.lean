import Relay.Number.Literal

/-!
Settings: what files and the environment say, before it is known which type it should have. A setting
is read leniently: a number may be written as a text, and a truth value stands for one or zero.
-/

namespace Relay

/-- A setting. -/
inductive Setting where
  | null
  | flag (b : Bool)
  | whole (n : Int)
  | real (x : Binary64)
  | text (s : String)
  | list (items : List Setting)
  | table (entries : List (String × Setting))
deriving Inhabited

namespace Setting

/-- Whether a number fits into 64 bits with a sign. -/
def fits64 (n : Int) : Bool := -(Int.pow 2 63) ≤ n && n < Int.pow 2 63

/-- A whole number, as a floating-point number if it does not fit into 64 bits with a sign. -/
def ofInt (n : Int) : Setting :=
  if fits64 n then whole n else real (.ofDecimal (n < 0) n.natAbs 0)

/-- The setting that the text of an environment variable stands for. -/
def ofText (s : String) : Setting :=
  let word := String.ofList (lowerCase s.toList)
  if word = "true" then flag true
  else if word = "false" then flag false
  else
    match integer? s, Binary64.parse? s with
    | some n, _ => ofInt n
    | none, some x => real x
    | none, none => text s

/-- What a word says, if it is one of those that stand for a truth value. -/
def truth? (s : String) : Option Bool :=
  let word := String.ofList (lowerCase s.toList)
  if word = "true" ∨ word = "on" ∨ word = "yes" then some true
  else if word = "false" ∨ word = "off" ∨ word = "no" then some false
  else none

/-- The setting as a natural number up to `limit`, which is at most the greatest of 64 bits. Fractions
are rounded, halves away from zero, and held between zero and the greatest number of 64 bits. -/
def natural? (limit : Nat) (v : Setting) : Option Nat :=
  let n : Option Nat := match v with
    | flag b => some b.toNat
    | whole n => if n < 0 then none else some n.toNat
    | real x => some (x.roundUpTo (Nat.pow 2 64 - 1))
    | text s =>
      match truth? s with
      | some b => some b.toNat
      | none => Relay.natural? s
    | _ => none
  n.filter (· ≤ limit)

def real? : Setting → Option Binary64
  | flag b => some (.ofNat b.toNat)
  | whole n => some (.ofDecimal (n < 0) n.natAbs 0)
  | real x => some x
  | text s =>
    match truth? s with
    | some b => some (.ofNat b.toNat)
    | none => Binary64.parse? s
  | _ => none

/-- The setting, unless it is nothing, as `f` reads it. -/
def optional? {α : Type} (f : Setting → Option α) : Setting → Option (Option α)
  | null => some none
  | v => (f v).map some

/-- The fields of a record: those that a table has, or the first ones, in order, by a list. -/
def fields? (names : List String) : Setting → Option (List (String × Setting))
  | table entries => some entries
  | list items => some (names.zip items)
  | _ => none

/-- A field as `f` reads it, or a default if it is missing. -/
def field? {α : Type} (fields : List (String × Setting)) (name : String)
    (f : Setting → Option α) (missing : α) : Option α :=
  match fields.lookup name with
  | some v => f v
  | none => some missing

end Setting

end Relay
