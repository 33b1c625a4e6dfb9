import Relay.Number.Literal

/-!
Refusals to write a value. What the value says about itself may end with a position in a text; the
position counts only if its line does.
-/

namespace Relay

/-- Why a value cannot be written. -/
structure Refusal where
  description : String
  /-- The line and the column that the description goes with. -/
  position : Option (Nat × Nat) := none
deriving DecidableEq

namespace Refusal

def message (r : Refusal) : String :=
  match r.position with
  | none => r.description
  | some (line, column) =>
    r.description ++ " at line " ++ toString line ++ " column " ++ toString column

/-- What is before and after the last occurrence of a mark that is not empty. -/
def splitLast? (mark : List Char) : List Char → Option (List Char × List Char)
  | [] => none
  | c :: cs =>
    match splitLast? mark cs with
    | some (before, after) => some (c :: before, after)
    | none => if mark.isPrefixOf (c :: cs) then some ([], (c :: cs).drop mark.length) else none

/-- A number of at most 64 bits at the start of a text, and what follows it. -/
def takeNumber? (cs : List Char) : Option (Nat × List Char) :=
  let (ds, rest) := takeDigits cs
  if ds.isEmpty || Nat.pow 2 64 ≤ ofDigits ds then none else some (ofDigits ds, rest)

/-- A line and a column, if a text is nothing else. -/
def position? (cs : List Char) : Option (Nat × Nat) := do
  let (line, rest) ← takeNumber? cs
  let mark := " column ".toList
  if !mark.isPrefixOf rest then none
  let (column, rest) ← takeNumber? (rest.drop mark.length)
  if rest.isEmpty then some (line, column) else none

def ofText (s : String) : Refusal :=
  match splitLast? " at line ".toList s.toList with
  | none => ⟨s, none⟩
  | some (before, after) =>
    match position? after with
    | none => ⟨s, none⟩
    | some (line, column) =>
      ⟨String.ofList before, if line = 0 then none else some (line, column)⟩

end Refusal

end Relay
