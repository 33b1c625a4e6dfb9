import Relay.Setting.Basic

/-!
Paths into settings: names with points between them, each of which may be followed by positions in
brackets. Whatever is on the way of a path becomes a table or a list, as the path needs it.
-/

namespace Relay

namespace Setting

/-- A step into a setting. -/
inductive Step where
  | name (n : String)
  /-- To a position in a list; a negative one counts from its end. -/
  | position (i : Int)

/-- The name in lower case, as far as it is ASCII. -/
def fold (name : String) : String := String.ofList (lowerCase name.toList)

/-! ### Reading -/

/-- Whether a character may be part of a name in a path. -/
def isNameChar (c : Char) : Bool := c.isAlphanum || c == ' ' || c == '_' || c == '-'

/-- The text without spaces and tabs at its two ends. -/
def trimSpaces (cs : List Char) : List Char :=
  let isSpace (c : Char) : Bool := c == ' ' || c == '\t'
  ((cs.dropWhile isSpace).reverse.dropWhile isSpace).reverse

/-- The position that a text with its closing bracket denotes, within 64 bits with a sign. -/
def position? (cs : List Char) : Option Step :=
  let digits := trimSpaces cs.dropLast
  if cs.getLast? = some ']' ∧ digits.head? ≠ some '+' then
    ((integer? (String.ofList digits)).filter fits64).map .position
  else none

/-- The steps that a text between points stands for: a name, and the positions after it. -/
def stepsBetween? (cs : List Char) : Option (List Step) :=
  match cs.splitOn '[' with
  | [] => none
  | name :: positions =>
    if !name.isEmpty && name.all isNameChar then
      (positions.mapM position?).map (.name (String.ofList name) :: ·)
    else none

/-- The path that a name stands for; a name that is not a path is one step as a whole. -/
def path (name : String) : List Step :=
  match ((fold name).toList.splitOn '.').mapM stepsBetween? with
  | some steps => steps.flatten
  | none => [.name (fold name)]

/-! ### Tables and lists -/

/-- The entries of a table; anything else has none. -/
def entries : Setting → List (String × Setting)
  | table entries => entries
  | _ => []

/-- The items of a list; anything else has none. -/
def items : Setting → List Setting
  | list items => items
  | _ => []

/-- Puts a setting under a name, in place of what is there. -/
def assign (name : String) (v : Setting) : List (String × Setting) → List (String × Setting)
  | [] => [(name, v)]
  | (n, w) :: rest => if n = name then (n, v) :: rest else (n, w) :: assign name v rest

/-- Changes what is at a position. A list that is too short is filled up with nothing, in front for a
position before its beginning. -/
def changeItem (f : Setting → Setting) (i : Int) (items : List Setting) : List Setting :=
  let n := if 0 ≤ i then i.toNat else (items.length + i).toNat
  let items := List.replicate (-(items.length + i)).toNat null ++ items
  (items ++ List.replicate (n + 1 - items.length) null).modify n f

/-! ### Merging -/

mutual

/-- What is there after a setting has been merged into it. -/
def mergeOver (base : Setting) : Setting → Setting
  | .table incoming => mergeEntries base incoming
  | v => v

/-- What is there after the entries of a table have been merged into it one by one. Without entries it
stays as it is; the first entry makes a table of it. -/
def mergeEntries (base : Setting) : List (String × Setting) → Setting
  | [] => base
  | (name, v) :: rest =>
    let below := (base.entries.lookup (fold name)).getD (.table [])
    mergeEntries (.table (assign (fold name) (mergeOver below v) base.entries)) rest

end

/-- Puts a setting at the end of a path: it is merged into what has a name, and takes the place of what
has a position. -/
def mergeAt (base : Setting) (v : Setting) : List Step → Setting
  | [] => mergeOver base v
  | .name n :: path =>
    let below := (base.entries.lookup n).getD (.table [])
    .table (assign n (mergeAt below v path) base.entries)
  | [.position i] => .list (changeItem (fun _ => v) i base.items)
  | .position i :: step :: path =>
    .list (changeItem (fun below => mergeAt below v (step :: path)) i base.items)

end Setting

end Relay
