import Relay.Setting.Path
import Relay.Setting.Plain

/-!
Outlines: settings as lines of names and plain values, where deeper indentation means one level
further down. A comment begins with a hash sign after a blank. A line of three hyphens may stand before
the lines, and lines of three points before and after them.
-/

namespace Relay

namespace Setting

namespace Outline

def isSpace (c : Char) : Bool := c == ' ' || c == '\t'

/-- The text without the blanks at its end. -/
def trimEnd (cs : List Char) : List Char := (cs.reverse.dropWhile isSpace).reverse

/-! ### Lines -/

/-- A line of an outline. -/
structure Line where
  margin : List Char
  body : List Char
  commented : Bool

def Line.column (l : Line) : Nat := l.margin.length

/-- Splits off a comment, which the text begins with or a blank precedes. -/
def splitComment (afterSpace : Bool) : List Char → List Char × Bool
  | [] => ([], false)
  | c :: cs =>
    if c = '#' && afterSpace then ([], true)
    else
      let (body, commented) := splitComment (isSpace c) cs
      (c :: body, commented)

def lineOf (cs : List Char) : Line :=
  let (body, commented) := splitComment true (cs.dropWhile isSpace)
  { margin := cs.takeWhile isSpace, body := trimEnd body, commented }

/-- The text with a line feed in place of each carriage return, alone or before a line feed. -/
def unifyBreaks : List Char → List Char
  | '\r' :: '\n' :: cs => '\n' :: unifyBreaks cs
  | '\r' :: cs => '\n' :: unifyBreaks cs
  | c :: cs => c :: unifyBreaks cs
  | [] => []

/-- The lines of a text. A byte order mark may precede it, and a null character ends it. -/
def linesOf (s : String) : List (List Char) :=
  let cs := match s.toList with
    | '\ufeff' :: cs => cs
    | cs => cs
  (unifyBreaks (cs.takeWhile (· ≠ '\x00'))).splitOn '\n'

/-! ### What a line says -/

/-- What a line can say. -/
inductive Clause where
  /-- A name, and the text of its value, which may be empty. -/
  | entry (name : String) (text : List Char)
  | words (text : List Char)

/-- Whether a character means something else at the beginning of a text. -/
def isIndicator (c : Char) : Bool := ",[]\x7b\x7d#&*!|>%@`'\"".toList.contains c

/-- Whether a text may begin as it does without quotes. -/
def startsPlain : List Char → Bool
  | [] => false
  | c :: cs => if c = '-' ∨ c = '?' ∨ c = ':' then cs.head?.any (!isSpace ·) else !isIndicator c

/-- What is before and after the first colon that a blank follows or that ends the text. -/
def splitColon : List Char → Option (List Char × List Char)
  | [] => none
  | ':' :: [] => some ([], [])
  | c :: cs =>
    if c = ':' ∧ cs.head?.any isSpace then some ([], cs)
    else (splitColon cs).map fun (before, after) => (c :: before, after)

/-- The text of the value that follows a colon. Where a tab follows and no space, a letter or a digit
may not begin it. -/
def valueText? (cs : List Char) : Option (List Char) :=
  let after := cs.dropWhile isSpace
  let tabbed := cs.head? == some '\t' && !(cs.takeWhile isSpace).contains ' '
  let isWord (c : Char) : Bool := c.isAlphanum || c == '_' || c == '-'
  if after.isEmpty then some []
  else if startsPlain after && (splitColon after).isNone && !(tabbed && after.head?.any isWord) then
    some after
  else none

/-- The greatest length of a name, with the blanks after it. -/
def longestName : Nat := 1024

/-- What a line says that is not empty: `none` if it is malformed. -/
def Line.clause? (l : Line) : Option Clause :=
  if !startsPlain l.body then none
  else
    match splitColon l.body with
    | none => some (.words l.body)
    | some (name, rest) =>
      if longestName < name.length then none
      else do
        return .entry (← Plain.name? (String.ofList (trimEnd name))) (← valueText? rest)

/-! ### Reading -/

/-- What a line deeper than the innermost block would be. -/
inductive Deeper where
  | value
  | more (text : List Char)
  | nothing

/-- Where a reader of lines is. -/
structure Place where
  /-- The open blocks from the inside out, each with its column and the name that it is at. -/
  blocks : List (Nat × String) := []
  deeper : Deeper := .value
  read : Setting := .table []

/-- The names on the way to where the reader is. -/
def Place.names (p : Place) : List String := (p.blocks.map (·.2)).reverse

def at? (v : Setting) : List String → Option Setting
  | [] => some v
  | name :: names => (v.entries.lookup name).bind (at? · names)

/-- Puts a setting at the end of names. -/
def assignAt (base : Setting) (v : Setting) : List String → Setting
  | [] => v
  | name :: names =>
    let below := (base.entries.lookup name).getD .null
    .table (assign name (assignAt below v names) base.entries)

/-- Reads the text of a value, whose line may end with a comment. -/
def Place.value? (p : Place) (cs : List Char) (commented : Bool) : Option Place :=
  (Plain.value? (String.ofList cs)).map fun v =>
    { p with
      deeper := if cs.isEmpty then .value else if commented then .nothing else .more cs
      read := assignAt p.read v p.names }

/-- Reads what a line says into a block in its column, in which no name may occur twice. -/
def Place.entry? (p : Place) (outer : List (Nat × String)) (l : Line) : Clause → Option Place
  | .entry name cs =>
    let p := { p with blocks := (l.column, name) :: outer }
    if (at? p.read p.names).isSome then none else p.value? cs l.commented
  | .words _ => none

/-- Reads a line. Tabs cannot indent it. -/
def Place.line? (p : Place) (l : Line) : Option Place :=
  if l.body.isEmpty then
    some (match p.deeper, l.commented with
      | .more _, true => { p with deeper := .nothing }
      | _, _ => p)
  else
    match p.blocks with
    | [] => l.clause?.bind (p.entry? [] l)
    | (n, _) :: _ =>
      if (l.margin.take (n + 1)).contains '\t' then none
      else if l.column ≤ n then
        match p.blocks.dropWhile (l.column < ·.1) with
        | (m, _) :: outer => if m = l.column then l.clause?.bind (p.entry? outer l) else none
        | [] => none
      else
        match p.deeper with
        | .value =>
          l.clause?.bind fun
            | .words cs => p.value? cs l.commented
            | clause => p.entry? p.blocks l clause
        | .more cs =>
          if (splitColon l.body).isNone then p.value? (cs ++ ' ' :: l.body) l.commented else none
        | .nothing => none

/-! ### Documents -/

/-- Whether a line is the mark `c` three times, and nothing else but a comment. -/
def isMark (c : Char) (cs : List Char) : Bool :=
  (lineOf cs).margin.isEmpty && (lineOf cs).body == [c, c, c]

/-- Whether a line begins with the mark `c` three times. -/
def startsMark (c : Char) (cs : List Char) : Bool :=
  cs.take 3 == [c, c, c] && (cs.drop 3).head?.all isSpace

def isIdle (cs : List Char) : Bool := (lineOf cs).body.isEmpty || isMark '.' cs

/-- The lines of the only outline that there is, if a line of hyphens begins it, and if one has to. -/
def outline? (ls : List (List Char)) : Option (Bool × List (List Char)) :=
  let begun := ls.dropWhile fun l => isIdle l || l.head? == some '%'
  let directed := (ls.takeWhile fun l => isIdle l || l.head? == some '%').any (·.head? == some '%')
  let (marked, inside) := match begun with
    | l :: rest => if isMark '-' l then (true, rest) else (false, begun)
    | [] => (false, [])
  let isEnd (l : List Char) : Bool := startsMark '-' l || startsMark '.' l
  if (directed && !marked) || !(inside.dropWhile (!isEnd ·)).all isIdle then none
  else some (marked, inside.takeWhile (!isEnd ·))

/-- The setting that a text stands for: a text that says nothing is an empty table. -/
def parse? (s : String) : Option Setting := do
  let (marked, ls) ← outline? (linesOf s)
  let lines := ls.map lineOf
  if marked && lines.all (·.body.isEmpty) then return .null
  return (← lines.foldlM Place.line? {}).read

end Outline

end Setting

end Relay
