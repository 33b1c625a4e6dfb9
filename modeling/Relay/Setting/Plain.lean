import Relay.Setting.Basic
import Relay.Text.Hex

/-!
Plain values: what a text without quotes stands for in an outline. Numbers may be written in base ten,
sixteen and eight.
-/

namespace Relay

namespace Setting

namespace Plain

open Text

/-- The number that digits of a base up to sixteen denote, which a sign may precede. -/
def inBase? (base : Nat) (cs : List Char) : Option Int :=
  let (negative, digits) := takeSign cs
  let values := digits.map fun c => (hexValue? c).filter (· < base)
  if digits.isEmpty || values.any (·.isNone) then none
  else
    let n := values.foldl (fun n v => base * n + v.getD 0) 0
    some (if negative then -(n : Int) else n)

/-- The whole number that a text stands for, within 64 bits with a sign: in base sixteen after `0x` and
in base eight after `0o`. A plus sign may precede a number that has a sign. -/
def whole? (s : String) : Option Int :=
  let n : Option Int := match s.toList with
    | '0' :: 'x' :: cs => inBase? 16 cs
    | '0' :: 'o' :: cs => inBase? 8 cs
    | '+' :: cs => integer? (String.ofList cs)
    | _ => integer? s
  n.filter fits64

def isNull (s : String) : Bool := s == "" || s == "~" || s == "null"

/-- Whether a text is a name of an infinity or of the non-number that no setting can have. -/
def isBoundless (s : String) : Bool :=
  [".inf", ".Inf", ".INF", "+.inf", "+.Inf", "+.INF", "-.inf", "-.Inf", "-.INF", ".nan", ".NAN"].contains s

/-- The floating-point number that a text stands for: it has a digit, or is the one name. -/
def real? (s : String) : Option Binary64 :=
  if s = "NaN" ∨ s.toList.any (·.isDigit) then Binary64.parse? s else none

def value? (s : String) : Option Setting :=
  if isNull s then some .null
  else if s = "true" then some (.flag true)
  else if s = "false" then some (.flag false)
  else if isBoundless s then none
  else
    match whole? s, real? s with
    | some n, _ => some (.whole n)
    | none, some x => some (.real x)
    | none, none => some (.text s)

/-- The name that a text stands for: whole numbers are names in base ten. -/
def name? (s : String) : Option String :=
  if isNull s then none
  else
    match whole? s with
    | some n => some (toString n)
    | none => some s

end Plain

end Setting

end Relay
