import Relay.Number.Binary64

/-!
The shortest decimal text of a floating-point number: of the decimals that round to the number, those
on the coarsest decimal grid, and of these the nearest. It is written with all its places and never
with an exponent.
-/

namespace Relay.Binary64

/-- The reals that round to `m · 2 ^ e`, in quarters of its last place: numerators of the ends and
of the number itself over the denominator that all three share. -/
structure Interval where
  low : Nat
  mid : Nat
  high : Nat
  den : Nat
  closed : Bool

/-- The interval of `m · 2 ^ e`; below a power of two the gap is half as wide. -/
def interval (m : Nat) (e : Int) : Interval :=
  let below := if m = Nat.pow 2 52 ∧ minExponent < e then 1 else 2
  let unit := ratio 1 (e - 2)
  ⟨(4 * m - below) * unit.1, 4 * m * unit.1, (4 * m + 2) * unit.1, unit.2, m % 2 = 0⟩

/-- Whether `d · 10 ^ g` lies in the interval. -/
def Interval.contains (i : Interval) (d : Nat) (g : Int) : Bool :=
  let num := if g < 0 then d else d * Nat.pow 10 g.natAbs
  let den := if g < 0 then Nat.pow 10 g.natAbs else 1
  if i.closed then i.low * den ≤ num * i.den && num * i.den ≤ i.high * den
  else i.low * den < num * i.den && num * i.den < i.high * den

/-- The two neighbours of the number on the grid of multiples of `10 ^ g`, the nearer one first. -/
def Interval.neighbours (i : Interval) (g : Int) : List Nat :=
  let num := if g < 0 then i.mid * Nat.pow 10 g.natAbs else i.mid
  let den := if g < 0 then i.den else i.den * Nat.pow 10 g.natAbs
  let d := num / den
  if 2 * (num % den) ≤ den then [d, d + 1] else [d + 1, d]

/-- The decimal on the coarsest grid, going down from `10 ^ g` through `n` grids. -/
def Interval.coarsest (i : Interval) (g : Int) : Nat → Option (Nat × Int)
  | 0 => none
  | n + 1 =>
    match (i.neighbours g).find? fun d => i.contains d g with
    | some d => some (d, g)
    | none => i.coarsest (g - 1) n

/-- The digits of `d · 10 ^ g` with a point and leading zeros where they are needed. -/
def positional (d : Nat) (g : Int) : String :=
  let ds := Nat.toDigits 10 d
  if 0 ≤ g then String.ofList (ds ++ List.replicate g.natAbs '0')
  else
    let places := g.natAbs
    let ds := List.replicate (places + 1 - ds.length) '0' ++ ds
    String.ofList (ds.take (ds.length - places) ++ '.' :: ds.drop (ds.length - places))

def text : Binary64 → String
  | nan => "NaN"
  | infinite negative => if negative then "-inf" else "inf"
  | finite negative m e =>
    let sign := if negative then "-" else ""
    if m = 0 then sign ++ "0"
    else
      match (interval m e).coarsest 309 700 with
      | some (d, g) => sign ++ positional d g
      | none => sign

end Relay.Binary64
