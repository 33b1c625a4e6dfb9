/-!
Binary floating-point numbers with 53 bits of precision, as exact mathematical objects: a number is
a sign, a whole mantissa and a power of two, and each operation rounds its exact result to the
nearest number, ties to the even mantissa. `Binary64.ofRatio` is the only place that rounds.
-/

namespace Relay

/-- A floating-point number: `±mantissa · 2 ^ exponent`, an infinity, or no number. -/
inductive Binary64 where
  | nan
  | infinite (negative : Bool)
  | finite (negative : Bool) (mantissa : Nat) (exponent : Int)
deriving DecidableEq, Inhabited

namespace Binary64

/-- The least exponent: that of zero and of the smallest numbers. -/
def minExponent : Int := -1074

def maxExponent : Int := 971

/-- The whole number nearest to `num / den`; of two equally near ones, the even one. -/
def roundEven (num den : Nat) : Nat :=
  let q := num / den
  let r := num % den
  if 2 * r < den then q
  else if den < 2 * r then q + 1
  else if q % 2 = 0 then q else q + 1

/-- Numerator and denominator of `num / den · 2 ^ (-e)`. -/
def scaled (num den : Nat) (e : Int) : Nat × Nat :=
  if e < 0 then (num * Nat.pow 2 e.natAbs, den) else (num, den * Nat.pow 2 e.natAbs)

/-- The exponent with which `num / den` has a mantissa of 53 bits, but never less than the least
one. -/
def fitExponent (num den : Nat) : Int :=
  let e : Int := (num.log2 : Int) - den.log2 - 52
  let s := scaled num den e
  max minExponent (if s.1 < Nat.pow 2 52 * s.2 then e - 1 else e)

/-- The number `mantissa · 2 ^ exponent` for a mantissa of at most `2 ^ 53`, or the infinity if it
is too large. -/
def pack (negative : Bool) (mantissa : Nat) (exponent : Int) : Binary64 :=
  let n := if mantissa = Nat.pow 2 53 then (Nat.pow 2 52, exponent + 1) else (mantissa, exponent)
  if maxExponent < n.2 then infinite negative else finite negative n.1 n.2

/-- The number nearest to `num / den`, with a sign. -/
def ofRatio (negative : Bool) (num den : Nat) : Binary64 :=
  if num = 0 then finite negative 0 minExponent
  else
    let e := fitExponent num den
    let s := scaled num den e
    pack negative (roundEven s.1 s.2) e

def ofNat (n : Nat) : Binary64 := ofRatio false n 1

/-- The number nearest to `digits · 10 ^ exponent`. -/
def ofDecimal (negative : Bool) (digits : Nat) (exponent : Int) : Binary64 :=
  let size : Int := (Nat.toDigits 10 digits).length
  if digits = 0 then finite negative 0 minExponent
  else if 400 < exponent + size then infinite negative
  else if exponent + size < -400 then finite negative 0 minExponent
  else if exponent < 0 then ofRatio negative digits (Nat.pow 10 exponent.natAbs)
  else ofRatio negative (digits * Nat.pow 10 exponent.natAbs) 1

def one : Binary64 := ofNat 1

/-- The numerator and denominator of `mantissa · 2 ^ exponent`. -/
def ratio (mantissa : Nat) (exponent : Int) : Nat × Nat :=
  if exponent < 0 then (mantissa, Nat.pow 2 exponent.natAbs) else (mantissa * Nat.pow 2 exponent.natAbs, 1)

def mul : Binary64 → Binary64 → Binary64
  | nan, _ | _, nan => nan
  | infinite s, infinite t => infinite (s != t)
  | infinite s, finite t m _ => if m = 0 then nan else infinite (s != t)
  | finite s m _, infinite t => if m = 0 then nan else infinite (s != t)
  | finite s m e, finite t n f =>
    let r := ratio (m * n) (e + f)
    ofRatio (s != t) r.1 r.2

def div : Binary64 → Binary64 → Binary64
  | nan, _ | _, nan => nan
  | infinite _, infinite _ => nan
  | infinite s, finite t _ _ => infinite (s != t)
  | finite s _ _, infinite t => finite (s != t) 0 minExponent
  | finite s m e, finite t n f =>
    if n = 0 then if m = 0 then nan else infinite (s != t)
    else
      let r := ratio m (e - f)
      ofRatio (s != t) r.1 (r.2 * n)

instance : Mul Binary64 := ⟨mul⟩
instance : Div Binary64 := ⟨div⟩

def neg : Binary64 → Binary64
  | nan => nan
  | infinite s => infinite !s
  | finite s m e => finite (!s) m e

instance : Neg Binary64 := ⟨neg⟩

def isFinite : Binary64 → Bool
  | finite .. => true
  | _ => false

/-- Whether `m · 2 ^ e` is at most `n · 2 ^ f`. -/
def magnitudeLe (m : Nat) (e : Int) (n : Nat) (f : Int) : Bool :=
  m * Nat.pow 2 (e - min e f).toNat ≤ n * Nat.pow 2 (f - min e f).toNat

/-- The order of numbers and infinities; what is not a number is not below or above anything. -/
def le : Binary64 → Binary64 → Bool
  | nan, _ | _, nan => false
  | infinite true, _ | _, infinite false => true
  | infinite false, _ | _, infinite true => false
  | finite s m e, finite t n f =>
    match s, t with
    | false, false => magnitudeLe m e n f
    | true, true => magnitudeLe n f m e
    | true, false => true
    | false, true => m = 0 && n = 0

/-- The lesser of two; the other one if one is not a number. -/
def min : Binary64 → Binary64 → Binary64
  | nan, y => y
  | x, nan => x
  | x, y => if le x y then x else y

/-- The loop of `pow`: `r · x ^ n` by repeated squaring. -/
def powLoop (r x : Binary64) (n : Nat) : Binary64 :=
  let r := if n % 2 = 1 then r * x else r
  if n / 2 = 0 then r else powLoop r (x * x) (n / 2)
termination_by n

/-- The power, with a rounding after every multiplication of the repeated squaring. -/
def pow (x : Binary64) (n : Nat) : Binary64 := powLoop one x n

/-- The whole part, held between zero and `limit`; zero for what is not a number. -/
def toNatUpTo (limit : Nat) : Binary64 → Nat
  | nan => 0
  | infinite negative => if negative then 0 else limit
  | finite negative m e =>
    if negative then 0
    else
      let r := ratio m e
      Nat.min limit (r.1 / r.2)

/-- The nearest whole number, halves away from zero, held between zero and `limit`; zero for what is
not a number. -/
def roundUpTo (limit : Nat) : Binary64 → Nat
  | nan => 0
  | infinite negative => if negative then 0 else limit
  | finite negative m e =>
    if negative then 0
    else
      let r := ratio m e
      Nat.min limit ((2 * r.1 + r.2) / (2 * r.2))

end Binary64

end Relay
