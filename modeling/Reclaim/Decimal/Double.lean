import Reclaim.Decimal.Rounding

/-!
# Binary floating point, exactly

Durations are measured in IEEE double precision, and their printed digits depend on every bit.
A double is represented by its exact value, a whole number times a power of two; an
operation computes the exact result and rounds it once, to the nearest double and to the even one
of two.

## Main definitions

* `Double` : a value of IEEE binary64.
* `Double.nearest` : the double nearest to a fraction.
* `Double.scale`, `Double.divide`, `Double.subtract`, `Double.below` : the operations on durations.
* `Double.floorWord` : the whole part as an unsigned 64-bit word.
* `Double.fixed` : decimal text with a fixed number of places.
-/

namespace Reclaim

/-- A value of IEEE binary64.  A finite one is `mantissa * 2 ^ exponent` with a sign, which also
tells the two zeros apart. -/
inductive Double where
  | nan
  | infinite (negative : Bool)
  | finite (negative : Bool) (mantissa : Nat) (exponent : Int)
  deriving DecidableEq, Repr

namespace Double

/-- The magnitude `mantissa * 2 ^ exponent` as a fraction. -/
def fraction (mantissa : Nat) (exponent : Int) : Nat × Nat :=
  match exponent with
  | .ofNat e => (mantissa * Nat.pow 2 e, 1)
  | .negSucc e => (mantissa, Nat.pow 2 (e + 1))

/-- The exponent of the lowest bit. -/
def minExponent : Int := -1074

/-- The exponent at which a positive fraction has at most 53 bits before its point, never below
the lowest one. -/
def exponentOf (num den : Nat) : Int :=
  let guess := (Nat.log2 num : Int) - Nat.log2 den - 53
  let scaled := fraction den guess
  let exponent := if num * scaled.2 < Nat.pow 2 53 * scaled.1 then guess else guess + 1
  max exponent minExponent

/-- The double nearest to `num / den`, with the given sign. -/
def nearest (negative : Bool) (num den : Nat) : Double :=
  if num = 0 then .finite negative 0 0
  else
    let exponent := exponentOf num den
    let unit := fraction 1 exponent
    let mantissa := Decimal.roundDiv (num * unit.2) (den * unit.1)
    let (mantissa, exponent) :=
      if mantissa = Nat.pow 2 53 then (Nat.pow 2 52, exponent + 1) else (mantissa, exponent)
    if 971 < exponent then .infinite negative else .finite negative mantissa exponent

/-- The double nearest to a whole number. -/
def ofNat (n : Nat) : Double :=
  nearest false n 1

/-- A double multiplied by `factor`. -/
def scale (factor : Nat) : Double → Double
  | .finite negative m e =>
    let (num, den) := fraction m e
    nearest negative (num * factor) den
  | x => x

/-- A double divided by a positive whole number. -/
def divide (divisor : Nat) : Double → Double
  | .finite negative m e =>
    let (num, den) := fraction m e
    nearest negative num (den * divisor)
  | x => x

/-- The value of a finite double as a signed fraction. -/
def signed (negative : Bool) (m : Nat) (e : Int) : Int × Nat :=
  let (num, den) := fraction m e
  (if negative then -(num : Int) else num, den)

/-- The difference of two doubles. -/
def subtract : Double → Double → Double
  | .nan, _ | _, .nan => .nan
  | .infinite a, .infinite b => if a = b then .nan else .infinite a
  | .infinite a, .finite .. => .infinite a
  | .finite .., .infinite b => .infinite (!b)
  | .finite a m e, .finite b n f =>
    let (x, xd) := signed a m e
    let (y, yd) := signed b n f
    let difference := x * yd - y * xd
    nearest (difference < 0 || (difference == 0 && a && !b)) difference.natAbs (xd * yd)

/-- The double is less than a positive whole number; nothing is known of a NaN. -/
def below (bound : Nat) : Double → Bool
  | .nan => false
  | .infinite negative => negative
  | .finite negative m e =>
    let (num, den) := fraction m e
    negative || num < bound * den

/-- The largest unsigned 64-bit word. -/
def maxWord : Nat := Nat.pow 2 64 - 1

/-- The whole part as an unsigned 64-bit word: what is too large becomes the largest one, and
negative values and NaN become zero. -/
def floorWord : Double → Nat
  | .nan => 0
  | .infinite negative => if negative then 0 else maxWord
  | .finite negative m e =>
    let (num, den) := fraction m e
    if negative then 0 else min (num / den) maxWord

/-- Decimal text with a fixed number of places; the sign of a negative value is kept even if all
its digits are zero. -/
def fixed (places : Nat) : Double → String
  | .nan => "NaN"
  | .infinite negative => if negative then "-inf" else "inf"
  | .finite negative m e =>
    let (num, den) := fraction m e
    (if negative then "-" else "") ++ Decimal.fixed places num den

end Double

end Reclaim
