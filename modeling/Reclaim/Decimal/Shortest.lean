import Reclaim.Decimal.Double

/-!
# The shortest decimal that reads back

In data a double is written with the fewest digits that no other double is nearer to, and among
those with the ones nearest to its exact value.

## Main definitions

* `Double.shortest` : the digits and the power of ten.
* `Double.plain` : the text of a double in data.
-/

namespace Reclaim.Double

/-- The power of ten of the leading digit of a positive fraction below one: the number of places
by which it has to be moved until it reaches one. -/
def leadingPlaces : Nat → Nat → Nat → Nat
  | 0, _, _ => 0
  | fuel + 1, num, den => if den ≤ num then 0 else leadingPlaces fuel (num * 10) den + 1

/-- The power of ten of the leading digit of a positive fraction. -/
def decimalExponent (num den : Nat) : Int :=
  if den ≤ num then (Decimal.digits (num / den)).length - 1
  else -(leadingPlaces 400 num den : Int)

/-- The bounds of the values that are nearest to a positive double, in quarters of its last
place: the place below a power of two is only half as wide. -/
def bounds (m : Nat) (e : Int) : Nat × Nat :=
  (if m = Nat.pow 2 52 ∧ minExponent < e then 4 * m - 1 else 4 * m - 2, 4 * m + 2)

/-- The decimal `d * 10 ^ k` is nearest to the double among all doubles. -/
def readsBack (m : Nat) (e : Int) (d : Nat) (k : Int) : Bool :=
  let (low, high) := bounds m e
  let (unit, unitDen) := fraction 1 e
  let (num, den) : Nat × Nat := match k with
    | .ofNat k => (d * Nat.pow 10 k, 1)
    | .negSucc k => (d, Nat.pow 10 (k + 1))
  let mid := 4 * num * unitDen
  let low := low * unit * den
  let high := high * unit * den
  if m % 2 = 0 then low ≤ mid && mid ≤ high else low < mid && mid < high

/-- Of the two neighbours of a positive double with the last digit at `10 ^ k`, the one that
reads back, or the nearer one if both do. -/
def candidate? (m : Nat) (e : Int) (k : Int) : Option Nat :=
  let (num, den) := fraction m e
  let (num, den) : Nat × Nat := match k with
    | .ofNat k => (num, den * Nat.pow 10 k)
    | .negSucc k => (num * Nat.pow 10 (k + 1), den)
  let low := num / den
  let nearer := Decimal.roundDiv num den
  let other := if nearer = low then low + 1 else low
  if readsBack m e nearer k then some nearer
  else if readsBack m e other k then some other
  else none

/-- The digits and the power of ten of the shortest decimal with at least `count` digits, trying
at most `fuel` lengths.  A last digit zero, which only a carry leaves, goes into the power. -/
def shortestFrom (m : Nat) (e lead : Int) : Nat → Nat → Nat × Int
  | 0, count => (0, lead - count)
  | fuel + 1, count =>
    let k := lead - count + 1
    match candidate? m e k with
    | some d => if d % 10 = 0 then (d / 10, k + 1) else (d, k)
    | none => shortestFrom m e lead fuel (count + 1)

/-- The digits and the power of ten of the shortest decimal that reads back as a positive
double. -/
def shortest (m : Nat) (e : Int) : Nat × Int :=
  let (num, den) := fraction m e
  shortestFrom m e (decimalExponent num den) 17 1

/-- The text of digits and a power of ten: positional while the leading digit stands for
`10 ^ 15` or less and for more than `10 ^ -6`, otherwise with an exponent.  A whole number keeps
`.0` behind it. -/
def layout (digits : List Char) (k : Int) : List Char :=
  let lead := digits.length + k
  if 0 ≤ k ∧ lead ≤ 16 then digits ++ List.replicate k.toNat '0' ++ ['.', '0']
  else if 0 < lead ∧ lead ≤ 16 then digits.take lead.toNat ++ '.' :: digits.drop lead.toNat
  else if -5 < lead ∧ lead ≤ 0 then
    '0' :: '.' :: List.replicate (-lead).toNat '0' ++ digits
  else
    let point := match digits with
      | d :: rest@(_ :: _) => d :: '.' :: rest
      | one => one
    point ++ 'e' :: (Decimal.integer (lead - 1)).toList

/-- The text of a double in data; only finite ones have one. -/
def plain? : Double → Option String
  | .finite negative m e =>
    let sign := if negative then "-" else ""
    if m = 0 then some (sign ++ "0.0")
    else
      let (d, k) := shortest m e
      some (sign ++ String.ofList (layout (Decimal.digits d) k))
  | _ => none

end Reclaim.Double
