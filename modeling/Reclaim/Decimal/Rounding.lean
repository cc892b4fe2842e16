/-!
# Rounding to decimal places

Exact fractions are written with a fixed number of decimal places: the nearest such number is
taken, and of two that are equally near the one with the even last digit.

## Main definitions

* `Decimal.roundDiv` : the whole number nearest to a fraction.
* `Decimal.fixed` : a fraction with a fixed number of places.
-/

namespace Reclaim.Decimal

/-- The whole number nearest to `num / den`; a half goes to the even neighbour. -/
def roundDiv (num den : Nat) : Nat :=
  let low := num / den
  let rest := num % den
  if 2 * rest < den then low
  else if den < 2 * rest then low + 1
  else if low % 2 = 0 then low else low + 1

/-- The decimal digits of a number. -/
def digits (n : Nat) : List Char :=
  Nat.toDigits 10 n

/-- The decimal digits of a number, with zeros in front up to the given width. -/
def digitsPadded (width n : Nat) : List Char :=
  List.replicate (width - (digits n).length) '0' ++ digits n

/-- The fraction `num / den` with `places` digits behind the point, and no point without digits. -/
def fixed (places num den : Nat) : String :=
  let units := roundDiv (num * Nat.pow 10 places) den
  let whole := digits (units / Nat.pow 10 places)
  if places = 0 then String.ofList whole
  else String.ofList (whole ++ '.' :: digitsPadded places (units % Nat.pow 10 places))

/-- A number in decimal. -/
def natural (n : Nat) : String :=
  String.ofList (digits n)

/-- A whole number in decimal, with a minus sign if it is negative. -/
def integer : Int → String
  | .ofNat n => natural n
  | .negSucc n => "-" ++ natural (n + 1)

end Reclaim.Decimal
