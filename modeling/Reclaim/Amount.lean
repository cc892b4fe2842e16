import Reclaim.Decimal.Double

/-!
# Sizes and durations in words

A size is shown in the largest unit it reaches, a duration in milliseconds, seconds, or minutes
and seconds.  The unit is chosen by the exact value and the digits are rounded afterwards.

## Main definitions

* `Amount.size` : a number of bytes in words.
* `Amount.duration` : a number of seconds in words.
-/

namespace Reclaim.Amount

/-- The bytes of one kilobyte. -/
def kilobyte : Nat := Nat.pow 2 10

/-- The bytes of one megabyte. -/
def megabyte : Nat := Nat.pow 2 20

/-- The bytes of one gigabyte. -/
def gigabyte : Nat := Nat.pow 2 30

/-- The bytes of one terabyte. -/
def terabyte : Nat := Nat.pow 2 40

/-- A number of bytes in units of `unit`, computed in double precision. -/
def inUnit (places bytes unit : Nat) : String :=
  ((Double.ofNat bytes).divide unit).fixed places

/-- A number of bytes in words: two places from a megabyte on, one for kilobytes. -/
def size (bytes : Nat) : String :=
  if terabyte ≤ bytes then inUnit 2 bytes terabyte ++ " TB"
  else if gigabyte ≤ bytes then inUnit 2 bytes gigabyte ++ " GB"
  else if megabyte ≤ bytes then inUnit 2 bytes megabyte ++ " MB"
  else if kilobyte ≤ bytes then inUnit 1 bytes kilobyte ++ " KB"
  else Decimal.natural bytes ++ " B"

/-- A number of seconds in words: milliseconds below a second, seconds with one place below a
minute, and otherwise whole minutes with the seconds that are left. -/
def duration (seconds : Double) : String :=
  if seconds.below 1 then (seconds.scale 1000).fixed 0 ++ "ms"
  else if seconds.below 60 then seconds.fixed 1 ++ "s"
  else
    let minutes := (seconds.divide 60).floorWord
    let rest := seconds.subtract ((Double.ofNat minutes).scale 60)
    Decimal.natural minutes ++ "m " ++ rest.fixed 0 ++ "s"

end Reclaim.Amount
