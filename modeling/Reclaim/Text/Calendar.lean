import Reclaim.Text.Digits
import Reclaim.Text.Reader

/-!
# Dates and times as text

A date is a day of the calendar, leap years included, and a time has hours, minutes and seconds.

## Main definitions

* `Text.Calendar.date`, `Text.Calendar.time`, `Text.Calendar.zone` : the readers.
-/

namespace Reclaim.Text.Calendar

open Reader

/-- A number of a fixed number of digits between two bounds. -/
def bounded (count low high : Nat) : Reader Nat := do
  let n := numberOf 10 (← exactCount Char.isDigit count)
  if low ≤ n ∧ n ≤ high then return n else failure

/-- The number of days of a month. -/
def daysIn (year month : Nat) : Nat :=
  if month = 2 then
    if year % 4 = 0 ∧ (year % 100 ≠ 0 ∨ year % 400 = 0) then 29 else 28
  else if month = 4 ∨ month = 6 ∨ month = 9 ∨ month = 11 then 30
  else 31

/-- A day of the calendar. -/
def date : Reader Unit := do
  let year ← bounded 4 0 9999
  char '-'
  let month ← bounded 2 1 12
  char '-'
  discard (bounded 2 1 (daysIn year month))

/-- An hour and a minute. -/
def hourMinute : Reader Unit := do
  discard (bounded 2 0 23)
  char ':'
  discard (bounded 2 0 59)

/-- A time of the day with seconds, a leap second included. -/
def time : Reader Unit := do
  hourMinute
  char ':'
  discard (bounded 2 0 60)
  discard (optional (do
    char '.'
    span1 Char.isDigit))

/-- The distance from universal time. -/
def zone : Reader Unit :=
  discard (oneOf fun c => c == 'Z' || c == 'z') <|> do
    discard (oneOf fun c => c == '+' || c == '-')
    hourMinute

end Reclaim.Text.Calendar
