/-!
# Published values

While it works, an operation publishes a progress line, whether it is busy, and a number of bytes.
Every write replaces the value and counts as news for those who watch, even if the value stays the
same.

## Main definitions

* `Published` : a value with the number of its writes.
* `Signals` : the three values of a family of operations.
-/

namespace Reclaim

/-- A value that others watch. -/
structure Published (α : Type) where
  value : α
  /-- How often the value has been written. -/
  writes : Nat := 0
  deriving DecidableEq, Repr

/-- The value is replaced. -/
def Published.send {α : Type} (p : Published α) (value : α) : Published α :=
  ⟨value, p.writes + 1⟩

/-- Progress line, busy flag and byte count. -/
structure Signals where
  line : Published String := ⟨"", 0⟩
  busy : Published Bool := ⟨false, 0⟩
  bytes : Published Nat := ⟨0, 0⟩
  deriving DecidableEq, Repr

namespace Signals

/-- A new progress line. -/
def log (s : Signals) (line : String) : Signals :=
  { s with line := s.line.send line }

/-- Work begins or ends. -/
def setBusy (s : Signals) (busy : Bool) : Signals :=
  { s with busy := s.busy.send busy }

/-- A new number of bytes. -/
def setBytes (s : Signals) (bytes : Nat) : Signals :=
  { s with bytes := s.bytes.send bytes }

/-- All three values as they were in the beginning. -/
def reset (s : Signals) : Signals :=
  ((s.log "").setBusy false).setBytes 0

end Signals

end Reclaim
