/-!
# Byte counts

The bytes of files are counted in sixty-four bits, and a count that becomes too large for them wraps
around.

## Main definitions

* `Bytes.limit` : the number from which on counts wrap around.
* `Bytes.wrap` : the count of a number of bytes.
* `Bytes.add`, `Bytes.sum` : counts added up.
-/

namespace Reclaim.Bytes

/-- How many numbers sixty-four bits hold. -/
def limit : Nat := 18446744073709551616

/-- The count of a number of bytes. -/
def wrap (n : Nat) : Nat :=
  n % limit

/-- Two counts added up. -/
def add (a b : Nat) : Nat :=
  wrap (a + b)

/-- Counts added up one after the other. -/
def sum (counts : List Nat) : Nat :=
  counts.foldl add 0

variable {n : Nat}

/-- A number of bytes below the limit is its own count. -/
theorem wrap_of_lt (h : n < limit) : wrap n = n :=
  Nat.mod_eq_of_lt h

@[simp] theorem wrap_zero : wrap 0 = 0 := rfl

@[simp] theorem wrap_wrap (n : Nat) : wrap (wrap n) = wrap n :=
  Nat.mod_mod n limit

@[simp] theorem wrap_wrap_add (a b : Nat) : wrap (wrap a + b) = wrap (a + b) :=
  Nat.mod_add_mod a limit b

@[simp] theorem wrap_add_wrap (a b : Nat) : wrap (a + wrap b) = wrap (a + b) :=
  Nat.add_mod_mod a b limit

@[simp] theorem add_wrap_wrap (a b : Nat) : add (wrap a) (wrap b) = wrap (a + b) := by
  rw [add, wrap_wrap_add, wrap_add_wrap]

theorem add_assoc (a b c : Nat) : add (add a b) c = add a (add b c) := by
  rw [add, add, add, add, wrap_wrap_add, wrap_add_wrap, Nat.add_assoc]

end Reclaim.Bytes
