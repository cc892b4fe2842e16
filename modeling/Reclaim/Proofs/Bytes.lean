import Mathlib
import Reclaim.Bytes

/-!
# Exact sums behind counts

However bytes are added up, the count that comes out is the exact total less a multiple of
`Bytes.limit`, and so the exact total itself if that is smaller than the limit.

## Main results

* `Bytes.sum_eq` : a sum of counts is the count of the exact sum.
* `Bytes.wrap_sum_congr` : sums of numbers that count alike count alike.
-/

namespace Reclaim.Bytes

/-- Counts that are added up one after the other count their exact sum. -/
theorem foldl_add (counts : List ℕ) (n : ℕ) :
    counts.foldl add (wrap n) = wrap (n + counts.sum) := by
  induction counts generalizing n with
  | nil => rfl
  | cons count counts ih =>
    rw [List.foldl_cons, add, wrap_wrap_add, ih, List.sum_cons, Nat.add_assoc]

/-- A sum of counts is the count of the exact sum. -/
theorem sum_eq (counts : List ℕ) : sum counts = wrap counts.sum := by
  have hfold := foldl_add counts 0
  rwa [Nat.zero_add] at hfold

/-- Sums of numbers that count alike count alike. -/
theorem wrap_sum_congr {α : Type} {items : List α} {f g : α → ℕ}
    (h : ∀ item ∈ items, wrap (f item) = wrap (g item)) :
    wrap (items.map f).sum = wrap (items.map g).sum := by
  induction items with
  | nil => rfl
  | cons item items ih =>
    have hitem := h item List.mem_cons_self
    have hrest := ih fun item hmem => h item (List.mem_cons_of_mem _ hmem)
    rw [List.map_cons, List.map_cons, List.sum_cons, List.sum_cons, ← wrap_wrap_add, hitem,
      ← wrap_add_wrap, hrest, wrap_add_wrap, wrap_wrap_add]

end Reclaim.Bytes
