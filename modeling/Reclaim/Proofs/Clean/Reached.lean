import Reclaim.Proofs.Walk.Within

/-!
# The entries that a sweep reaches

The entries of a folder are deleted one after the other, each by the path of the folder with its
name behind it.  If that path runs through one of the entries itself, the entries behind that one
are out of reach once it is gone.  What a sweep takes away is settled by this before it begins.

## Main definitions

* `Path.Fits` : the path of an entry is not too long.
* `Sweep.RunsThrough` : the way to a folder runs through one of its entries.
* `Sweep.reached`, `Sweep.Takes` : the entries that are reached, and what goes with them.
* `Sweep.unreadBytes` : the bytes of the files below entries that no path reaches.

## Main results

* `Sweep.reached_append_singleton` : one entry more.
* `Sweep.takes_iff` : what is taken away of one entry.
* `Sweep.takes_iff_of_clear` : all that is taken away if the way runs through no entry.
-/

namespace Reclaim

open Node

/-- The path of an entry is not too long for the operating system. -/
def Path.Fits (root : Path) (name : String) : Prop :=
  (root.child name).text.utf8ByteSize < Disk.pathLimit

instance (root : Path) (name : String) : Decidable (root.Fits name) :=
  inferInstanceAs (Decidable (_ < _))

theorem Path.fits_iff {root : Path} {name : String} :
    root.Fits name ↔ (root.child name).isTooLong = false := by
  simp [Fits, isTooLong]

namespace Sweep

variable {root : Path} {seen : List Place} {place q : Place} {listed : Node} {name : String}
  {entries : List (String × Node)}

/-! ### Reaching an entry -/

/-- The way to a folder runs through one of the entries of the folder. -/
def RunsThrough (seen : List Place) (place : Place) (name : String) : Prop :=
  ∃ q ∈ seen, place ++ [name] <+: q

instance (seen : List Place) (place : Place) (name : String) :
    Decidable (RunsThrough seen place name) :=
  inferInstanceAs (Decidable (∃ q ∈ seen, _))

/-- The entries that are reached by their paths when they have their turns: those whose paths are
not too long, up to the first one that the way to the folder runs through. -/
def reached (root : Path) (seen : List Place) (place : Place) :
    List (String × Node) → List (String × Node)
  | [] => []
  | entry :: entries =>
    if ¬root.Fits entry.1 then reached root seen place entries
    else if RunsThrough seen place entry.1 then [entry]
    else entry :: reached root seen place entries

theorem reached_sublist (root : Path) (seen : List Place) (place : Place)
    (entries : List (String × Node)) : (reached root seen place entries).Sublist
      (entries.filter fun entry => root.Fits entry.1) := by
  induction entries with
  | nil => exact .slnil
  | cons first entries ih =>
    rw [reached]
    split
    next hlong => rwa [List.filter_cons_of_neg (by simpa using hlong)]
    next hfits =>
      rw [List.filter_cons_of_pos (by simpa using hfits)]
      split
      · exact (List.nil_sublist _).cons_cons first
      · exact ih.cons_cons first

theorem mem_of_mem_reached {entry : String × Node} (h : entry ∈ reached root seen place entries) :
    entry ∈ entries ∧ root.Fits entry.1 := by
  have hmem := (reached_sublist root seen place entries).subset h
  simpa using hmem

/-- If the way runs through none of the entries that are reached, all are that can be. -/
theorem reached_eq_filter
    (h : ∀ entry ∈ reached root seen place entries, ¬RunsThrough seen place entry.1) :
    reached root seen place entries = entries.filter fun entry => root.Fits entry.1 := by
  induction entries with
  | nil => rfl
  | cons first entries ih =>
    rw [reached] at h ⊢
    split at h
    next hlong =>
      rw [if_pos hlong, ih h, List.filter_cons_of_neg (by simpa using hlong)]
    next hfits =>
      rw [not_not] at hfits
      rw [if_neg (not_not.mpr hfits), List.filter_cons_of_pos (by simpa using hfits)]
      split at h
      next hruns => exact absurd hruns (h first (List.mem_singleton_self first))
      next hruns =>
        rw [if_neg hruns, ih fun entry he => h entry (List.mem_cons_of_mem first he)]

/-- One entry more. -/
theorem reached_append_singleton (entries : List (String × Node)) (entry : String × Node) :
    reached root seen place (entries ++ [entry]) =
      if (∀ e ∈ reached root seen place entries, ¬RunsThrough seen place e.1) ∧ root.Fits entry.1
      then reached root seen place entries ++ [entry] else reached root seen place entries := by
  induction entries with
  | nil => by_cases hfits : root.Fits entry.1 <;> simp [reached, hfits]
  | cons first entries ih =>
    rw [List.cons_append, reached, reached, ih]
    by_cases hfits : root.Fits first.1
    · by_cases hruns : RunsThrough seen place first.1
      · simp [hfits, hruns]
      · simp only [hfits, hruns, not_true_eq_false, ↓reduceIte, List.forall_mem_cons,
          not_false_eq_true, true_and]
        split <;> rfl
    · simp only [hfits, not_false_eq_true, ↓reduceIte]

/-! ### What is taken away -/

/-- What a sweep takes away: the entries that are reached, with all below them.  A folder that the
way runs through is emptied and left. -/
def Takes (root : Path) (seen : List Place) (place : Place) (entries : List (String × Node))
    (q : Place) : Prop :=
  ∃ entry ∈ reached root seen place entries, place ++ [entry.1] <+: q ∧
    (place ++ [entry.1] = q → ∀ q' ∈ seen, ¬(q <+: q' ∧ q ≠ q'))

theorem inside_of_child (h : place ++ [name] <+: q) : place <+: q ∧ place ≠ q := by
  refine ⟨(List.prefix_append _ _).trans h, ?_⟩
  rintro rfl
  have hlength := h.length_le
  rw [List.length_append, List.length_singleton] at hlength
  omega

/-- Only what is inside the directory is taken away. -/
theorem Takes.inside (h : Takes root seen place entries q) : place <+: q ∧ place ≠ q := by
  obtain ⟨entry, -, habove, -⟩ := h
  exact inside_of_child habove

/-- What is taken away of an entry and of what is below it. -/
theorem takes_iff (once : (entries.map Prod.fst).Nodup) (he : (name, listed) ∈ entries)
    (rest : Place) : Takes root seen place entries (place ++ name :: rest) ↔
      (name, listed) ∈ reached root seen place entries ∧
        (rest = [] → ∀ q ∈ seen, ¬(place ++ [name] <+: q ∧ place ++ [name] ≠ q)) := by
  constructor
  · rintro ⟨⟨name', node⟩, hreached, habove, hend⟩
    obtain rfl : name' = name := by simpa using habove
    obtain rfl : node = listed := by
      have hlookup := lookup_of_mem once (mem_of_mem_reached hreached).1
      rw [lookup_of_mem once he] at hlookup
      exact (Option.some.inj hlookup).symm
    refine ⟨hreached, ?_⟩
    rintro rfl
    exact hend rfl
  · rintro ⟨hreached, hend⟩
    refine ⟨_, hreached, by simp, fun heq => ?_⟩
    obtain rfl : rest = [] := by simpa using heq.symm
    exact hend rfl

/-- The bytes of the files below some entries of a folder that no path from the folder reaches. -/
def unreadBytes (root : Path) (entries : List (String × Node)) : Nat :=
  (entries.map fun entry => entry.2.unreadBytes (root.child entry.1)).sum

theorem unreadBytes_singleton (root : Path) (name : String) (node : Node) :
    unreadBytes root [(name, node)] = node.unreadBytes (root.child name) :=
  List.sum_singleton

theorem unreadBytes_append (root : Path) (entries entries' : List (String × Node)) :
    unreadBytes root (entries ++ entries') =
      unreadBytes root entries + unreadBytes root entries' := by
  simp [unreadBytes]

theorem unreadBytes_filter (root : Path) (entries : List (String × Node)) :
    unreadBytes root (entries.filter fun entry => root.Fits entry.1) = (entries.map fun entry =>
      if root.Fits entry.1 then entry.2.unreadBytes (root.child entry.1) else 0).sum := by
  induction entries with
  | nil => rfl
  | cons entry entries ih =>
    rw [List.map_cons, List.sum_cons, ← ih]
    by_cases hfits : root.Fits entry.1 <;> simp [unreadBytes, hfits]

theorem takes_append_singleton {entry : String × Node} (hreached : reached root seen place
      (entries ++ [entry]) = reached root seen place entries ++ [entry]) (q : Place) :
    Takes root seen place (entries ++ [entry]) q ↔ Takes root seen place entries q ∨
      place ++ [entry.1] <+: q ∧
        (place ++ [entry.1] = q → ∀ q' ∈ seen, ¬(q <+: q' ∧ q ≠ q')) := by
  rw [Takes, hreached]
  simp only [List.mem_append, List.mem_singleton, or_and_right, exists_or, exists_eq_left]
  rfl

theorem not_runsThrough (hclear : ∀ q ∈ seen, ¬(place <+: q ∧ place ≠ q)) (name : String) :
    ¬RunsThrough seen place name :=
  fun ⟨q, hq, habove⟩ => hclear q hq (inside_of_child habove)

/-- If the way runs through nothing inside the folder, all entries are taken away whose paths are
not too long. -/
theorem takes_iff_of_clear (hclear : ∀ q ∈ seen, ¬(place <+: q ∧ place ≠ q)) :
    Takes root seen place entries q ↔
      ∃ name ∈ entries.map Prod.fst, root.Fits name ∧ place ++ [name] <+: q := by
  rw [Takes, reached_eq_filter fun entry _ => not_runsThrough hclear entry.1]
  constructor
  · rintro ⟨entry, he, habove, -⟩
    obtain ⟨hmem, hfits⟩ := List.mem_filter.mp he
    exact ⟨entry.1, List.mem_map_of_mem hmem, of_decide_eq_true hfits, habove⟩
  · rintro ⟨name, hname, hfits, habove⟩
    obtain ⟨entry, he, rfl⟩ := List.mem_map.mp hname
    refine ⟨entry, List.mem_filter.mpr ⟨he, decide_eq_true hfits⟩, habove, ?_⟩
    exact fun _ q' hq' hbelow => hclear q' hq' (inside_of_child (habove.trans hbelow.1))

end Sweep

end Reclaim
