import Reclaim.Proofs.Clean.Sweep

/-!
# The check on a directory is enough

A directory is checked before it is emptied, and each of its entries is checked again before it is
deleted.  The second check looks at the path of the entry only, and the first one has settled what
it will say: the entry is one name below the directory, so a protected path above it is above the
directory or is the directory, and so is the home directory.  No entry is ever turned down, and a
sweep is the same without the second check.

## Main definitions

* `Sweep.stepUnchecked`, `Sweep.runUnchecked` : a sweep that checks neither the directory nor its
  entries.

## Main results

* `Sweep.foldl_step_eq_unchecked` : the check on the entries changes nothing.
* `Sweep.isUserRoot_settles_entries` : what the check on a directory says of its entries.
-/

namespace Reclaim

namespace Sweep

variable {home : Option Path} {root : Path} {d : Disk} {entries : List (String × Node)}

/-- One entry of a directory's listing is deleted, whatever it is. -/
def stepUnchecked (root : Path) : Sweep × Disk → String × Node → Sweep × Disk
  | (sweep, d), (name, node) =>
    let child := root.child name
    match delete d child node with
    | .ok d' => ({ sweep with
        bytes := Bytes.add sweep.bytes (d.entrySize child)
        removed := sweep.removed + 1 }, d')
    | .error _ => ({ sweep with failed := sweep.failed + 1 }, d)

/-- The children of a directory are deleted, whatever it and they are. -/
def runUnchecked (root : Path) (d : Disk) : Sweep × Disk :=
  match d.list root with
  | .ok entries => entries.foldl (stepUnchecked root) ({}, d)
  | .error _ => ({}, d)

/-- The check on the entries of a directory changes nothing if the directory has passed its own. -/
theorem foldl_step_eq_unchecked (hroot : Safety.isUserRoot home root = true)
    (hnames : ∀ entry ∈ entries, IsName entry.1) (before : Sweep × Disk) :
    entries.foldl (step home root) before = entries.foldl (stepUnchecked root) before := by
  induction entries generalizing before with
  | nil => rfl
  | cons entry entries ih =>
    obtain ⟨hname, hnames⟩ := List.forall_mem_cons.mp hnames
    rw [List.foldl_cons, List.foldl_cons, step_eq hroot hname]
    exact ih hnames _

theorem isName_of_list (hsound : d.top.Sound) (hlist : d.list root = .ok entries) :
    ∀ entry ∈ entries, IsName entry.1 := by
  obtain ⟨place, hfolder⟩ := Disk.list_eq_ok_iff.mp hlist
  obtain ⟨-, hat⟩ := Disk.folderAt?_eq_some_iff.mp hfolder
  exact fun entry he => ((hsound.at? hat).named he).1

theorem run_eq_unchecked (hroot : Safety.isUserRoot home root = true) (hsound : d.top.Sound) :
    run home root d = runUnchecked root d := by
  rw [run, if_pos hroot, runUnchecked]
  cases hlist : d.list root with
  | error e => rfl
  | ok entries => exact foldl_step_eq_unchecked hroot (isName_of_list hsound hlist) _

/-- **The check on a directory settles the checks on its entries.** Let a directory pass the check,
with any text as the home directory or none.  Every entry, by whatever name, is a direct child of
the directory, is not protected, and is neither the home directory, a protected directory in it or
one of the fixed protected directories nor above one of these, so deleting it with all below it
spares them by the way they are written.  Emptying the directory on any disk therefore turns no
entry down: it is what happens if nothing is checked any more. -/
theorem isUserRoot_settles_entries (hroot : Safety.isUserRoot home root = true) :
    (∀ name, IsName name →
      Safety.isDirectChild (root.child name) root = true ∧
        Safety.isProtected home (root.child name) = false ∧
        ∀ p ∈ Safety.protectedList home, ¬(root.child name).components <+: p.components) ∧
      ∀ d : Disk, d.top.Sound → run home root d = runUnchecked root d := by
  refine ⟨fun name hname => ⟨?_, ?_, fun p hp => ?_⟩, fun d hsound => ?_⟩
  · exact root.isDirectChild_child hname
  · exact Safety.isProtected_child hroot hname
  · have hwithin := Safety.not_within_child hroot hname hp
    rw [Path.within, Bool.eq_false_iff, Ne, List.isPrefixOf_iff_prefix] at hwithin
    exact hwithin
  · exact run_eq_unchecked hroot hsound

/-- A cache whose path is written with needless slashes and dots; one of its entries has a name of
three dots, and another one is a link to the home directory. -/
def oddCache : Disk :=
  ⟨.folder [("h", .folder [("Library", .folder [("Caches", .folder [
    ("...", .folder [("x", .file 0 (.bytes ⟨#[1, 2, 3]⟩))]),
    ("Documents", .link "/h")])])])]⟩

/-- The entries of this cache pass the checks, and both are deleted. -/
theorem isUserRoot_settles_entries_oddCache :
    let home : Option Path := some ⟨"/h/"⟩
    let root : Path := ⟨"//h/./Library//Caches/"⟩
    Safety.isUserRoot home root = true ∧
      (Safety.isDirectChild (root.child "...") root = true ∧
        Safety.isProtected home (root.child "...") = false ∧
        ∀ p ∈ Safety.protectedList home, ¬(root.child "...").components <+: p.components) ∧
      run home root oddCache = runUnchecked root oddCache ∧
      (run home root oddCache).1 = ⟨5, 2, 0⟩ := by
  have hroot : Safety.isUserRoot (some ⟨"/h/"⟩) ⟨"//h/./Library//Caches/"⟩ = true := by
    decide +kernel
  have hfacts := isUserRoot_settles_entries hroot
  exact ⟨hroot, hfacts.1 "..." (by decide), hfacts.2 oddCache (by decide), by decide +kernel⟩

end Sweep

end Reclaim
