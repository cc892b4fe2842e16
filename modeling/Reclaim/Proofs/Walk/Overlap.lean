import Reclaim.Proofs.Clean.Agreement

/-!
# Files that a scan counts more than once

The directories of a catalog are walked independently of each other.  Where one is inside another,
or a link leads from one to the other, both walks may show the same file, and the total counts it
for each of them.  The other way round, one walk may show what another conceals: the inside of a
bundle, or of a hidden directory, is shown if the directory is a start of its own.

A file is known by its place, which does not depend on the path that leads to it.  Whether it can be
measured does: a file is shown if its path from the directory is not too long.

## Main definitions

* `Disk.Shows`, `Disk.shownFiles` : the files that a scan shows below a path.
* `Disk.fileLength` : the length of the file at a place.
* `Catalog.shownFiles`, `Catalog.timesShown` : the files that some directory of a catalog shows, and
  how many directories show a file.

## Main results

* `Disk.mem_shownFiles_iff`, `Disk.bytes_scanned_eq` : the files of one directory and their bytes.
* `Scanner.totalBytes_run` : the total of a scan, and when it counts every file once.
-/

namespace Reclaim

open Node

/-! ### The files of one directory -/

namespace Disk

/-- A file is below the folder that a path leads to, neither hidden nor inside a bundle there, and
its path is not too long. -/
def Shows (d : Disk) (p : Path) (q : Place) : Prop :=
  ∃ place entries rest file, d.folderAt? p = some (place, entries) ∧ q = place ++ rest ∧
    (Node.folder entries).Reclaimable rest file ∧ file.isFile = true ∧
    (p.descend rest).isTooLong = false

/-- The places of the files that a scan shows below a path. -/
def shownFiles (d : Disk) (p : Path) : List Place :=
  match d.folderAt? p with
  | some (place, entries) =>
    ((inside isHiddenName isBundleName (.folder entries)).filter fun e =>
      e.2.isFile && !(p.descend e.1).isTooLong).map fun e => place ++ e.1
  | none => []

/-- The length of the file at a place. -/
def fileLength (d : Disk) (q : Place) : Nat :=
  ((d.top.at? q).map Node.length).getD 0

variable {d : Disk} {p p' : Path} {q place : Place} {entries : List (String × Node)}

theorem shownFiles_eq (h : d.folderAt? p = some (place, entries)) : d.shownFiles p =
    ((inside isHiddenName isBundleName (.folder entries)).filter fun e =>
      e.2.isFile && !(p.descend e.1).isTooLong).map fun e => place ++ e.1 := by
  rw [shownFiles, h]

theorem shownFiles_eq_nil (h : d.folderAt? p = none) : d.shownFiles p = [] := by
  rw [shownFiles, h]

theorem mem_shownFiles_iff (hsound : d.top.Sound) : q ∈ d.shownFiles p ↔ d.Shows p q := by
  cases h : d.folderAt? p with
  | none => simp [shownFiles_eq_nil h, Shows, h]
  | some found =>
    obtain ⟨place, entries⟩ := found
    have hfolder : Sound (.folder entries) := hsound.at? (folderAt?_eq_some_iff.mp h).2
    rw [shownFiles_eq h, List.mem_map]
    constructor
    · rintro ⟨⟨rest, file⟩, hmem, rfl⟩
      obtain ⟨hinside, hshown⟩ := List.mem_filter.mp hmem
      obtain ⟨hfile, hshort⟩ : file.isFile = true ∧ (p.descend rest).isTooLong = false := by
        simpa using hshown
      exact ⟨place, entries, rest, file, h, rfl, (mem_inside_iff_reclaimable hfolder).mp hinside,
        hfile, hshort⟩
    · rintro ⟨place', entries', rest, file, h', rfl, hreclaimable, hfile, hshort⟩
      cases h.symm.trans h'
      have hinside := (mem_inside_iff_reclaimable hfolder).mpr hreclaimable
      exact ⟨(rest, file), List.mem_filter.mpr ⟨hinside, by simp [hfile, hshort]⟩, rfl⟩

/-- One walk shows a file at most once. -/
theorem nodup_shownFiles (hsound : d.top.Sound) (p : Path) : (d.shownFiles p).Nodup := by
  cases h : d.folderAt? p with
  | none => simp [shownFiles_eq_nil h]
  | some found =>
    obtain ⟨place, entries⟩ := found
    have hfolder : Sound (.folder entries) := hsound.at? (folderAt?_eq_some_iff.mp h).2
    rw [shownFiles_eq h, List.Nodup, List.pairwise_map]
    refine ((pairwise_inside hfolder).filter _).imp fun hprefix hsame => hprefix ?_
    rw [List.append_cancel_left hsame]

/-- What a scan adds up below a path are the lengths of the files that it shows. -/
theorem bytes_scanned_eq (hsound : d.top.Sound) (p : Path) :
    ((d.scanned p).map itemBytes).sum = ((d.shownFiles p).map d.fileLength).sum := by
  rw [bytes_scanned hsound]
  cases h : d.folderAt? p with
  | none => rw [inFolder_eq_zero _ h, shownFiles_eq_nil h]; rfl
  | some found =>
    obtain ⟨place, entries⟩ := found
    obtain ⟨-, hat⟩ := folderAt?_eq_some_iff.mp h
    rw [inFolder_eq _ h, shownFiles_eq h, shownBytes, bytesOfFiles_inside_within (hsound.at? hat),
      sum_measuredLength, List.map_map]
    refine congrArg List.sum (List.map_congr_left fun e he => ?_)
    have hthere := ((mem_inside_iff (hsound.at? hat)).mp (List.mem_filter.mp he).1).2.1
    rw [Function.comp_apply, fileLength, at?_append, hat]
    simp [hthere]

/-- A file is shown by one of two directories at most if their folders are apart. -/
theorem Apart.not_shows (h : d.Apart p p') (hshows : d.Shows p q) : ¬d.Shows p' q := by
  rintro ⟨place', entries', rest', -, hfolder', rfl, -⟩
  obtain ⟨place, entries, rest, -, hfolder, hsame, -⟩ := hshows
  obtain ⟨hnot, hnot'⟩ := h (place, entries) hfolder (place', entries') hfolder'
  have hprefix : place <+: place' ++ rest' := ⟨rest, hsame.symm⟩
  rcases List.prefix_or_prefix_of_prefix hprefix (List.prefix_append place' rest') with h | h
  · exact hnot h
  · exact hnot' h

end Disk

/-! ### The files of a catalog -/

namespace Catalog

/-- The files that some directory of the catalog shows. -/
def shownFiles (c : Catalog) (d : Disk) : Finset Place :=
  (c.toList.flatMap fun root => d.shownFiles root.path).toFinset

/-- How many directories of the catalog show a file. -/
def timesShown (c : Catalog) (d : Disk) (q : Place) : Nat :=
  c.toList.countP fun root => q ∈ d.shownFiles root.path

variable {c : Catalog} {d : Disk} {q : Place}

theorem mem_shownFiles_iff (hsound : d.top.Sound) :
    q ∈ c.shownFiles d ↔ ∃ root ∈ c.toList, d.Shows root.path q := by
  simp only [shownFiles, List.mem_toFinset, List.mem_flatMap, Disk.mem_shownFiles_iff hsound]

theorem timesShown_pos (h : q ∈ c.shownFiles d) : 0 < c.timesShown d q := by
  rw [shownFiles, List.mem_toFinset, List.mem_flatMap] at h
  obtain ⟨root, hroot, hshown⟩ := h
  exact List.countP_pos_iff.mpr ⟨root, hroot, by simpa using hshown⟩

/-- A file is found by the walks as often as there are directories that show it. -/
theorem count_flatMap_shownFiles (hsound : d.top.Sound) (c : Catalog) (q : Place) :
    (c.toList.flatMap fun root => d.shownFiles root.path).count q = c.timesShown d q := by
  rw [timesShown]
  induction c.toList with
  | nil => rfl
  | cons root roots ih =>
    rw [List.flatMap_cons, List.count_append, ih, List.countP_cons, Nat.add_comm,
      (Disk.nodup_shownFiles hsound root.path).count]
    simp

/-- Directories that are apart show a file once. -/
theorem timesShown_le_one (hsound : d.top.Sound)
    (hapart : (c.toList.map ReclaimRoot.path).Pairwise d.Apart) (q : Place) :
    c.timesShown d q ≤ 1 := by
  rw [List.pairwise_map] at hapart
  have hall : ∀ roots : List ReclaimRoot, (roots.Pairwise fun r r' => d.Apart r.path r'.path) →
      (roots.countP fun root => q ∈ d.shownFiles root.path) ≤ 1 := by
    intro roots hroots
    induction hroots with
    | nil => simp
    | @cons root roots hroot hroots ih =>
      rw [List.countP_cons]
      by_cases hshown : q ∈ d.shownFiles root.path
      · have hrest : (roots.countP fun r => q ∈ d.shownFiles r.path) = 0 := by
          rw [List.countP_eq_zero]
          intro r hr hshown'
          rw [decide_eq_true_iff, Disk.mem_shownFiles_iff hsound] at hshown'
          exact (hroot r hr).not_shows ((Disk.mem_shownFiles_iff hsound).mp hshown) hshown'
        simp [hrest, hshown]
      · simpa [hshown] using ih
  exact hall c.toList hapart

end Catalog

/-! ### The total of a scan -/

namespace Scanner

/-- **What a scan counts.** The total of a scan is the sum of the lengths of the files that some
directory of its catalog shows, each as often as there are directories that show it, and exactly
this if a count can hold it.  The sum is never less than that over the different files, and it is
equal to it exactly if every file that is not empty is shown by one directory only; it is enough
that the folders of the directories are apart, none the same as another or inside it. -/
theorem totalBytes_run (home : Option Path) (seconds : Double) (s : Scanner) (d : Disk)
    (signals : Signals) (hsound : d.top.Sound) :
    let c := s.catalog
    let total := (s.run home seconds d signals).1.totalBytes
    let files := c.shownFiles d
    let added := ∑ q ∈ files, c.timesShown d q * d.fileLength q
    (∀ p q, q ∈ d.shownFiles p ↔ d.Shows p q) ∧
    (∀ q, q ∈ files ↔ ∃ root ∈ c.toList, d.Shows root.path q) ∧
    total = Bytes.wrap added ∧ (added < Bytes.limit → total = added) ∧
    ∑ q ∈ files, d.fileLength q ≤ added ∧
    (added = ∑ q ∈ files, d.fileLength q ↔
      ∀ q ∈ files, 0 < d.fileLength q → c.timesShown d q = 1) ∧
    ((c.toList.map ReclaimRoot.path).Pairwise d.Apart → added = ∑ q ∈ files, d.fileLength q) := by
  intro c total files added
  have htotal : total = Bytes.wrap added := by
    rw [show total = _ from (totals_run home d seconds s signals).1]
    simp only [Disk.bytes_scanned_eq hsound]
    refine congrArg Bytes.wrap ?_
    calc (c.toList.map fun root => ((d.shownFiles root.path).map d.fileLength).sum).sum
        = ((c.toList.flatMap fun root => d.shownFiles root.path).map d.fileLength).sum := by
          rw [List.flatMap_def, List.map_flatten, List.sum_flatten, List.map_map, List.map_map]
          rfl
      _ = ∑ q ∈ files, c.timesShown d q * d.fileLength q := by
          rw [Finset.sum_list_map_count]
          refine Finset.sum_congr rfl fun q _ => congrArg (· * _) ?_
          convert Catalog.count_flatMap_shownFiles hsound c q
  have hless : ∀ q ∈ files, d.fileLength q ≤ c.timesShown d q * d.fileLength q := fun q hq =>
    Nat.le_mul_of_pos_left _ (Catalog.timesShown_pos hq)
  have honce : added = ∑ q ∈ files, d.fileLength q ↔
      ∀ q ∈ files, 0 < d.fileLength q → c.timesShown d q = 1 := by
    rw [eq_comm, Finset.sum_eq_sum_iff_of_le hless]
    refine forall₂_congr fun q hq => ?_
    rcases Nat.eq_zero_or_pos (d.fileLength q) with hempty | hsome
    · simp [hempty]
    · rw [eq_comm, Nat.mul_eq_right hsome.ne']
      simp [hsome]
  refine ⟨fun _ _ => Disk.mem_shownFiles_iff hsound, fun _ => Catalog.mem_shownFiles_iff hsound,
    htotal, fun hsmall => htotal.trans (Bytes.wrap_of_lt hsmall), Finset.sum_le_sum hless, honce,
    fun hapart => honce.mpr fun q hq _ => ?_⟩
  exact le_antisymm (Catalog.timesShown_le_one hsound hapart q) (Catalog.timesShown_pos hq)

/-- A home with one file of three bytes, two steps below the caches. -/
def nestedCache : Disk :=
  ⟨.folder [("h", .folder [("Library", .folder [("Caches", .folder [
    ("app", .folder [("f", .file 0 (.bytes ⟨#[1, 2, 3]⟩))])])])])]⟩

theorem sound_nestedCache : nestedCache.top.Sound := by decide

/-- The scanner of that home whose settings name the inner directory as an extra one. -/
def nestedScanner : Scanner :=
  ofCatalog (Catalog.forUser (some ⟨"/h"⟩) [⟨"~/Library/Caches/app"⟩]) defaultEvery

/-- The scan of that home tells six bytes where there are three: the file is shown by the caches and
by the extra directory. -/
theorem totalBytes_run_nestedCache : nestedCache.top.Sound ∧
    (nestedScanner.run (some ⟨"/h"⟩) .nan nestedCache {}).1.totalBytes = 6 ∧
    ∑ q ∈ nestedScanner.catalog.shownFiles nestedCache, nestedCache.fileLength q = 3 := by
  have hfiles : nestedScanner.catalog.shownFiles nestedCache =
      {["h", "Library", "Caches", "app", "f"]} := by
    decide +kernel
  have htimes : nestedScanner.catalog.timesShown nestedCache
      ["h", "Library", "Caches", "app", "f"] = 2 := by
    decide +kernel
  obtain ⟨-, -, htotal, -⟩ :=
    totalBytes_run (some ⟨"/h"⟩) .nan nestedScanner nestedCache {} sound_nestedCache
  refine ⟨sound_nestedCache, htotal.trans ?_, ?_⟩
  · rw [hfiles, Finset.sum_singleton, htimes]
    decide
  · rw [hfiles, Finset.sum_singleton]
    decide

end Scanner

end Reclaim
