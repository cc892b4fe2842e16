import Reclaim.Proofs.Disk.Writing

/-!
# Making the folders of a path

The folders that a path names are made from the top down, each unless the path to it leads to a
folder already.  Nothing that was there is lost or changed, and all that is new are folders that the
path goes through.

## Main definitions

* `Disk.GrowsAlong` : folders along a path are all that is new.

## Main results

* `Disk.folderAt?_makeFolder` : the path to a new folder leads to it.
* `Disk.growsAlong_makeFolders` : what the disk shows after the folders of a path are made.
-/

namespace Reclaim

open Node

namespace Disk

variable {d d' : Disk} {p : Path} {q place : Place} {passed steps : List Component}

/-- Nothing of a disk is lost or changed in another, and all that is new there are folders to which
the beginnings of a path lead. -/
structure GrowsAlong (d d' : Disk) (p : Path) : Prop where
  kept : IsPartOf d.top d'.top
  made : ∀ q, d.top.at? q = none → d'.top.at? q ≠ none →
    ∃ front, front <+: p.components ∧ ∃ entries,
      d'.folderAt? (Path.ofComponents front) = some (q, entries)

/-- The path to a new folder leads to it, and everywhere else is what was there before. -/
theorem folderAt?_makeFolder (htop : d.top.isFolder = true) (h : d.makeFolder p = .ok d') :
    ∃ place, d'.folderAt? p = some (place, []) ∧
      ∀ q ≠ place, d'.top.bareAt? q = d.top.bareAt? q := by
  obtain ⟨place, haim, h⟩ := exists_ok_of_bind h
  cases hat : d.top.at? place with
  | some node =>
    rw [hat] at h
    cases h
  | none =>
    rw [hat] at h
    cases h
    have htakes := takes_of_aim htop haim (by simp [hat])
    have hlocate : Disk.locate ⟨d.top.put place (.folder [])⟩ true p = .ok (place, .folder []) :=
      locate_put htakes (fun _ => bareAt?_emptyFolder_below) (fun _ => Node.noConfusion)
        (fun _ => rfl) haim
    exact ⟨place, by rw [folderAt?, hlocate],
      fun q hq => bareAt?_put_of_ne htakes (fun _ => bareAt?_emptyFolder_below) hq⟩

/-- The folders behind those already passed are all that is new. -/
theorem exists_front_of_makeFoldersFrom (htop : d.top.isFolder = true)
    (h : makeFoldersFrom passed steps d = .ok d') (hfree : d.top.at? q = none)
    (hmade : d'.top.at? q ≠ none) : ∃ front, front <+: steps ∧ ∃ entries,
      d'.folderAt? (Path.ofComponents (passed ++ front)) = some (q, entries) := by
  induction steps generalizing passed d with
  | nil =>
    cases h
    exact absurd hfree hmade
  | cons step steps ih =>
    -- what is made behind this step is made behind it from here as well
    have hlonger {front : List Component} (hfront : front <+: steps)
        (hfolder : ∃ entries, d'.folderAt? (Path.ofComponents (passed ++ [step] ++ front)) =
          some (q, entries)) : ∃ front, front <+: step :: steps ∧ ∃ entries,
        d'.folderAt? (Path.ofComponents (passed ++ front)) = some (q, entries) := by
      refine ⟨step :: front, List.cons_prefix_cons.mpr ⟨rfl, hfront⟩, ?_⟩
      rwa [List.append_cons]
    rw [makeFoldersFrom] at h
    split at h
    · obtain ⟨front, hfront, hfolder⟩ := ih htop h hfree
      exact hlonger hfront hfolder
    · obtain ⟨made, hmake, h⟩ := exists_ok_of_bind h
      have htop' := isFolder_makeFolder htop hmake
      obtain ⟨place, hfolder, helsewhere⟩ := folderAt?_makeFolder htop hmake
      by_cases hq : q = place
      · subst hq
        exact ⟨[step], List.cons_prefix_cons.mpr ⟨rfl, List.nil_prefix⟩,
          folderAt?_of_isPartOf (isPartOf_makeFoldersFrom htop' h) hfolder⟩
      · have hfree' : made.top.at? q = none := by
          rw [← bareAt?_eq_none_iff, helsewhere q hq, bareAt?_eq_none_iff, hfree]
        obtain ⟨front, hfront, hfolder⟩ := ih htop' h hfree'
        exact hlonger hfront hfolder

theorem isFolder_makeFolders (htop : d.top.isFolder = true) (h : d.makeFolders p = .ok d') :
    d'.top.isFolder = true := by
  rw [makeFolders] at h
  split at h
  · cases h
  · exact isFolder_makeFoldersFrom htop h

/-- After the folders of a path are made, everything is as it was, and all that is new are folders
that the path goes through. -/
theorem growsAlong_makeFolders (htop : d.top.isFolder = true) (h : d.makeFolders p = .ok d') :
    d.GrowsAlong d' p := by
  rw [makeFolders] at h
  split at h
  · cases h
  · refine ⟨isPartOf_makeFoldersFrom htop h, fun q hfree hmade => ?_⟩
    simpa only [List.nil_append] using exists_front_of_makeFoldersFrom htop h hfree hmade

end Disk

end Reclaim
