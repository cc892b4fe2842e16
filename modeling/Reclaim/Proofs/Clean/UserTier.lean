import Reclaim.Proofs.Clean.Sweep
import Reclaim.Proofs.Safety.Catalogs

/-!
# What a clean of the user's directories does

The directories have their turns one after the other.  Whether one of them is still there, and where
its path leads, is settled when its turn comes, so overlapping directories and directories behind
links need no separate treatment: each visit takes away entries of one folder, and what is freed is
what the tree has lost, as far as paths reach it.

## Main definitions

* `Visit`, `Cleaner.turn`, `Cleaner.visits` : the turns of the directories, with the disks before
  and after.
* `Visit.gone`, `Visit.emptied`, `Visit.kept`, `Visit.tooLong` : entries of a directory.
* `Visit.goneLinkBytes`, `Visit.unreadBytes` : the texts of links that are gone, and the files that
  go without being counted, as no path reaches them.
* `Visit.Covers`, `Visit.IsClear` : places inside a directory, and paths that avoid them.
* `Visit.Takes` : what goes with a turn.
* `Cleaner.Clears` : what a clean does to the disk, and its figures.

## Main results

* `Cleaner.runUser_effect` : the effect of a clean and its figures.
* `Cleaner.sweepAll_alike` : the order of entries does not matter.
-/

namespace Reclaim

open Node

/-- The turn of a directory of the user. -/
structure Visit where
  root : Path
  before : Disk
  after : Disk

namespace Visit

/-- The entries of the directory that are gone after its turn. -/
def gone (v : Visit) : List (String × Node) :=
  match v.before.folderAt? v.root with
  | some (place, entries) => Sweep.gone place v.after entries
  | none => []

/-- The folders among the entries of the directory that are still there after its turn but have lost
their contents. -/
def emptied (v : Visit) : List (String × Node) :=
  match v.before.folderAt? v.root with
  | some (place, entries) => Sweep.emptied place v.after entries
  | none => []

/-- The other entries of the directory. -/
def kept (v : Visit) : List (String × Node) :=
  match v.before.folderAt? v.root with
  | some (place, entries) => Sweep.kept place v.after entries
  | none => []

/-- The entries of the directory whose paths are too long. -/
def tooLong (v : Visit) : List (String × Node) :=
  match v.before.folderAt? v.root with
  | some (_, entries) => entries.filter fun entry => ¬v.root.Fits entry.1
  | none => []

/-- The lengths of the links among the entries that are gone. -/
def goneLinkBytes (v : Visit) : Nat :=
  (v.gone.map fun entry => linkBytes entry.2).sum

/-- The bytes of the files below the entries that were deleted that no path from the directory
reaches. -/
def unreadBytes (v : Visit) : Nat :=
  Sweep.unreadBytes v.root (v.gone ++ v.emptied)

/-- The place lies inside the directory. -/
def Covers (v : Visit) (q : Place) : Prop :=
  ∃ place entries, v.before.folderAt? v.root = some (place, entries) ∧ place <+: q ∧ place ≠ q

/-- The turn takes away what is at the place. -/
def Takes (v : Visit) (q : Place) : Prop :=
  ∃ seen place entries, v.before.Leads true v.root seen place ∧
    v.before.top.at? place = some (.folder entries) ∧ Sweep.Takes v.root seen place entries q

/-- Only what lies inside the directory is taken away. -/
theorem Takes.covers {v : Visit} {q : Place} (h : v.Takes q) : v.Covers q := by
  obtain ⟨seen, place, entries, hleads, hat, htakes⟩ := h
  exact ⟨place, entries, Disk.folderAt?_eq_some_iff.mpr ⟨⟨seen, hleads⟩, hat⟩, htakes.inside⟩

/-- The path of the directory runs through nothing inside the directory. -/
def IsClear (v : Visit) : Prop :=
  ∀ seen place, v.before.Leads true v.root seen place → ∀ q ∈ seen, ¬(place <+: q ∧ place ≠ q)

end Visit

namespace Cleaner

/-- Directories that have their turns one after the other, with the figures of all. -/
def sweepAll (home : Option Path) : List ReclaimRoot → Disk → Sweep × Disk
  | [], d => ({}, d)
  | root :: roots, d =>
    let (sweep, d) := Sweep.run home root.path d
    let (rest, d) := sweepAll home roots d
    (sweep.add rest, d)

/-- The turn of a directory on a disk. -/
def turn (home : Option Path) (root : ReclaimRoot) (d : Disk) : Visit :=
  ⟨root.path, d, (Sweep.run home root.path d).2⟩

/-- The turns of the directories that may be emptied. -/
def visits (home : Option Path) : List ReclaimRoot → Disk → List Visit
  | [], _ => []
  | root :: roots, d =>
    let v := turn home root d
    if Safety.isUserRoot home root.path then v :: visits home roots v.after
    else visits home roots v.after

variable (home : Option Path) {root : ReclaimRoot} {roots : List ReclaimRoot} {d d' : Disk}
  {seen : List Place} {place : Place} {entries : List (String × Node)}

/-! ### Turns and figures -/

theorem add_assoc (a b c : Sweep) : (a.add b).add c = a.add (b.add c) := by
  simp [Sweep.add, Bytes.add_assoc, Nat.add_assoc]

/-- Nothing changes where nothing happened. -/
theorem add_nothing {total : Sweep} (h : Bytes.wrap total.bytes = total.bytes) :
    total.add {} = total := by
  obtain ⟨bytes, removed, failed⟩ := total
  exact congrArg (Sweep.mk · removed failed) h

/-- Nothing happens to a directory that does not exist. -/
theorem run_of_not_isPresent {p : Path} (h : ¬d.isPresent p = true) :
    Sweep.run home p d = ({}, d) := by
  refine Sweep.run_eq_self (.inr ?_)
  rw [Option.eq_none_iff_forall_ne_some]
  rintro ⟨place, entries⟩ hfolder
  obtain ⟨⟨seen, hleads⟩, -⟩ := Disk.folderAt?_eq_some_iff.mp hfolder
  exact h (Disk.isPresent_iff.mpr ⟨seen, place, hleads⟩)

theorem disk_visit (total : Sweep) (s : Station) (root : ReclaimRoot) :
    (visit home (total, s) root).2.disk = (Sweep.run home root.path s.disk).2 := by
  rw [visit]
  split
  next => rfl
  next habsent => rw [run_of_not_isPresent home habsent]

theorem report_visit {total : Sweep} (htotal : Bytes.wrap total.bytes = total.bytes) (s : Station)
    (root : ReclaimRoot) :
    (visit home (total, s) root).1 = total.add (Sweep.run home root.path s.disk).1 := by
  rw [visit]
  split
  next => rfl
  next habsent =>
    rw [run_of_not_isPresent home habsent]
    exact (add_nothing htotal).symm

/-- The bytes of all turns are a count already. -/
theorem add_sweepAll (roots : List ReclaimRoot) (d : Disk) :
    Sweep.add {} (sweepAll home roots d).1 = (sweepAll home roots d).1 := by
  cases roots with
  | nil => rfl
  | cons root roots => simp [sweepAll, Sweep.add, Bytes.add]

/-- A clean of the user's directories is a sweep of each in its turn. -/
theorem runUser_eq (c : Cleaner) (s : Station) :
    (c.runUser home s).1 = (sweepAll home c.catalog.user s.disk).1 ∧
      (c.runUser home s).2.disk = (sweepAll home c.catalog.user s.disk).2 := by
  have hfold : ∀ (roots : List ReclaimRoot) (total : Sweep) (s : Station),
      Bytes.wrap total.bytes = total.bytes →
      (roots.foldl (visit home) (total, s)).1 = total.add (sweepAll home roots s.disk).1 ∧
        (roots.foldl (visit home) (total, s)).2.disk = (sweepAll home roots s.disk).2 := by
    intro roots
    induction roots with
    | nil => exact fun _ _ hcount => ⟨(add_nothing hcount).symm, rfl⟩
    | cons root roots ih =>
      intro total s hcount
      have htotal := report_visit home hcount s root
      have hdisk := disk_visit home total s root
      have hcount' : Bytes.wrap (visit home (total, s) root).1.bytes =
          (visit home (total, s) root).1.bytes := by
        rw [htotal]
        exact Bytes.wrap_wrap _
      have hrest := ih (visit home (total, s) root).1 (visit home (total, s) root).2 hcount'
      refine ⟨hrest.1.trans ?_, hrest.2.trans ?_⟩
      · rw [htotal, hdisk, add_assoc]
        rfl
      · rw [hdisk]
        rfl
  have hall := hfold c.catalog.user {} s rfl
  rwa [add_sweepAll] at hall

/-- A directory either has nothing happen to it, or it is a folder whose entries are deleted. -/
theorem run_cases (hsound : d.top.Sound) (root : ReclaimRoot) :
    (Safety.isUserRoot home root.path = false ∨ d.folderAt? root.path = none) ∧
      Sweep.run home root.path d = ({}, d) ∨
    ∃ seen place entries, Safety.isUserRoot home root.path = true ∧
      d.Leads true root.path seen place ∧ d.top.at? place = some (.folder entries) ∧
      Sweep.Progress d root.path seen place entries (Sweep.run home root.path d).1
        (Sweep.run home root.path d).2 := by
  cases hroot : Safety.isUserRoot home root.path with
  | false => exact .inl ⟨.inl rfl, Sweep.run_eq_self (.inl hroot)⟩
  | true =>
    cases hfolder : d.folderAt? root.path with
    | none => exact .inl ⟨.inr rfl, Sweep.run_eq_self (.inr hfolder)⟩
    | some found =>
      obtain ⟨place, entries⟩ := found
      obtain ⟨⟨seen, hleads⟩, hat⟩ := Disk.folderAt?_eq_some_iff.mp hfolder
      have hprogress := Sweep.progress_run hsound hroot hleads hat
      exact .inr ⟨seen, place, entries, rfl, hleads, hat, hprogress⟩

theorem sound_run (hsound : d.top.Sound) (root : ReclaimRoot) :
    (Sweep.run home root.path d).2.top.Sound := by
  rcases run_cases home hsound root with ⟨-, hrun⟩ | ⟨seen, place, entries, -, -, -, h⟩
  · rwa [hrun]
  · exact h.sound

theorem isPartOf_run (hsound : d.top.Sound) (root : ReclaimRoot) :
    IsPartOf (Sweep.run home root.path d).2.top d.top := by
  rcases run_cases home hsound root with ⟨-, hrun⟩ | ⟨seen, place, entries, -, -, -, h⟩
  · rw [hrun]
    exact .refl _
  · exact h.part

theorem sound_sweepAll (hsound : d.top.Sound) (roots : List ReclaimRoot) :
    (sweepAll home roots d).2.top.Sound := by
  induction roots generalizing d with
  | nil => exact hsound
  | cons root roots ih => exact ih (sound_run home hsound root)

/-- What is left after all turns is part of what there was. -/
theorem isPartOf_sweepAll (hsound : d.top.Sound) (roots : List ReclaimRoot) :
    IsPartOf (sweepAll home roots d).2.top d.top := by
  induction roots generalizing d with
  | nil => exact .refl _
  | cons root roots ih =>
    exact (ih (sound_run home hsound root)).trans (isPartOf_run home hsound root)

/-- The turns of the directories behind the first one come after its own. -/
theorem mem_visits_cons {v : Visit}
    (h : v ∈ visits home roots (Sweep.run home root.path d).2) :
    v ∈ visits home (root :: roots) d := by
  simp only [visits]
  split
  · exact List.mem_cons_of_mem _ h
  · exact h

/-- Every turn is one of a directory that may be emptied, on what is left of the tree. -/
theorem exists_turn_of_mem_visits (hsound : d.top.Sound) {v : Visit}
    (h : v ∈ visits home roots d) : ∃ root ∈ roots, ∃ d', d'.top.Sound ∧ IsPartOf d'.top d.top ∧
      Safety.isUserRoot home root.path = true ∧ v = turn home root d' := by
  induction roots generalizing d with
  | nil => cases h
  | cons first roots ih =>
    have hrest : v ∈ visits home roots (Sweep.run home first.path d).2 →
        ∃ root ∈ first :: roots, ∃ d', d'.top.Sound ∧ IsPartOf d'.top d.top ∧
          Safety.isUserRoot home root.path = true ∧ v = turn home root d' := by
      intro hv
      obtain ⟨root, hmem, d', hsound', hpart, hroot, rfl⟩ := ih (sound_run home hsound first) hv
      exact ⟨root, List.mem_cons_of_mem _ hmem, d', hsound',
        hpart.trans (isPartOf_run home hsound first), hroot, rfl⟩
    simp only [visits] at h
    split at h
    next hroot =>
      rcases List.mem_cons.mp h with rfl | hv
      · exact ⟨first, List.mem_cons_self, d, hsound, .refl _, hroot, rfl⟩
      · exact hrest hv
    next => exact hrest h

/-! ### What goes and what stays -/

/-- What a turn takes away is gone, and nothing else. -/
theorem bareAt?_run_eq_none_iff (hsound : d.top.Sound) (root : ReclaimRoot) (q : Place) :
    (Sweep.run home root.path d).2.top.bareAt? q = none ↔ d.top.bareAt? q = none ∨
      Safety.isUserRoot home root.path = true ∧ (turn home root d).Takes q := by
  rcases run_cases home hsound root with
    ⟨hidle, hrun⟩ | ⟨seen, place, entries, hroot, hleads, hat, hprogress⟩
  · rw [hrun, iff_self_or]
    rintro ⟨hroot, seen, place, entries, hleads, hat, -⟩
    have hfolder : d.folderAt? root.path = some (place, entries) :=
      Disk.folderAt?_eq_some_iff.mpr ⟨⟨seen, hleads⟩, hat⟩
    rw [hroot, hfolder] at hidle
    simp at hidle
  · rw [hprogress.taken q, and_iff_right hroot]
    refine or_congr_right ⟨fun htakes => ⟨seen, place, entries, hleads, hat, htakes⟩, ?_⟩
    rintro ⟨seen', place', entries', hleads', hat', htakes⟩
    obtain ⟨rfl, rfl⟩ := hleads'.unique hleads
    cases hat'.symm.trans hat
    exact htakes

/-- What one of the turns takes away is gone after all of them, and nothing else. -/
theorem bareAt?_sweepAll_eq_none_iff (hsound : d.top.Sound) (roots : List ReclaimRoot)
    (q : Place) : (sweepAll home roots d).2.top.bareAt? q = none ↔
      d.top.bareAt? q = none ∨ ∃ v ∈ visits home roots d, v.Takes q := by
  induction roots generalizing d with
  | nil => simp [sweepAll, visits]
  | cons root roots ih =>
    have hrest := ih (sound_run home hsound root)
    rw [bareAt?_run_eq_none_iff home hsound root q] at hrest
    refine hrest.trans ?_
    rw [or_assoc]
    refine or_congr_right ?_
    simp only [visits]
    split
    next hroot => simp [hroot, turn]
    next hroot => simp [hroot, turn]

/-- What lies in none of the directories when they have their turns stays as it is. -/
theorem bareAt?_sweepAll (hsound : d.top.Sound) (roots : List ReclaimRoot) {q : Place}
    (h : ∀ v ∈ visits home roots d, ¬v.Covers q) :
    (sweepAll home roots d).2.top.bareAt? q = d.top.bareAt? q := by
  rcases isPartOf_sweepAll home hsound roots q with hnone | hsame
  · rcases (bareAt?_sweepAll_eq_none_iff home hsound roots q).mp hnone with
      hbefore | ⟨v, hv, htakes⟩
    · rw [hnone, hbefore]
    · exact absurd htakes.covers (h v hv)
  · exact hsame

/-- An entry that is found in a folder of a part of a tree is found in the folder of the tree. -/
theorem exists_mem_of_isPartOf (hpart : IsPartOf d'.top d.top) (hsound' : d'.top.Sound)
    {entries' : List (String × Node)} (hat : d.top.at? place = some (.folder entries))
    (hat' : d'.top.at? place = some (.folder entries')) {entry : String × Node}
    (he : entry ∈ entries') : ∃ node, (entry.1, node) ∈ entries ∧
      d'.top.bareAt? (place ++ [entry.1]) ≠ none := by
  have hlookup : entries'.lookup entry.1 = some entry.2 :=
    lookup_of_mem (hsound'.at? hat').once he
  have hthere : d'.top.bareAt? (place ++ [entry.1]) ≠ none := by
    rw [Ne, bareAt?_eq_none_iff, at?_concat hat', hlookup]
    exact Option.some_ne_none _
  have hbefore := hpart.bareAt?_ne_none hthere
  rw [Ne, bareAt?_eq_none_iff, at?_concat hat] at hbefore
  obtain ⟨node, hnode⟩ := Option.ne_none_iff_exists'.mp hbefore
  exact ⟨node, mem_of_lookup hnode, hthere⟩

/-- A directory whose path still leads to it when all is done has no entries but those with too long
a path. -/
theorem not_fits_of_mem (hsound : d.top.Sound) (hmem : root ∈ roots)
    (hroot : Safety.isUserRoot home root.path = true)
    (hfolder : (sweepAll home roots d).2.folderAt? root.path = some (place, entries))
    {entry : String × Node} (he : entry ∈ entries) : ¬root.path.Fits entry.1 := by
  induction roots generalizing d with
  | nil => cases hmem
  | cons first roots ih =>
    have hsound' := sound_run home hsound first
    rcases List.mem_cons.mp hmem with rfl | hmem
    · intro hfits
      obtain ⟨⟨seen, hleads⟩, hat⟩ := Disk.folderAt?_eq_some_iff.mp hfolder
      have hpart := isPartOf_sweepAll home hsound' roots
      have hpart' := hpart.trans (isPartOf_run home hsound root)
      rcases run_cases home hsound root with
        ⟨hidle, -⟩ | ⟨seen', place', entries', -, hleads', hat', hprogress⟩
      · obtain ⟨entries', hat'⟩ := hpart'.exists_folder hat
        have hfolder' := Disk.folderAt?_eq_some_iff.mpr ⟨⟨seen, hleads.of_isPartOf hpart'⟩, hat'⟩
        rw [hroot, hfolder'] at hidle
        simp at hidle
      · obtain ⟨rfl, rfl⟩ := hleads'.unique (hleads.of_isPartOf hpart')
        obtain ⟨node, hnode, hthere⟩ :=
          exists_mem_of_isPartOf hpart' (sound_sweepAll home hsound' roots) hat' hat he
        have hopen : ∀ q ∈ seen', (Sweep.run home root.path d).2.top.bareAt? q ≠ none :=
          fun q hq => hpart.bareAt?_ne_none (hleads.bareAt?_ne_none hq)
        exact hpart.bareAt?_ne_none hthere (hprogress.gone_of_open hopen hnode hfits)
    · exact ih hsound' hmem hfolder

/-! ### Figures -/

theorem sum_visits_cons (f : Visit → Nat) (root : ReclaimRoot) (roots : List ReclaimRoot)
    (d : Disk) : ((visits home (root :: roots) d).map f).sum =
      (if Safety.isUserRoot home root.path then f (turn home root d) else 0) +
      ((visits home roots (Sweep.run home root.path d).2).map f).sum := by
  simp only [visits, turn]
  split
  · rw [List.map_cons, List.sum_cons]
  · rw [Nat.zero_add]

/-- What a turn frees is what the tree loses with the texts of the links that go, less the files
that no path reaches. -/
theorem bytes_run (hsound : d.top.Sound) (root : ReclaimRoot) :
    ∃ freed, (Sweep.run home root.path d).1.bytes = Bytes.wrap freed ∧
      freed + (Sweep.run home root.path d).2.top.fileBytes +
          (if Safety.isUserRoot home root.path then (turn home root d).unreadBytes else 0) =
        d.top.fileBytes +
          if Safety.isUserRoot home root.path then (turn home root d).goneLinkBytes else 0 := by
  rcases run_cases home hsound root with
    ⟨hidle, hrun⟩ | ⟨seen, place, entries, hroot, hleads, hat, hprogress⟩
  · rw [hrun]
    refine ⟨0, rfl, ?_⟩
    rcases hidle with hroot | hfolder
    · simp [hroot]
    · simp [turn, Visit.goneLinkBytes, Visit.unreadBytes, Visit.gone, Visit.emptied, hfolder,
        Sweep.unreadBytes]
  · have hfolder := Disk.folderAt?_eq_some_iff.mpr ⟨⟨seen, hleads⟩, hat⟩
    have hlinks : (turn home root d).goneLinkBytes =
        Sweep.goneLinkBytes place (Sweep.run home root.path d).2 entries := by
      simp only [turn, Visit.goneLinkBytes, Visit.gone, hfolder]
      rfl
    have hunread : (turn home root d).unreadBytes =
        Sweep.unreadBytes root.path (Sweep.reached root.path seen place entries) := by
      simp only [turn, Visit.unreadBytes, Visit.gone, Visit.emptied, hfolder]
      exact ((hprogress.perm_reached hsound hleads hat).map _).sum_eq
    rw [if_pos hroot, if_pos hroot, hlinks, hunread]
    exact hprogress.bytes

/-- All turns together free what the tree loses with the texts of the links that go, less the files
that no path reaches. -/
theorem bytes_sweepAll (hsound : d.top.Sound) (roots : List ReclaimRoot) :
    ∃ freed, (sweepAll home roots d).1.bytes = Bytes.wrap freed ∧
      freed + (sweepAll home roots d).2.top.fileBytes +
          ((visits home roots d).map Visit.unreadBytes).sum =
        d.top.fileBytes + ((visits home roots d).map Visit.goneLinkBytes).sum := by
  induction roots generalizing d with
  | nil => exact ⟨0, rfl, by simp [sweepAll, visits]⟩
  | cons root roots ih =>
    obtain ⟨one, hone, hfirst⟩ := bytes_run home hsound root
    obtain ⟨others, hothers, hrest⟩ := ih (sound_run home hsound root)
    refine ⟨one + others, ?_, ?_⟩
    · simp only [sweepAll, Sweep.add, hone, hothers, Bytes.add_wrap_wrap]
    · rw [sum_visits_cons, sum_visits_cons]
      simp only [sweepAll]
      omega

/-- A turn counts the entries that it takes away or empties, and the others. -/
theorem counts_run (hsound : d.top.Sound) (root : ReclaimRoot) :
    (Sweep.run home root.path d).1.removed = (if Safety.isUserRoot home root.path
        then (turn home root d).gone.length + (turn home root d).emptied.length else 0) ∧
      (Sweep.run home root.path d).1.failed =
        if Safety.isUserRoot home root.path then (turn home root d).kept.length else 0 := by
  rcases run_cases home hsound root with
    ⟨hidle, hrun⟩ | ⟨seen, place, entries, hroot, hleads, hat, hprogress⟩
  · rw [hrun]
    rcases hidle with hroot | hfolder
    · simp [hroot]
    · simp [turn, Visit.gone, Visit.emptied, Visit.kept, hfolder]
  · have hfolder := Disk.folderAt?_eq_some_iff.mpr ⟨⟨seen, hleads⟩, hat⟩
    simp only [if_pos hroot, turn, Visit.gone, Visit.emptied, Visit.kept, hfolder]
    exact ⟨hprogress.removed_eq hsound hleads hat, hprogress.failed_eq hsound hleads hat⟩

/-- All turns together count the entries that they take away or empty, and the others. -/
theorem counts_sweepAll (hsound : d.top.Sound) (roots : List ReclaimRoot) :
    (sweepAll home roots d).1.removed =
        ((visits home roots d).map fun v => v.gone.length + v.emptied.length).sum ∧
      (sweepAll home roots d).1.failed =
        ((visits home roots d).map fun v => v.kept.length).sum := by
  induction roots generalizing d with
  | nil => exact ⟨rfl, rfl⟩
  | cons root roots ih =>
    have hfirst := counts_run home hsound root
    have hrest := ih (sound_run home hsound root)
    rw [sum_visits_cons, sum_visits_cons]
    simp only [sweepAll, Sweep.add]
    omega

/-- A turn of a directory whose path cannot be cut takes away every entry whose path is not too
long. -/
theorem kept_eq_of_isClear (hsound : d.top.Sound)
    (hroot : Safety.isUserRoot home root.path = true) (hclear : (turn home root d).IsClear) :
    (turn home root d).emptied = [] ∧ (turn home root d).kept = (turn home root d).tooLong := by
  rcases run_cases home hsound root with
    ⟨hidle, -⟩ | ⟨seen, place, entries, -, hleads, hat, hprogress⟩
  · have hfolder : d.folderAt? root.path = none := by
      rcases hidle with hunsafe | hfolder
      · simp [hroot] at hunsafe
      · exact hfolder
    simp [turn, Visit.emptied, Visit.kept, Visit.tooLong, hfolder]
  · have hfolder := Disk.folderAt?_eq_some_iff.mpr ⟨⟨seen, hleads⟩, hat⟩
    simp only [turn, Visit.emptied, Visit.kept, Visit.tooLong, hfolder]
    exact hprogress.kept_eq hsound hleads hat (hclear seen place hleads)

/-! ### The order of entries -/

theorem run_alike (hsound : d.top.Sound) (hsound' : d'.top.Sound) (halike : Alike d.top d'.top)
    (root : ReclaimRoot)
    (hclear : Safety.isUserRoot home root.path = true → (turn home root d).IsClear) :
    (Sweep.run home root.path d).1 = (Sweep.run home root.path d').1 ∧
      Alike (Sweep.run home root.path d).2.top (Sweep.run home root.path d').2.top := by
  cases hroot : Safety.isUserRoot home root.path with
  | false =>
    rw [Sweep.run_eq_self (.inl hroot), Sweep.run_eq_self (.inl hroot)]
    exact ⟨rfl, halike⟩
  | true =>
    cases hfolder : d.folderAt? root.path with
    | none =>
      have hfolder' : d'.folderAt? root.path = none := by
        rw [Option.eq_none_iff_forall_ne_some]
        rintro ⟨place, entries⟩ hfolder'
        obtain ⟨entries', hsome⟩ := Disk.folderAt?_alike halike.symm hfolder'
        rw [hfolder] at hsome
        cases hsome
      rw [Sweep.run_eq_self (.inr hfolder), Sweep.run_eq_self (.inr hfolder')]
      exact ⟨rfl, halike⟩
    | some found =>
      obtain ⟨place, entries⟩ := found
      obtain ⟨⟨seen, hleads⟩, hat⟩ := Disk.folderAt?_eq_some_iff.mp hfolder
      obtain ⟨entries', hat'⟩ := halike.folder_iff.mp ⟨entries, hat⟩
      have hleads' : d'.Leads true root.path seen place := hleads.of_isPartOf halike.isPartOf
      exact (Sweep.progress_run hsound hroot hleads hat).alike
        (Sweep.progress_run hsound' hroot hleads' hat') halike hsound hsound' hat hat'
        (hclear hroot seen place hleads)

/-- Trees that differ in the order of entries alone are cleaned alike. -/
theorem sweepAll_alike (hsound : d.top.Sound) (hsound' : d'.top.Sound)
    (halike : Alike d.top d'.top) (roots : List ReclaimRoot)
    (hclear : ∀ v ∈ visits home roots d, v.IsClear) :
    (sweepAll home roots d).1 = (sweepAll home roots d').1 ∧
      Alike (sweepAll home roots d).2.top (sweepAll home roots d').2.top := by
  induction roots generalizing d d' with
  | nil => exact ⟨rfl, halike⟩
  | cons root roots ih =>
    obtain ⟨hsweep, hafter⟩ := run_alike home hsound hsound' halike root fun hroot =>
      hclear _ (by simp [visits, hroot])
    obtain ⟨hrest, hend⟩ := ih (sound_run home hsound root) (sound_run home hsound' root) hafter
      fun v hv => hclear v (mem_visits_cons home hv)
    exact ⟨congrArg₂ Sweep.add hsweep hrest, hend⟩

theorem sweepAll_singleton (root : ReclaimRoot) (d : Disk) :
    (sweepAll home [root] d).1 = (Sweep.run home root.path d).1.add {} ∧
      (sweepAll home [root] d).2 = (Sweep.run home root.path d).2 :=
  ⟨rfl, rfl⟩

/-! ### The effect of a clean -/

/-- What the clean of the user's directories does to the disk, and its figures. -/
structure Clears (home : Option Path) (c : Cleaner) (s : Station) (total : Sweep) (after : Disk) :
    Prop where
  /-- A directory whose path still leads to it has no entries left but those with too long a
  path. -/
  emptied : ∀ root ∈ c.catalog.user, ∀ entries, after.list root.path = .ok entries →
    ∀ entry ∈ entries, ¬root.path.Fits entry.1
  /-- What lay in no directory when it had its turn is as before. -/
  elsewhere : ∀ place, (∀ v ∈ visits home c.catalog.user s.disk, ¬v.Covers place) →
    after.top.bareAt? place = s.disk.top.bareAt? place
  /-- What is freed is what the files of the whole tree have lost, with the texts of the links that
  went from the directories and without the files that have gone though their own paths are too
  long. -/
  freed : ∃ freed, total.bytes = Bytes.wrap freed ∧
    (s.disk.top.fileBytes +
        ((visits home c.catalog.user s.disk).map Visit.goneLinkBytes).sum < Bytes.limit →
      total.bytes = freed) ∧
    freed + after.top.fileBytes +
        ((visits home c.catalog.user s.disk).map Visit.unreadBytes).sum =
      s.disk.top.fileBytes + ((visits home c.catalog.user s.disk).map Visit.goneLinkBytes).sum
  removed : total.removed =
    ((visits home c.catalog.user s.disk).map fun v => v.gone.length + v.emptied.length).sum
  failed : total.failed = ((visits home c.catalog.user s.disk).map fun v => v.kept.length).sum
  /-- If the path of a directory runs through nothing inside it, nothing is left though its path is
  not too long, and no folder only loses its contents. -/
  clear : ∀ v ∈ visits home c.catalog.user s.disk, v.IsClear →
    v.emptied = [] ∧ v.kept = v.tooLong
  /-- If that holds of all directories, nothing depends on the order of the entries of folders. -/
  unordered : (∀ v ∈ visits home c.catalog.user s.disk, v.IsClear) →
    ∀ s' : Station, s'.disk.top.Sound → Alike s.disk.top s'.disk.top →
      (c.runUser home s').1 = total ∧ Alike after.top (c.runUser home s').2.disk.top

/-- **The effect of a clean and its figures.** For a catalog that is built by taking up directories:
the directories are emptied as far as paths reach, all else is as before, and the bytes freed are
those that the tree has lost.  The other figures count the entries that went or lost their contents,
and those that did not.  A folder only loses its contents and is left, and an entry is only left
though its path is not too long, if the path of its directory runs through something inside the
directory.  If none does, nothing depends on the order of the entries of folders. -/
theorem runUser_effect (home : Option Path) (roots : List ReclaimRoot) (elevator : Elevator)
    (s : Station) (hsound : s.disk.top.Sound) :
    let c : Cleaner := ⟨Catalog.ofRoots home roots, elevator⟩
    Clears home c s (c.runUser home s).1 (c.runUser home s).2.disk := by
  intro c
  obtain ⟨htotal, hafter⟩ := runUser_eq home c s
  have hcounts := counts_sweepAll home hsound c.catalog.user
  rw [htotal, hafter]
  constructor
  case emptied =>
    intro root hroot entries hlist entry hentry
    obtain ⟨place, hfolder⟩ := Disk.list_eq_ok_iff.mp hlist
    exact not_fits_of_mem home hsound hroot (Catalog.isUserRoot_of_mem_ofRoots hroot) hfolder hentry
  case elsewhere => exact fun place hplace => bareAt?_sweepAll home hsound _ hplace
  case freed =>
    obtain ⟨freed, hwrap, hbalance⟩ := bytes_sweepAll home hsound c.catalog.user
    refine ⟨freed, hwrap, fun hsmall => hwrap.trans (Bytes.wrap_of_lt ?_), hbalance⟩
    refine lt_of_le_of_lt ?_ hsmall
    rw [← hbalance]
    omega
  case removed => exact hcounts.1
  case failed => exact hcounts.2
  case clear =>
    intro v hv hclear
    obtain ⟨root, -, d', hsound', -, hroot, rfl⟩ := exists_turn_of_mem_visits home hsound hv
    exact kept_eq_of_isClear home hsound' hroot hclear
  case unordered =>
    intro hclear s' hsound' halike
    obtain ⟨hsame, hend⟩ := sweepAll_alike home hsound hsound' halike _ hclear
    obtain ⟨htotal', hafter'⟩ := runUser_eq home c s'
    rw [htotal', hafter']
    exact ⟨hsame.symm, hend⟩

/-- The entries of a folder that are two links to it. -/
def twoLinkEntries : List (String × Node) :=
  [("s", .link "/d"), ("t", .link "/d")]

/-- A disk with that folder. -/
def twoLinks : Disk :=
  ⟨.folder [("d", .folder twoLinkEntries)]⟩

theorem sound_twoLinks : twoLinks.top.Sound := by decide

/-- A station with the folder with two links to itself. -/
def twoLinksStation : Station where
  machine := { disk := twoLinks }
  store := { path := ⟨"/key"⟩ }

/-- The cleaner of one directory of the user. -/
def ofPath (path : Path) : Cleaner :=
  ⟨Catalog.ofRoots none [⟨path, .user⟩], {}⟩

/-- The effect of a clean of the folder with two links to itself. -/
theorem runUser_effect_twoLinks : twoLinksStation.disk.top.Sound ∧
    ∃ freed, ((ofPath ⟨"/d"⟩).runUser none twoLinksStation).1.bytes = Bytes.wrap freed ∧
      freed + ((ofPath ⟨"/d"⟩).runUser none twoLinksStation).2.disk.top.fileBytes +
          ((visits none (ofPath ⟨"/d"⟩).catalog.user twoLinks).map Visit.unreadBytes).sum =
        twoLinks.top.fileBytes +
          ((visits none (ofPath ⟨"/d"⟩).catalog.user twoLinks).map Visit.goneLinkBytes).sum := by
  obtain ⟨freed, hwrap, -, hbalance⟩ :=
    (runUser_effect none [⟨⟨"/d"⟩, .user⟩] {} twoLinksStation sound_twoLinks).freed
  exact ⟨sound_twoLinks, freed, hwrap, hbalance⟩

/-- The folder `d` at the top of a disk, written with so many slashes more. -/
def slashedFolder (n : Nat) : Path :=
  (Path.mk "/d").slashed n

theorem isUserRoot_slashedFolder (n : Nat) : Safety.isUserRoot none (slashedFolder n) = true := by
  have habsolute : (Path.mk "/d").isAbsolute = true := by decide
  rw [slashedFolder, Safety.isUserRoot_congr ((Path.isAbsolute_slashed n habsolute).trans
    habsolute.symm) (Path.components_slashed n habsolute)]
  decide

theorem user_slashedFolder (n : Nat) :
    (ofPath (slashedFolder n)).catalog.user = [⟨slashedFolder n, .user⟩] := by
  simp [ofPath, Catalog.ofRoots, Catalog.push, Catalog.accepts, isUserRoot_slashedFolder,
    Catalog.addNew]

theorem folderAt?_slashedFolder {n : Nat} (hn : n < 4094)
    (hfolder : d.folderAt? ⟨"/d"⟩ = some (place, entries)) :
    d.folderAt? (slashedFolder n) = some (place, entries) := by
  have hlength : "/d".utf8ByteSize = 2 := rfl
  refine Disk.folderAt?_slashed n (by decide) ?_ hfolder
  rw [Path.utf8ByteSize_slashed, hlength, Disk.pathLimit]
  omega

theorem fits_slashedFolder_iff (n : Nat) {name : String} (hname : IsName name) :
    (slashedFolder n).Fits name ↔
      n + ((Path.mk "/d").child name).text.utf8ByteSize < Disk.pathLimit := by
  rw [Path.Fits, slashedFolder, Path.child_slashed n (by decide) (Path.not_isAbsolute_name hname),
    Path.utf8ByteSize_slashed]

/-- The paths of the two links are too long if there are this many slashes. -/
theorem not_fits_twoLinkEntries : ∀ entry ∈ twoLinkEntries, ¬(slashedFolder 4093).Fits entry.1 := by
  simp only [twoLinkEntries, List.forall_mem_cons, List.not_mem_nil, false_implies, implies_true,
    and_true]
  constructor
  all_goals
    rw [fits_slashedFolder_iff 4093 (by decide)]
    decide

/-- The entries of a folder with a file in a hidden one. -/
def deepEntries : List (String × Node) :=
  [(".e", .folder [("f", .file 0 (.bytes ⟨#[1, 2, 3]⟩))])]

/-- A disk with that folder. -/
def deepFolder : Disk :=
  ⟨.folder [("d", .folder deepEntries)]⟩

theorem sound_deepFolder : deepFolder.top.Sound := by decide

/-- A station with that folder. -/
def deepStation : Station where
  machine := { disk := deepFolder }
  store := { path := ⟨"/key"⟩ }

theorem folderAt?_deepFolder :
    deepFolder.folderAt? (slashedFolder 4090) = some (["d"], deepEntries) :=
  folderAt?_slashedFolder (by decide) rfl

/-- The path of the hidden folder is not too long. -/
theorem fits_deepEntries : ∀ entry ∈ deepEntries, (slashedFolder 4090).Fits entry.1 := by
  intro entry hentry
  obtain rfl := List.mem_singleton.mp hentry
  exact (fits_slashedFolder_iff 4090 (by decide)).mpr (by decide)

/-- The path of the file is too long. -/
theorem unreadBytes_deepEntries : Sweep.unreadBytes (slashedFolder 4090) deepEntries = 3 := by
  have hlong : (((slashedFolder 4090).child ".e").child "f").isTooLong = true := by
    rw [Path.isTooLong, slashedFolder, Path.child_slashed 4090 (by decide) (by decide),
      Path.child_slashed 4090 (by decide) (by decide), Path.utf8ByteSize_slashed]
    decide
  have hnothing : (Node.folder [("f", .file 0 (.bytes ⟨#[1, 2, 3]⟩))]).within
      ((slashedFolder 4090).child ".e") = .folder [] := by
    simp only [within, entriesWithin, hlong, if_true]
  rw [deepEntries, Sweep.unreadBytes_singleton, unreadBytes, hnothing]
  rfl

/-- What is deleted is not counted if no path reaches it. -/
theorem run_deepFolder : (Sweep.run none (slashedFolder 4090) deepFolder).1.bytes = 0 ∧
    (Sweep.run none (slashedFolder 4090) deepFolder).2.top.fileBytes = 0 := by
  obtain ⟨⟨seen, hleads⟩, hat⟩ := Disk.folderAt?_eq_some_iff.mp folderAt?_deepFolder
  have hprogress :=
    Sweep.progress_run sound_deepFolder (isUserRoot_slashedFolder 4090) hleads hat
  have hreached : Sweep.reached (slashedFolder 4090) seen ["d"] deepEntries = deepEntries := by
    have hfits := fits_deepEntries _ (List.mem_singleton_self _)
    simp [Sweep.reached, deepEntries, hfits]
  have hlinks : Sweep.goneLinkBytes ["d"] (Sweep.run none (slashedFolder 4090) deepFolder).2
      deepEntries = 0 := by
    simp [Sweep.goneLinkBytes_eq_sum, deepEntries, linkBytes]
  have hbefore : deepFolder.top.fileBytes = 3 := rfl
  obtain ⟨freed, hwrap, hbalance⟩ := hprogress.bytes
  rw [hreached, unreadBytes_deepEntries, hlinks, hbefore] at hbalance
  obtain rfl : freed = 0 := by omega
  exact ⟨hwrap, by omega⟩

/-- Entries are left behind and counted as failed when the path of a directory runs through one of
them, and when their own paths are too long; and a file that goes with its folder is not counted if
its path is too long. -/
theorem runUser_leaves_entries :
    ((ofPath ⟨"/d/s/t"⟩).runUser none twoLinksStation).1 = ⟨2, 1, 1⟩ ∧
    (((ofPath (slashedFolder 4093)).runUser none twoLinksStation).1 = ⟨0, 0, 2⟩ ∧
      ∃ entries, entries ≠ [] ∧
        ((ofPath (slashedFolder 4093)).runUser none twoLinksStation).2.disk.list
          (slashedFolder 4093) = .ok entries) ∧
    ((ofPath (slashedFolder 4090)).runUser none deepStation).1.bytes = 0 ∧
    deepStation.disk.top.fileBytes = 3 ∧
    ((ofPath (slashedFolder 4090)).runUser none deepStation).2.disk.top.fileBytes = 0 := by
  refine ⟨by decide +kernel, ?_, ?_⟩
  · have hfolder : twoLinks.folderAt? (slashedFolder 4093) = some (["d"], twoLinkEntries) :=
      folderAt?_slashedFolder (by decide) rfl
    have hrun := Sweep.run_of_not_fits sound_twoLinks (isUserRoot_slashedFolder 4093) hfolder
      not_fits_twoLinkEntries
    obtain ⟨htotal, hafter⟩ := runUser_eq none (ofPath (slashedFolder 4093)) twoLinksStation
    have hdisk : twoLinksStation.disk = twoLinks := rfl
    obtain ⟨hone, hall⟩ := sweepAll_singleton none ⟨slashedFolder 4093, .user⟩ twoLinks
    rw [user_slashedFolder, hdisk] at htotal hafter
    rw [hrun] at hone hall
    refine ⟨htotal.trans hone, twoLinkEntries, List.cons_ne_nil _ _, ?_⟩
    rw [hafter, hall]
    exact Disk.list_eq_ok_iff.mpr ⟨_, hfolder⟩
  · obtain ⟨htotal, hafter⟩ := runUser_eq none (ofPath (slashedFolder 4090)) deepStation
    have hdisk : deepStation.disk = deepFolder := rfl
    obtain ⟨hbytes, hfiles⟩ := run_deepFolder
    obtain ⟨hone, hall⟩ := sweepAll_singleton none ⟨slashedFolder 4090, .user⟩ deepFolder
    rw [user_slashedFolder, hdisk] at htotal hafter
    refine ⟨?_, rfl, ?_⟩
    · rw [htotal, hone, Sweep.add, hbytes]
      rfl
    · rw [hafter, hall, hfiles]

end Cleaner

end Reclaim
