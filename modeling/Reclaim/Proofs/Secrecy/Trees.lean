import Reclaim.Proofs.Clean.UserTier
import Reclaim.Proofs.Disk.Hiding
import Reclaim.Scan

/-!
# Scanning and sweeping trees without hidden contents

Where nothing of a tree is hidden, all that is measured of it is the same whether the rest of the
files is hidden or not, and so is what a scan finds and publishes.  A sweep through such a tree
reports the same and changes the files in the same way.

## Main definitions

* `ShowsAll` : nothing at a place or below it is hidden.
* `onlyAt` : one file is hidden.
* `Disk.ShowsEntry`, `Disk.ShowsTree`, `Disk.ShowsFile` : nothing is hidden of the entry, the tree
  or the file that a path leads to.

## Main results

* `Disk.enumerate_hide`, `Disk.folderSize_hide`, `Disk.entrySize_hide` : measuring a tree.
* `Scanner.run_hide` : a scan.
* `Sweep.run_hide` : a sweep.
-/

namespace Reclaim

open Node (at? beneath IsPartOf)

/-- Nothing at a place or below it is hidden. -/
def ShowsAll (keys : Place → Bool) (place : Place) : Prop :=
  ∀ q, beneath keys place q = false

theorem ShowsAll.append {keys : Place → Bool} {place : Place} (h : ShowsAll keys place)
    (q : Place) : ShowsAll keys (place ++ q) := by
  intro rest
  rw [← Node.beneath_beneath]
  exact h (q ++ rest)

/-- The file at one place is hidden, and nothing else. -/
def onlyAt (key : Place) : Place → Bool :=
  fun place => place == key

theorem showsAll_onlyAt_iff {key place : Place} : ShowsAll (onlyAt key) place ↔ ¬place <+: key := by
  constructor
  · rintro h ⟨q, rfl⟩
    simpa [onlyAt, beneath] using h q
  · intro h q
    exact beq_false_of_ne fun heq => h ⟨q, heq⟩

instance (key place : Place) : Decidable (ShowsAll (onlyAt key) place) :=
  decidable_of_iff _ showsAll_onlyAt_iff.symm

theorem Node.Sound.congr {keys : Place → Bool} {d d' : Disk} (h : d.hide keys = d'.hide keys)
    (hsound : d.top.Sound) : d'.top.Sound := by
  have htop : d.top.hide keys = d'.top.hide keys := congrArg Disk.top h
  rwa [← Node.sound_hide_iff keys, ← htop, Node.sound_hide_iff]

namespace Disk

variable {keys : Place → Bool} {d d' : Disk} {p root : Path} {node : Node}

/-- Nothing is hidden of the entry that a path leads to, or below it.  A link at the end of the path
is such an entry. -/
def ShowsEntry (keys : Place → Bool) (d : Disk) (p : Path) : Prop :=
  ∀ found, d.locate false p = .ok found → ShowsAll keys found.1

/-- Nothing is hidden of the tree that starts at a path, and if that is a link to a folder, nothing
is hidden there. -/
structure ShowsTree (keys : Place → Bool) (d : Disk) (p : Path) : Prop where
  entry : d.ShowsEntry keys p
  folder : ∀ found, d.locate true p = .ok found → found.2.isFolder = true → ShowsAll keys found.1

/-- The file that a path leads to is not hidden. -/
def ShowsFile (keys : Place → Bool) (d : Disk) (p : Path) : Prop :=
  ∀ found, d.locate true p = .ok found → keys found.1 = false

section

variable [DecidablePred (ShowsAll keys)]

instance (d : Disk) (p : Path) : Decidable (d.ShowsEntry keys p) :=
  inferInstanceAs (Decidable (∀ found, d.locate false p = .ok found → ShowsAll keys found.1))

instance (d : Disk) (p : Path) : Decidable (d.ShowsTree keys p) :=
  decidable_of_iff (d.ShowsEntry keys p ∧ ∀ found, d.locate true p = .ok found →
      found.2.isFolder = true → ShowsAll keys found.1)
    ⟨fun h => ⟨h.1, h.2⟩, fun h => ⟨h.entry, h.folder⟩⟩

end

instance (keys : Place → Bool) (d : Disk) (p : Path) : Decidable (d.ShowsFile keys p) :=
  inferInstanceAs (Decidable (∀ found, d.locate true p = .ok found → keys found.1 = false))

/-! ### What is shown does not depend on what is hidden -/

theorem locate_congr (h : d.hide keys = d'.hide keys) (follow : Bool) (p : Path) :
    (d.locate follow p).map (fun found => (found.1, found.2.hide (beneath keys found.1))) =
      (d'.locate follow p).map fun found => (found.1, found.2.hide (beneath keys found.1)) := by
  rw [← locate_hide, h, locate_hide]

theorem makeFolders_congr (h : d.hide keys = d'.hide keys) (p : Path) :
    (d.makeFolders p).map (hide keys) = (d'.makeFolders p).map (hide keys) := by
  rw [← makeFolders_hide, h, makeFolders_hide]

theorem isPresent_congr (h : d.hide keys = d'.hide keys) : d.isPresent = d'.isPresent := by
  funext p
  rw [← isPresent_hide keys, h, isPresent_hide]

theorem hasEntry_congr (h : d.hide keys = d'.hide keys) : d.hasEntry = d'.hasEntry := by
  funext p
  rw [← hasEntry_hide keys, h, hasEntry_hide]

theorem exists_locate_of_hide_eq {follow : Bool} {place : Place}
    (h : d.hide keys = d'.hide keys) (hlocate : d.locate follow p = .ok (place, node)) :
    ∃ node', d'.locate follow p = .ok (place, node') ∧
      node.hide (beneath keys place) = node'.hide (beneath keys place) := by
  rcases cases_of_map_eq (locate_congr h follow p) with
    ⟨e, he, -⟩ | ⟨found, ⟨place', node'⟩, hfound, hfound', hsame⟩
  · cases hlocate.symm.trans he
  · cases hlocate.symm.trans hfound
    obtain ⟨rfl, hnode⟩ := Prod.mk.inj hsame
    exact ⟨node', hfound', hnode⟩

theorem ShowsEntry.congr (h : d.hide keys = d'.hide keys) (hshows : d.ShowsEntry keys p) :
    d'.ShowsEntry keys p := by
  rintro ⟨place, node⟩ hlocate
  obtain ⟨node', hlocate', -⟩ := exists_locate_of_hide_eq h.symm hlocate
  exact hshows (place, node') hlocate'

theorem ShowsTree.congr (h : d.hide keys = d'.hide keys) (hshows : d.ShowsTree keys p) :
    d'.ShowsTree keys p where
  entry := hshows.entry.congr h
  folder := by
    rintro ⟨place, node⟩ hlocate hfolder
    obtain ⟨node', hlocate', hnode⟩ := exists_locate_of_hide_eq h.symm hlocate
    refine hshows.folder (place, node') hlocate' ?_
    rw [← Node.isFolder_hide (beneath keys place), ← hnode, Node.isFolder_hide, hfolder]

theorem ShowsFile.congr (h : d.hide keys = d'.hide keys) (hshows : d.ShowsFile keys p) :
    d'.ShowsFile keys p := by
  rintro ⟨place, node⟩ hlocate
  obtain ⟨node', hlocate', -⟩ := exists_locate_of_hide_eq h.symm hlocate
  exact hshows (place, node') hlocate'

/-- What is written at a path is hidden, whatever the hidden contents are. -/
theorem WritesIn.congr (h : d.hide keys = d'.hide keys) (hwrites : d.WritesIn keys p) :
    d'.WritesIn keys p := by
  intro folders hfolders place haim
  have habove : (d.foldersAbove p).map (hide keys) = (d'.foldersAbove p).map (hide keys) := by
    rw [← foldersAbove_hide, h, foldersAbove_hide]
  rcases cases_of_map_eq habove with ⟨e, -, he⟩ | ⟨made, made', hmade, hmade', hsame⟩
  · cases hfolders.symm.trans he
  · cases hfolders.symm.trans hmade'
    rw [← aim_hide keys, ← hsame, aim_hide] at haim
    exact hwrites made hmade place haim

/-- Paths lead nowhere else when entries go. -/
theorem ShowsEntry.of_isPartOf (hpart : IsPartOf d'.top d.top) (hshows : d.ShowsEntry keys p) :
    d'.ShowsEntry keys p := by
  rintro ⟨place, node⟩ hlocate
  obtain ⟨⟨seen, hleads⟩, hat⟩ := locate_eq_ok_iff.mp hlocate
  obtain ⟨whole, hwhole⟩ := (hleads.of_isPartOf hpart).exists_at?
  exact hshows (place, whole)
    (locate_eq_ok_iff.mpr ⟨⟨seen, hleads.of_isPartOf hpart⟩, hwhole⟩)

theorem ShowsTree.of_isPartOf (hpart : IsPartOf d'.top d.top) (hshows : d.ShowsTree keys p) :
    d'.ShowsTree keys p where
  entry := hshows.entry.of_isPartOf hpart
  folder := by
    rintro ⟨place, node⟩ hlocate hfolder
    obtain ⟨⟨seen, hleads⟩, hat⟩ := locate_eq_ok_iff.mp hlocate
    cases node with
    | folder entries =>
      obtain ⟨whole, hwhole⟩ := hpart.exists_folder hat
      exact hshows.folder (place, .folder whole)
        (locate_eq_ok_iff.mpr ⟨⟨seen, hleads.of_isPartOf hpart⟩, hwhole⟩) rfl
    | file => cases hfolder
    | link => cases hfolder

/-! ### Measuring -/

/-- An entry of which nothing is hidden is seen as it is. -/
theorem status_hide_of_showsEntry (h : d.ShowsEntry keys p) :
    (d.hide keys).status false p = d.status false p := by
  rw [status, status, locate_hide]
  cases hlocate : d.locate false p with
  | error e => rfl
  | ok found =>
    have hnode := Node.hide_eq_self _ (h found hlocate) found.2
    exact congrArg Except.ok hnode

/-- What a path leads to, links followed, is seen as it is if it is a folder of which nothing is
hidden; what is no folder is seen as none. -/
theorem status_hide_cases (h : d.ShowsTree keys p) :
    (d.hide keys).status true p = d.status true p ∨ ∃ node node' : Node,
      (d.hide keys).status true p = .ok node ∧ node.isFolder = false ∧
        d.status true p = .ok node' ∧ node'.isFolder = false := by
  rw [status, status, locate_hide]
  cases hlocate : d.locate true p with
  | error e => exact .inl rfl
  | ok found =>
    obtain ⟨place, node⟩ := found
    cases node with
    | folder entries =>
      have hnode := Node.hide_eq_self _ (h.folder _ hlocate rfl) (.folder entries)
      exact .inl (congrArg Except.ok hnode)
    | file mode content => exact .inr ⟨_, _, rfl, rfl, rfl, rfl⟩
    | link target => exact .inr ⟨_, _, rfl, rfl, rfl, rfl⟩

theorem walkStart_hide (h : d.ShowsTree keys root) :
    (d.hide keys).walkStart root = d.walkStart root := by
  have hstatus := status_hide_of_showsEntry h.entry
  cases hnode : d.status false root with
  | error e => rw [walkStart, walkStart, hstatus, hnode]; rfl
  | ok node =>
    have hhidden := hstatus.trans hnode
    cases node with
    | file => rw [walkStart_of_status hnode (by simp), walkStart_of_status hhidden (by simp)]
    | folder => rw [walkStart_of_status hnode (by simp), walkStart_of_status hhidden (by simp)]
    | link target =>
      rw [walkStart_link hnode, walkStart_link hhidden]
      rcases status_hide_cases h with hsame | ⟨node, node', hok, hfolder, hok', hfolder'⟩
      · rw [hsame]
      · rw [hok, hok']
        simp only [Except.map, hfolder, hfolder', Bool.false_eq_true, if_false]

/-- Walking through a tree of which nothing is hidden. -/
theorem enumerate_hide (h : d.ShowsTree keys root) :
    (d.hide keys).enumerate root = d.enumerate root := by
  rw [enumerate, enumerate, walkStart_hide h]

/-- Measuring a tree of which nothing is hidden. -/
theorem folderSize_hide (h : d.ShowsTree keys root) :
    (d.hide keys).folderSize root = d.folderSize root := by
  rw [folderSize, folderSize, walkStart_hide h]

/-- Measuring an entry of which nothing is hidden. -/
theorem entrySize_hide (h : d.ShowsEntry keys p) : (d.hide keys).entrySize p = d.entrySize p := by
  have hstatus := status_hide_of_showsEntry h
  rw [entrySize, entrySize, hstatus]
  cases hnode : d.status false p with
  | error e => rfl
  | ok node =>
    cases node with
    | file => rfl
    | link => rfl
    | folder entries =>
      have hwalk : (d.hide keys).walkStart p = d.walkStart p := by
        rw [walkStart_of_status hnode (by simp),
          walkStart_of_status (hstatus.trans hnode) (by simp)]
      simp only [Node.isFolder, if_true, folderSize, hwalk]

/-- A file that is not hidden is read as it is. -/
theorem read_hide (h : d.ShowsFile keys p) : (d.hide keys).read p = d.read p := by
  rw [read, read, status, status, locate_hide]
  cases hlocate : d.locate true p with
  | error e => rfl
  | ok found =>
    obtain ⟨place, node⟩ := found
    cases node with
    | folder => rfl
    | link => rfl
    | file mode content =>
      have hkey : beneath keys place [] = false := by
        rw [beneath, List.append_nil]
        exact h _ hlocate
      simp only [Except.map, Node.hide, hkey, Bool.false_eq_true, if_false]

end Disk

/-! ### Scanning -/

namespace Scanner

variable {keys : Place → Bool} {d : Disk}

theorem visit_hide (home : Option Path) (every : Nat) {root : ReclaimRoot}
    (h : d.ShowsTree keys root.path) (state : Tally × Signals) :
    visit home every (d.hide keys) state root = visit home every d state root := by
  rw [visit, visit, Disk.isPresent_hide, Disk.enumerate_hide h]

theorem foldl_visit_hide (home : Option Path) (every : Nat) {roots : List ReclaimRoot}
    (h : ∀ root ∈ roots, d.ShowsTree keys root.path) (state : Tally × Signals) :
    roots.foldl (visit home every (d.hide keys)) state =
      roots.foldl (visit home every d) state := by
  induction roots generalizing state with
  | nil => rfl
  | cons root roots ih =>
    obtain ⟨hroot, hroots⟩ := List.forall_mem_cons.mp h
    rw [List.foldl_cons, List.foldl_cons, visit_hide home every hroot, ih hroots]

/-- A scan of trees of which nothing is hidden. -/
theorem run_hide (home : Option Path) (seconds : Double) {s : Scanner}
    (h : ∀ root ∈ s.catalog.toList, d.ShowsTree keys root.path) (signals : Signals) :
    s.run home seconds (d.hide keys) signals = s.run home seconds d signals := by
  simp only [run, foldl_visit_hide home s.every h]

/-- Two scans of trees of which nothing is hidden. -/
theorem run_congr {d' : Disk} (hsame : d.hide keys = d'.hide keys) (home : Option Path)
    (seconds : Double) {s : Scanner} (h : ∀ root ∈ s.catalog.toList, d.ShowsTree keys root.path)
    (signals : Signals) : s.run home seconds d signals = s.run home seconds d' signals := by
  have h' : ∀ root ∈ s.catalog.toList, d'.ShowsTree keys root.path := fun root hroot =>
    (h root hroot).congr hsame
  rw [← run_hide home seconds h, hsame, run_hide home seconds h']

end Scanner

/-! ### Sweeping -/

namespace Sweep

variable {keys : Place → Bool} {home : Option Path} {root : Path} {d d₀ : Disk}
  {entries : List (String × Node)} {name : String} {node : Node}

theorem delete_hide (keys : Place → Bool) (d : Disk) (child : Path) (node : Node) :
    delete (d.hide keys) child node = (delete d child node).map (Disk.hide keys) := by
  rw [delete, delete]
  split
  · exact Disk.removeTree_hide keys d child
  · exact Disk.unlink_hide keys d child

theorem isPartOf_delete {d' : Disk} {child : Path} (h : delete d child node = .ok d') :
    IsPartOf d'.top d.top := by
  rw [delete] at h
  split at h
  · obtain ⟨⟨place, node⟩, -, h⟩ := exists_ok_of_bind h
    have hclear := Node.isPartOf_clear d.top place
    dsimp only at h
    split at h
    · cases h
      exact (Node.isPartOf_drop _ place).trans hclear
    · cases h
      exact hclear
  · obtain ⟨⟨place, node⟩, -, h⟩ := exists_ok_of_bind h
    cases node with
    | folder => cases h
    | file => cases h; exact Node.isPartOf_drop d.top place
    | link => cases h; exact Node.isPartOf_drop d.top place

theorem isPartOf_step (home : Option Path) (root : Path) (sweep : Sweep) (d : Disk)
    (entry : String × Node) : IsPartOf (step home root (sweep, d) entry).2.top d.top := by
  obtain ⟨name, node⟩ := entry
  simp only [step]
  split
  · exact .refl _
  · split
    next d' hd' => exact isPartOf_delete hd'
    next => exact .refl _

/-- An entry of which nothing is hidden is deleted as it is. -/
theorem step_hide (hchild : d.ShowsEntry keys (root.child name)) (sweep : Sweep)
    (inside : Place → Bool) (node : Node) :
    step home root (sweep, d.hide keys) (name, node.hide inside) =
      ((step home root (sweep, d) (name, node)).1,
        (step home root (sweep, d) (name, node)).2.hide keys) := by
  have hdelete : delete (d.hide keys) (root.child name) (node.hide inside) =
      (delete d (root.child name) node).map (Disk.hide keys) := by
    rw [← delete_hide, delete, delete, Node.isFolder_hide]
  simp only [step, hdelete, Disk.entrySize_hide hchild]
  split
  · rfl
  · cases delete d (root.child name) node <;> rfl

/-- The children of a folder of which nothing is hidden are entries of which nothing is. -/
theorem showsEntry_child (hsound : d₀.top.Sound) (hroot : d₀.ShowsTree keys root)
    (hlist : d₀.list root = .ok entries) (hentry : (name, node) ∈ entries)
    (hpart : IsPartOf d.top d₀.top) : d.ShowsEntry keys (root.child name) := by
  rintro ⟨goal, found⟩ hlocate
  obtain ⟨place, hfolder⟩ := Disk.list_eq_ok_iff.mp hlist
  obtain ⟨⟨seen, hleads⟩, hat⟩ := Disk.folderAt?_eq_some_iff.mp hfolder
  have hall := hroot.folder _ (Disk.locate_eq_ok_iff.mpr ⟨⟨seen, hleads⟩, hat⟩) rfl
  obtain ⟨⟨seen', hreach⟩, -⟩ := Disk.locate_eq_ok_iff.mp hlocate
  have hchild := hleads.child hsound hat hentry hreach.1.2.2
  obtain ⟨-, rfl⟩ := (hreach.of_isPartOf hpart).unique hchild
  exact hall.append [name]

/-- The entries that were listed are deleted one after the other; what one deletion leaves is a part
of what was listed, so nothing is hidden of the others. -/
theorem foldl_step_hide {rest : List (String × Node)} (hsound : d₀.top.Sound)
    (hroot : d₀.ShowsTree keys root) (hlist : d₀.list root = .ok entries) (hsub : rest ⊆ entries)
    (hpart : IsPartOf d.top d₀.top) (inside : Place → Bool) (sweep : Sweep) :
    (Node.hideEntries inside rest).foldl (step home root) (sweep, d.hide keys) =
      ((rest.foldl (step home root) (sweep, d)).1,
        (rest.foldl (step home root) (sweep, d)).2.hide keys) := by
  induction rest generalizing sweep d with
  | nil => rfl
  | cons entry rest ih =>
    obtain ⟨hentry, hsub⟩ := List.cons_subset.mp hsub
    have hchild := showsEntry_child hsound hroot hlist hentry hpart
    rw [Node.hideEntries, List.foldl_cons, List.foldl_cons, step_hide hchild]
    exact ih hsub ((isPartOf_step home root sweep d entry).trans hpart) _

/-- A sweep through a tree of which nothing is hidden. -/
theorem run_hide (hsound : d.top.Sound) (hroot : d.ShowsTree keys root) :
    run home root (d.hide keys) = ((run home root d).1, (run home root d).2.hide keys) := by
  rw [run, run]
  split
  next =>
    obtain ⟨inside, hlist⟩ := Disk.exists_list_hide keys d root
    rw [hlist]
    cases hentries : d.list root with
    | error e => rfl
    | ok entries =>
      exact foldl_step_hide hsound hroot hentries (List.Subset.refl entries) (.refl _) inside {}
  next => rfl

/-- Two sweeps through a tree of which nothing is hidden. -/
theorem run_congr {d' : Disk} (h : d.hide keys = d'.hide keys) (hsound : d.top.Sound)
    (hroot : d.ShowsTree keys root) : (run home root d).1 = (run home root d').1 ∧
      (run home root d).2.hide keys = (run home root d').2.hide keys := by
  have hsame : run home root (d.hide keys) = _ := run_hide hsound hroot
  have hsound' := Node.Sound.congr h hsound
  rw [h, run_hide hsound' (hroot.congr h)] at hsame
  exact (Prod.mk.inj hsame).imp Eq.symm Eq.symm

end Sweep

end Reclaim
