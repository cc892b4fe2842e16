import Reclaim.Proofs.Disk.Way
import Reclaim.Proofs.Walk.Traversal

/-!
# Looking and removing along ways

The calls on files, stated with ways: what a call finds is the end of the way of its path, and what
a removal takes away is an entry with all below it.  A folder is emptied before it goes, and if its
path led through something inside it, it stays as an empty one.

## Main definitions

* `Disk.Leads` : where a path leads, and the entries on its way.
* `Disk.IsStraight` : no link is followed.
* `Disk.folderAt?` : the folder that a path leads to, with its place.
* `Disk.Removal` : an entry is gone with all below it, or is left empty.

## Main results

* `Disk.locate_eq_ok_iff`, `Disk.list_eq_ok_iff` : looking.
* `Disk.hasEntry_iff_of_isPartOf` : an entry is lost if an entry on its way is.
* `Disk.Leads.of_isStraight` : where a path leads without links.
* `Disk.Leads.child` : the entries of a folder are reached by their names.
* `Disk.exists_unlink`, `Disk.exists_removeTree` : removing.
* `Disk.entrySize_eq` : the size that is given for an entry.
-/

namespace Reclaim

open Node

/-- The operating system takes the path: it is not empty, not too long and holds no NUL. -/
def Path.IsUsable (p : Path) : Prop :=
  '\x00' ∉ p.text.toList ∧ p.text ≠ "" ∧ p.text.utf8ByteSize < Disk.pathLimit

instance (p : Path) : Decidable p.IsUsable :=
  inferInstanceAs (Decidable (_ ∧ _))

namespace Disk

variable {d d' : Disk} {follow : Bool} {p : Path} {seen seen' : List Place}
  {place place' q : Place} {node : Node} {entries : List (String × Node)}

/-! ### Where a path leads -/

/-- The path leads to the entry at a place, past the entries on its way. -/
def Leads (d : Disk) (follow : Bool) (p : Path) (seen : List Place) (place : Place) : Prop :=
  p.IsUsable ∧ ∃ n ≤ linkLimit, Way d.top follow n [] p.steps seen place

theorem Leads.unique (h : d.Leads follow p seen place) (h' : d.Leads follow p seen' place') :
    seen = seen' ∧ place = place' := by
  obtain ⟨-, n, -, hway⟩ := h
  obtain ⟨-, n', -, hway'⟩ := h'
  exact (hway.unique hway').2

theorem Leads.ne_nil_of_mem (h : d.Leads follow p seen place) (hq : q ∈ seen) : q ≠ [] := by
  obtain ⟨-, n, -, hway⟩ := h
  exact hway.ne_nil_of_mem hq

theorem Leads.exists_at? (h : d.Leads follow p seen place) :
    ∃ node, d.top.at? place = some node := by
  obtain ⟨-, n, -, hway⟩ := h
  have hgoal := hway.bareAt?_goal_ne_none (Way.bareAt?_nil_ne_none d.top)
  exact Option.ne_none_iff_exists'.mp (mt bareAt?_eq_none_iff.mpr hgoal)

theorem Leads.bareAt?_ne_none (h : d.Leads follow p seen place) (hq : q ∈ seen) :
    d.top.bareAt? q ≠ none := by
  obtain ⟨-, n, -, hway⟩ := h
  exact hway.bareAt?_ne_none hq

/-- A path leads to the same place in the whole of a tree as in a part of it. -/
theorem Leads.of_isPartOf (hpart : IsPartOf d'.top d.top) (h : d'.Leads follow p seen place) :
    d.Leads follow p seen place := by
  obtain ⟨husable, n, hn, hway⟩ := h
  exact ⟨husable, n, hn, hway.of_isPartOf hpart⟩

/-- A path keeps leading where it led as long as the entries on its way are there. -/
theorem Leads.mono (hpart : IsPartOf d'.top d.top) (h : d.Leads follow p seen place)
    (hseen : ∀ q ∈ seen, d'.top.bareAt? q ≠ none) : d'.Leads follow p seen place := by
  obtain ⟨husable, n, hn, hway⟩ := h
  exact ⟨husable, n, hn, hway.mono hpart (Way.bareAt?_nil_ne_none d'.top) hseen⟩

theorem Leads.exists_unfollowed (h : d.Leads true p seen place) :
    ∃ seen' place', d.Leads false p seen' place' ∧
      (place' = place ∨ ∃ target, d.top.at? place' = some (.link target)) := by
  obtain ⟨husable, n, hn, hway⟩ := h
  obtain ⟨m, hm, seen', place', hway', hplace⟩ := hway.exists_unfollowed
  refine ⟨seen', place', ⟨husable, m, hm.trans hn, hway'⟩, hplace.imp_right ?_⟩
  rintro ⟨target, htarget⟩
  exact ⟨target, (bareAt?_eq_some_iff rfl).mp htarget⟩

theorem aim_of_isUsable (h : p.IsUsable) :
    d.aim follow p = (resolve d.top follow linkLimit [] p.steps).mapError .system := by
  obtain ⟨hnul, hempty, hlong⟩ := h
  rw [aim, if_neg (by simpa using hnul), if_neg hempty, if_neg (Nat.not_le.mpr hlong)]

theorem isUsable_of_aim (h : d.aim follow p = .ok place) : p.IsUsable := by
  simp only [aim] at h
  split at h
  next => cases h
  next hnul =>
    split at h
    next => cases h
    next hempty =>
      split at h
      next => cases h
      next hlong => exact ⟨by simpa using hnul, hempty, Nat.not_le.mp hlong⟩

/-- Looking up a path gives the entry that its way ends at. -/
theorem locate_eq_ok_iff : d.locate follow p = .ok (place, node) ↔
    (∃ seen, d.Leads follow p seen place) ∧ d.top.at? place = some node := by
  have hlocate : d.locate follow p = .ok (place, node) ↔
      d.aim follow p = .ok place ∧ d.top.at? place = some node := by
    rw [locate]
    cases haim : d.aim follow p with
    | error e => simp [bind, Except.bind]
    | ok found =>
      cases hat : d.top.at? found with
      | none =>
        simp only [bind, Except.bind, hat, reduceCtorEq, Except.ok.injEq, false_iff, not_and]
        rintro rfl
        simp [hat]
      | some node' =>
        simp only [bind, Except.bind, hat, Except.ok.injEq, Prod.mk.injEq]
        refine and_congr_right ?_
        rintro rfl
        simp [hat]
  rw [hlocate]
  constructor
  · rintro ⟨haim, hat⟩
    have husable := isUsable_of_aim haim
    rw [aim_of_isUsable husable] at haim
    cases hresolve : resolve d.top follow linkLimit [] p.steps with
    | error e => rw [hresolve] at haim; cases haim
    | ok found =>
      rw [hresolve] at haim
      cases haim
      obtain ⟨n, seen, hn, hway⟩ := exists_way_of_resolve hresolve hat
      exact ⟨⟨seen, husable, n, hn, hway⟩, hat⟩
  · rintro ⟨⟨seen, husable, n, hn, hway⟩, hat⟩
    rw [aim_of_isUsable husable, resolve_of_way hway hn]
    exact ⟨rfl, hat⟩

theorem Leads.locate_eq (h : d.Leads follow p seen place) (hat : d.top.at? place = some node) :
    d.locate follow p = .ok (place, node) :=
  locate_eq_ok_iff.mpr ⟨⟨seen, h⟩, hat⟩

theorem exists_locate_error (h : ¬∃ seen place, d.Leads follow p seen place) :
    ∃ e, d.locate follow p = .error e := by
  cases hlocate : d.locate follow p with
  | error e => exact ⟨e, rfl⟩
  | ok found =>
    obtain ⟨⟨seen, hleads⟩, -⟩ := locate_eq_ok_iff.mp hlocate
    exact absurd ⟨seen, found.1, hleads⟩ h

theorem Leads.status_eq (h : d.Leads follow p seen place) (hat : d.top.at? place = some node) :
    d.status follow p = .ok node := by
  rw [status, h.locate_eq hat]
  rfl

theorem isOk_status_iff :
    (d.status follow p).isOk = true ↔ ∃ seen place, d.Leads follow p seen place := by
  by_cases h : ∃ seen place, d.Leads follow p seen place
  · obtain ⟨seen, place, hleads⟩ := h
    obtain ⟨node, hat⟩ := hleads.exists_at?
    simp only [hleads.status_eq hat, Except.isOk, Except.toBool, true_iff]
    exact ⟨seen, place, hleads⟩
  · obtain ⟨e, he⟩ := exists_locate_error h
    simp [h, status, he, Except.map, Except.isOk, Except.toBool]

theorem hasEntry_iff : d.hasEntry p = true ↔ ∃ seen place, d.Leads false p seen place :=
  isOk_status_iff

theorem isPresent_iff : d.isPresent p = true ↔ ∃ seen place, d.Leads true p seen place :=
  isOk_status_iff

/-- In a part of a tree a path still is an entry exactly if all entries on its way are there. -/
theorem hasEntry_iff_of_isPartOf (hpart : IsPartOf d'.top d.top) (h : d.Leads false p seen place) :
    d'.hasEntry p = true ↔ ∀ q ∈ seen, d'.top.bareAt? q ≠ none := by
  rw [hasEntry_iff]
  constructor
  · rintro ⟨seen', place', hleads⟩ q hq
    obtain ⟨rfl, rfl⟩ := (hleads.of_isPartOf hpart).unique h
    exact hleads.bareAt?_ne_none hq
  · exact fun hseen => ⟨seen, place, h.mono hpart hseen⟩

/-- No link is followed along a path. -/
def IsStraight (d : Disk) (follow : Bool) (p : Path) : Prop :=
  resolve d.top follow 0 [] p.steps ≠ .error .linkLoop

instance (d : Disk) (follow : Bool) (p : Path) : Decidable (d.IsStraight follow p) :=
  inferInstanceAs (Decidable (¬_ = _))

/-- A path that is written without steps up and along which no link is followed leads where its
components say, and passes nothing but what is above. -/
theorem Leads.of_isStraight (h : d.Leads follow p seen place) (hstraight : d.IsStraight follow p)
    (habsolute : p.isAbsolute = true) (hup : .up ∉ p.components) :
    p.components = .root :: place.map .name ∧ ∀ q ∈ seen, q <+: place := by
  obtain ⟨-, n, -, hway⟩ := h
  cases n with
  | succ n => exact absurd (resolve_eq_linkLoop_of_way hway) hstraight
  | zero =>
  rw [Path.components_eq_steps habsolute] at hup ⊢
  have hup' : .up ∉ p.steps := fun hmem =>
    hup (List.mem_cons_of_mem _ (List.mem_filterMap.mpr ⟨.up, hmem, rfl⟩))
  obtain ⟨hplace, hseen⟩ := hway.of_no_links hup'
  exact ⟨congrArg _ hplace.symm, hseen⟩

/-- The folder that a path leads to, with its place. -/
def folderAt? (d : Disk) (p : Path) : Option (Place × List (String × Node)) :=
  match d.locate true p with
  | .ok (place, .folder entries) => some (place, entries)
  | _ => none

theorem folderAt?_eq_some_iff : d.folderAt? p = some (place, entries) ↔
    (∃ seen, d.Leads true p seen place) ∧ d.top.at? place = some (.folder entries) := by
  rw [← locate_eq_ok_iff, folderAt?]
  split
  next hlocate => simp [hlocate]
  next hother =>
    constructor
    · intro h; cases h
    · intro h; exact absurd h (hother _ _)

/-- A path to a folder leads to the same folder in the whole of a tree as in a part of it. -/
theorem folderAt?_of_isPartOf (hpart : IsPartOf d'.top d.top)
    (h : d'.folderAt? p = some (place, entries)) :
    ∃ entries', d.folderAt? p = some (place, entries') := by
  obtain ⟨⟨seen, hleads⟩, hat⟩ := folderAt?_eq_some_iff.mp h
  obtain ⟨entries', hat'⟩ := hpart.exists_folder hat
  exact ⟨entries', folderAt?_eq_some_iff.mpr ⟨⟨seen, hleads.of_isPartOf hpart⟩, hat'⟩⟩

theorem folderAt?_alike (h : Alike d.top d'.top)
    (hfolder : d.folderAt? p = some (place, entries)) :
    ∃ entries', d'.folderAt? p = some (place, entries') := by
  obtain ⟨⟨seen, hleads⟩, hat⟩ := folderAt?_eq_some_iff.mp hfolder
  obtain ⟨entries', hat'⟩ := h.folder_iff.mp ⟨entries, hat⟩
  exact ⟨entries', folderAt?_eq_some_iff.mpr
    ⟨⟨seen, hleads.of_isPartOf h.isPartOf⟩, hat'⟩⟩

theorem list_eq_ok_iff :
    d.list p = .ok entries ↔ ∃ place, d.folderAt? p = some (place, entries) := by
  rw [list, status, folderAt?]
  cases d.locate true p with
  | error e => simp [bind, Except.bind, Except.map]
  | ok found =>
    obtain ⟨place, node⟩ := found
    cases node <;> simp [bind, Except.bind, Except.map]

/-- Further slashes in front do not change where an absolute path leads, unless they make it too
long. -/
theorem folderAt?_slashed (n : Nat) (habsolute : p.isAbsolute = true)
    (hlong : (p.slashed n).text.utf8ByteSize < pathLimit)
    (h : d.folderAt? p = some (place, entries)) :
    d.folderAt? (p.slashed n) = some (place, entries) := by
  obtain ⟨⟨seen, ⟨hnul, hempty, -⟩, links, hlinks, hway⟩, hat⟩ := folderAt?_eq_some_iff.mp h
  refine folderAt?_eq_some_iff.mpr ⟨⟨seen, ⟨?_, ?_, hlong⟩, links, hlinks, ?_⟩, hat⟩
  · simpa [Path.slashed] using hnul
  · intro htext
    have hlength := Path.utf8ByteSize_slashed n p
    rw [htext] at hlength
    exact hempty (String.utf8ByteSize_eq_zero_iff.mp (by simp at hlength; omega))
  · rwa [Path.steps_slashed n habsolute]

/-! ### The entries of a folder -/

theorem isUsable_child {root : Path} {name : String} (hroot : root.IsUsable)
    (hname : IsEntryName name) (hshort : (root.child name).text.utf8ByteSize < pathLimit) :
    (root.child name).IsUsable := by
  obtain ⟨hnul, -, -⟩ := hroot
  obtain ⟨hplain, -, hnul'⟩ := hname
  have hne : name.toList ≠ [] := mt String.toList_eq_nil_iff.mp hplain.1
  have hslash : '\x00' ∉ "/".toList := by decide
  refine ⟨?_, ?_, hshort⟩
  · simp only [Path.child, Path.join, if_neg (Path.not_isAbsolute_name hplain)]
    split <;> simp_all
  · simp only [Path.child, Path.join, if_neg (Path.not_isAbsolute_name hplain)]
    split <;> rw [← String.toList_inj.ne] <;> simp_all

/-- The entries of a folder are reached by their names behind a path to it, as long as that does not
become too long. -/
theorem Leads.child {root : Path} (hsound : d.top.Sound) (h : d.Leads true root seen place)
    (hfolder : d.top.at? place = some (.folder entries)) {name : String}
    (hentry : (name, node) ∈ entries)
    (hshort : (root.child name).text.utf8ByteSize < pathLimit) :
    d.Leads false (root.child name) (seen ++ [place ++ [name]]) (place ++ [name]) := by
  obtain ⟨husable, n, hn, hway⟩ := h
  have hfoldersound := hsound.at? hfolder
  have hname := hfoldersound.named hentry
  have hat : d.top.at? (place ++ [name]) = some node := by
    rw [at?_concat hfolder, lookup_of_mem hfoldersound.once hentry]
  have hbare : d.top.bareAt? (place ++ [name]) = some node.bare := by rw [bareAt?, hat]; rfl
  obtain ⟨front, hsteps, hfront⟩ := root.exists_steps_child hname.1
  have hwayfront : Way d.top true n [] front seen place := by
    rcases hfront with hfront | hfront
    · exact hfront ▸ hway
    · exact (hfront ▸ hway).of_concat_here
  refine ⟨isUsable_child husable hname hshort, n, hn, ?_⟩
  rw [hsteps]
  exact hwayfront.child hname.2.1 hbare

/-! ### Removing -/

/-- An entry is gone with all below it, or it is left without anything below it.  Everything beside
it is as before. -/
structure Removal (d : Disk) (place : Place) (node : Node) (d' : Disk) : Prop where
  beside : ∀ q, ¬place <+: q → d'.top.bareAt? q = d.top.bareAt? q
  below : ∀ q, place <+: q → place ≠ q → d'.top.bareAt? q = none
  itself : d'.top.bareAt? place = none ∨ d'.top.bareAt? place = d.top.bareAt? place
  sound : d.top.Sound → d'.top.Sound
  bytes : d.top.Sound → d'.top.fileBytes + node.fileBytes = d.top.fileBytes

theorem Removal.isPartOf (h : d.Removal place node d') : IsPartOf d'.top d.top := by
  intro q
  by_cases hq : place <+: q
  · by_cases heq : place = q
    · exact heq ▸ h.itself
    · exact .inl (h.below q hq heq)
  · exact .inr (h.beside q hq)

/-- A way that runs through an entry is closed by its removal, and no other way is. -/
theorem Removal.open_iff (h : d.Removal place node d') (hopen : ∀ q ∈ seen, d.top.bareAt? q ≠ none)
    (hgone : d'.top.bareAt? place = none ↔ ∀ q ∈ seen, ¬(place <+: q ∧ place ≠ q)) :
    (∀ q ∈ seen, d'.top.bareAt? q ≠ none) ↔ ∀ q ∈ seen, ¬place <+: q := by
  constructor
  · intro hopen' q hq habove
    by_cases heq : place = q
    · subst heq
      have hkept := mt hgone.mpr (hopen' place hq)
      push Not at hkept
      obtain ⟨q', hq', hbelow, hne⟩ := hkept
      exact hopen' q' hq' (h.below q' hbelow hne)
    · exact hopen' q hq (h.below q habove heq)
  · intro hruns q hq
    rw [h.beside q (hruns q hq)]
    exact hopen q hq

theorem removal_drop (hplace : place ≠ []) (hat : d.top.at? place = some node) :
    d.Removal place node ⟨d.top.drop place⟩ where
  beside q hq := by rw [bareAt?_drop d.top hplace, if_neg hq]
  below q hq _ := by rw [bareAt?_drop d.top hplace, if_pos hq]
  itself := .inl (by rw [bareAt?_drop d.top hplace, if_pos (List.prefix_refl place)])
  sound hsound := hsound.drop place
  bytes hsound := fileBytes_drop hsound hplace hat

theorem removal_clear (hat : d.top.at? place = some (.folder entries)) :
    d.Removal place (.folder entries) ⟨d.top.clear place⟩ where
  beside q hq := by rw [bareAt?_clear, if_neg fun h => hq h.1]
  below q hq hne := by rw [bareAt?_clear, if_pos ⟨hq, hne⟩]
  itself := .inr (by rw [bareAt?_clear, if_neg fun h => h.2 rfl])
  sound hsound := hsound.clear place
  bytes hsound := fileBytes_clear hsound hat

/-- A folder that is emptied and then taken away. -/
theorem removal_drop_clear (hplace : place ≠ []) (hat : d.top.at? place = some (.folder entries)) :
    d.Removal place (.folder entries) ⟨(d.top.clear place).drop place⟩ := by
  have hclear := removal_clear hat
  have hdrop : Removal ⟨d.top.clear place⟩ place (.folder []) ⟨(d.top.clear place).drop place⟩ :=
    removal_drop hplace (at?_clear hat)
  refine ⟨?_, hdrop.below, ?_, fun hsound => hdrop.sound (hclear.sound hsound), ?_⟩
  · exact fun q hq => (hdrop.beside q hq).trans (hclear.beside q hq)
  · exact .inl (by rw [bareAt?_drop _ hplace, if_pos (List.prefix_refl place)])
  · intro hsound
    have hfirst := hclear.bytes hsound
    have hthen := hdrop.bytes (hclear.sound hsound)
    have hnone : (Node.folder []).fileBytes = 0 := rfl
    omega

/-- Nothing that is there lies below a file or a link. -/
theorem not_below_of_not_isFolder (hat : d.top.at? place = some node)
    (hnode : node.isFolder = false) (hq : d.top.bareAt? q ≠ none) :
    ¬(place <+: q ∧ place ≠ q) := by
  rintro ⟨⟨rest, rfl⟩, hne⟩
  obtain ⟨node', hnode'⟩ := Option.ne_none_iff_exists'.mp (mt bareAt?_eq_none_iff.mpr hq)
  have hrest : rest ≠ [] := fun h => hne (by rw [h, List.append_nil])
  obtain ⟨entries, hentries⟩ := exists_folder_of_at?_append hrest hnode'
  cases hat.symm.trans hentries
  cases hnode

/-- A file or a link is removed. -/
theorem exists_unlink (h : d.Leads false p seen place) (hplace : place ≠ [])
    (hat : d.top.at? place = some node) (hnode : node.isFolder = false) :
    ∃ d', d.unlink p = .ok d' ∧ d.Removal place node d' ∧ d'.top.bareAt? place = none := by
  refine ⟨⟨d.top.drop place⟩, ?_, removal_drop hplace hat, ?_⟩
  · cases node with
    | folder entries => cases hnode
    | file => simp [unlink, h.locate_eq hat, bind, Except.bind]
    | link => simp [unlink, h.locate_eq hat, bind, Except.bind]
  · rw [bareAt?_drop d.top hplace, if_pos (List.prefix_refl place)]

/-- A folder is removed with all below it.  The folder itself goes exactly if its path ran through
nothing inside it. -/
theorem exists_removeTree (h : d.Leads false p seen place) (hplace : place ≠ [])
    (hat : d.top.at? place = some (.folder entries)) :
    ∃ d', d.removeTree p = .ok d' ∧ d.Removal place (.folder entries) d' ∧
      (d'.top.bareAt? place = none ↔ ∀ q ∈ seen, ¬(place <+: q ∧ place ≠ q)) := by
  have hpart := isPartOf_clear d.top place
  have hempty := at?_clear hat
  cases hagain : Disk.locate ⟨d.top.clear place⟩ false p with
  | ok found =>
    refine ⟨⟨(d.top.clear place).drop place⟩, ?_, removal_drop_clear hplace hat, ?_⟩
    · simp [removeTree, h.locate_eq hat, bind, Except.bind, hagain]
    · rw [bareAt?_drop _ hplace, if_pos (List.prefix_refl place)]
      refine iff_of_true rfl fun q hq hbelow => ?_
      obtain ⟨⟨seen', hleads⟩, -⟩ := locate_eq_ok_iff.mp hagain
      obtain ⟨rfl, -⟩ := (hleads.of_isPartOf hpart).unique h
      have hthere := hleads.bareAt?_ne_none hq
      rw [bareAt?_clear, if_pos hbelow] at hthere
      exact hthere rfl
  | error e =>
    refine ⟨⟨d.top.clear place⟩, ?_, removal_clear hat, ?_⟩
    · simp [removeTree, h.locate_eq hat, bind, Except.bind, hagain]
    · refine iff_of_false (by simp [bareAt?, hempty]) fun hclear => ?_
      have hopen : Leads ⟨d.top.clear place⟩ false p seen place := by
        refine h.mono hpart fun q hq => ?_
        rw [bareAt?_clear, if_neg (hclear q hq)]
        exact h.bareAt?_ne_none hq
      rw [hopen.locate_eq hempty] at hagain
      cases hagain

/-! ### Sizes -/

/-- The size of an entry is that of the files in it, as far as paths reach them, and for a link that
of its text. -/
theorem Leads.wrap_entrySize (h : d.Leads false p seen place)
    (hat : d.top.at? place = some node) : Bytes.wrap (d.entrySize p) =
      Bytes.wrap ((node.within p).fileBytes + linkBytes node) := by
  have hstatus := h.status_eq hat
  cases node with
  | folder entries =>
    have hstart := walkStart_of_status hstatus (by simp)
    simp [entrySize, hstatus, Node.isFolder, folderSize_eq hstart, linkBytes]
  | file mode content =>
    simp [entrySize, hstatus, Node.isFolder, Node.length, within, fileBytes, linkBytes]
  | link target =>
    simp [entrySize, hstatus, Node.isFolder, Node.length, within, fileBytes, linkBytes]

end Disk

end Reclaim
