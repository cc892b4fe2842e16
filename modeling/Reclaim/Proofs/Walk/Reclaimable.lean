import Reclaim.Proofs.Disk.Removal

/-!
# The reclaimable entries below a path

A scan shows neither hidden entries nor what is inside a bundle.  This is said of the tree below the
start: an entry is reclaimable unless its own name or one on the way to it is hidden, or a folder
above it is a bundle.  The start itself does not count, whatever it is called and even if it is a
link.  A walk finds these entries and no others, and counts the bytes of all files.

The limit to this is the length of a path.  A folder with too long a path cannot be listed, which is
told in place of its entries, and a file with too long a path is told as an error and counts no
bytes.

## Main definitions

* `Node.Reclaimable` : the entry at a place is neither hidden nor inside a bundle.
* `Node.Enumerated` : the items and the size that walks give for a folder.

## Main results

* `Node.mem_inside_iff_reclaimable` : the entries that a walk goes to are the reclaimable ones.
* `Disk.enumerate_exact` : what a walk finds below a path that leads to a folder.
-/

namespace Reclaim

/-! ### Reclaimable entries -/

namespace Node

variable {top node : Node} {place : Place} {entries : List (String × Node)}

/-- The entry at a place below the top is neither hidden nor inside a bundle. -/
structure Reclaimable (top : Node) (place : Place) (node : Node) : Prop where
  below : place ≠ []
  there : top.at? place = some node
  shown : ∀ name ∈ place, isHiddenName name = false
  outside : ∀ above name, above ++ [name] <+: place → above ++ [name] ≠ place →
    isBundleName name = true → ∀ entries, top.at? (above ++ [name]) ≠ some (.folder entries)

/-- The entries that a walk goes to are the reclaimable ones. -/
theorem mem_inside_iff_reclaimable (hsound : Sound top) :
    (place, node) ∈ inside isHiddenName isBundleName top ↔ top.Reclaimable place node := by
  rw [mem_inside_iff hsound]
  constructor
  · rintro ⟨hbelow, hthere, hshown, hopen⟩
    refine ⟨hbelow, hthere, hshown, ?_⟩
    intro above name hprefix hne hbundle
    obtain ⟨rest, rfl⟩ := hprefix
    have hrest : rest ≠ [] := by
      rintro rfl
      exact hne (List.append_nil _).symm
    have hname : name ∈ (above ++ [name] ++ rest).dropLast := by
      rw [List.dropLast_append_of_ne_nil hrest]
      simp
    rw [hopen name hname] at hbundle
    cases hbundle
  · rintro ⟨hbelow, hthere, hshown, houtside⟩
    refine ⟨hbelow, hthere, hshown, ?_⟩
    intro name hname
    obtain ⟨above, rest, hsplit⟩ := List.append_of_mem hname
    obtain ⟨last, hlast⟩ : ∃ last, place = above ++ [name] ++ (rest ++ [last]) := by
      have hplace := List.dropLast_append_getLast hbelow
      rw [hsplit] at hplace
      exact ⟨_, by simpa using hplace.symm⟩
    subst hlast
    -- something is below the entry of this name, so it is a folder
    obtain ⟨entries, hfolder⟩ := exists_folder_of_at?_append (by simp) hthere
    by_contra hbundle
    exact houtside above name (List.prefix_append _ _) (by simp) (by simpa using hbundle) entries
      hfolder

end Node

/-! ### Paths below a path -/

theorem Path.components_descend (p : Path) {place : Place}
    (h : ∀ name ∈ place, IsName name) :
    (p.descend place).components = p.components ++ place.map Component.name := by
  induction place generalizing p with
  | nil => simp
  | cons name place ih =>
    obtain ⟨hname, hrest⟩ := List.forall_mem_cons.mp h
    rw [descend_cons, ih _ hrest, components_child_name p hname, List.append_assoc, List.map_cons,
      List.singleton_append]

/-- Different places below a path have different paths. -/
theorem Path.eq_of_descend_eq {p : Path} {place place' : Place} (h : ∀ name ∈ place, IsName name)
    (h' : ∀ name ∈ place', IsName name) (heq : p.descend place = p.descend place') :
    place = place' := by
  have hcomponents := congrArg components heq
  rw [components_descend p h, components_descend p h'] at hcomponents
  exact List.map_injective_iff.mpr (fun _ _ => Component.name.inj)
    (List.append_cancel_left hcomponents)

/-! ### What a walk finds -/

namespace Disk

variable {d : Disk} {start : Path} {entries : List (String × Node)}

/-- A walk starts at the folder that its path leads to, be it through a link. -/
theorem walkStart_eq (h : d.status true start = .ok (.folder entries)) :
    d.walkStart start = .ok (.folder entries) := by
  obtain ⟨seen, place, hleads⟩ := isOk_status_iff.mp (by rw [h]; rfl)
  obtain ⟨node, hat⟩ := hleads.exists_at?
  obtain rfl : node = .folder entries := Except.ok.inj ((hleads.status_eq hat).symm.trans h)
  obtain ⟨seen', place', hleads', rfl | ⟨target, htarget⟩⟩ := hleads.exists_unfollowed
  · simp [walkStart, hleads'.status_eq hat, bind, Except.bind]
  · simp [walkStart, hleads'.status_eq htarget, h, bind, Except.bind]

end Disk

namespace Item

variable {p : Path} {node : Node} {item : Item}

/-- The path of which an item tells. -/
def path : Item → Path
  | .ok found => found.path
  | .error (.unlisted e) => e.path
  | .error (.unmeasured e) => e.path

/-- The bytes that an item tells. -/
def size? (item : Item) : Option Nat :=
  item.toOption.bind Found.size

theorem path_of_mem_allOf (h : item ∈ allOf p node) : path item = p := by
  rw [allOf, List.mem_cons] at h
  rcases h with rfl | h
  · cases hfile : node.isFile <;> cases hlong : p.isTooLong <;>
      simp [ofEntry, Node.lengthAt, hfile, hlong, path, WalkError.tooLong]
  · split at h
    · rw [List.mem_singleton.mp h]
      rfl
    · cases h

theorem nodup_allOf (p : Path) (node : Node) : (allOf p node).Nodup := by
  rw [allOf]
  split
  next hfolder =>
    have hfile : node.isFile = false := by cases node <;> simp_all [Node.isFolder, Node.isFile]
    simp [ofEntry, hfile]
  next => exact List.nodup_singleton _

/-- A walk tells the length of a file that can be measured, and of nothing else. -/
theorem filterMap_size_allOf (p : Path) (node : Node) : (allOf p node).filterMap size? =
    if node.isFile && !p.isTooLong then [node.length] else [] := by
  have herror : size? (.error (.unlisted (.tooLong p))) = none := rfl
  have hother : size? (.ok ⟨p, none⟩) = none := rfl
  cases hfile : node.isFile with
  | false =>
    rw [allOf, ofEntry, hfile, if_neg Bool.false_ne_true, List.filterMap_cons_none hother]
    split <;> simp [herror]
  | true =>
    have hfolder : node.isFolder = false := by cases node <;> simp_all [Node.isFolder, Node.isFile]
    cases hlong : p.isTooLong with
    | false =>
      have hsize : size? (.ok ⟨p, some node.length⟩) = some node.length := rfl
      simp [allOf, ofEntry, Node.lengthAt, hfile, hfolder, hlong, hsize]
    | true =>
      have hunmeasured : size? (.error (.unmeasured (.tooLong p))) = none := rfl
      simp [allOf, ofEntry, Node.lengthAt, hfile, hfolder, hlong, hunmeasured]

/-- A file whose path is too long is told as an error. -/
theorem allOf_file_of_long (h : p.isTooLong = true) (mode : Nat) (content : Content) :
    allOf p (.file mode content) = [.error (.unmeasured (.tooLong p))] := by
  simp [allOf, ofEntry, Node.lengthAt, Node.isFile, Node.isFolder, h]

/-- Of an entry whose path is not too long a walk tells the path, and the length of a file. -/
theorem allOf_of_short (h : p.isTooLong = false) (node : Node) :
    allOf p node = [.ok ⟨p, if node.isFile then some node.length else none⟩] := by
  cases hfile : node.isFile <;> simp [allOf, ofEntry, Node.lengthAt, h, hfile]

end Item

namespace Node

variable {start : Path} {top : Node}

/-- The items and the size that walks give for a folder at a path.  They are accounted for by the
entries that are found and by the files that are counted, with their places below the folder. -/
structure Enumerated (start : Path) (top : Node) (items : List Item) (size : Nat)
    (found counted : List (Place × Node)) : Prop where
  items_eq : items = found.flatMap fun e => Item.allOf (start.descend e.1) e.2
  once : items.Nodup
  /-- The reclaimable entries are found whose folders can be listed. -/
  mem_found : ∀ place node, (place, node) ∈ found ↔
    top.Reclaimable place node ∧ (start.descend place.dropLast).isTooLong = false
  /-- An entry comes in front of what is below it. -/
  order : found.Pairwise fun e later => ¬later.1 <+: e.1
  counted_once : counted.Nodup
  /-- The files are counted that can be measured, be they hidden or inside a bundle. -/
  mem_counted : ∀ place node, (place, node) ∈ counted ↔
    top.at? place = some node ∧ node.isFile = true ∧ (start.descend place).isTooLong = false
  told_le : (items.filterMap Item.size?).sum ≤ (counted.map fun e => e.2.length).sum
  size_eq : size = Bytes.wrap (counted.map fun e => e.2.length).sum

end Node

namespace Disk

variable {d : Disk} {start : Path} {entries : List (String × Node)}

/-- No item comes twice. -/
theorem nodup_enumerate (hsound : Node.Sound (.folder entries))
    (hstart : d.walkStart start = .ok (.folder entries)) : (d.enumerate start).Nodup := by
  have hnamed : ∀ e ∈ Node.inside isHiddenName isBundleName (.folder entries),
      ∀ name ∈ e.1, IsName name := fun e he name hname =>
    (Node.isEntryName_of_at? hsound ((Node.mem_inside_iff hsound).mp he).2.1 name hname).1
  rw [enumerate_eq hstart hsound, List.nodup_flatMap]
  refine ⟨fun e _ => Item.nodup_allOf _ _, ?_⟩
  refine ((Node.pairwise_inside hsound).filter _).imp_of_mem fun {e later} he hlater hprefix => ?_
  rw [Function.onFun, List.disjoint_left]
  intro item hitem hitem'
  have hpath := (Item.path_of_mem_allOf hitem).symm.trans (Item.path_of_mem_allOf hitem')
  have hplace := Path.eq_of_descend_eq (hnamed e (List.mem_filter.mp he).1)
    (hnamed later (List.mem_filter.mp hlater).1) hpath
  exact hprefix (hplace ▸ List.prefix_refl e.1)

/-- The sizes that a walk tells are the lengths of the files among what it finds. -/
theorem sum_size_enumerate (hsound : Node.Sound (.folder entries))
    (hstart : d.walkStart start = .ok (.folder entries)) :
    ((d.enumerate start).filterMap Item.size?).sum =
      ((Node.inside isHiddenName isBundleName (.folder entries)).map
        (Node.measuredLength start)).sum := by
  have hone : ∀ e : Place × Node, ((Item.allOf (start.descend e.1) e.2).filterMap Item.size?).sum =
      Node.measuredLength start e := by
    intro e
    rw [Item.filterMap_size_allOf, Node.measuredLength]
    split <;> simp
  have hsplit := List.sum_map_filter_add_sum_map_filter_not
    (fun e => Node.isListed start e = true) (Node.measuredLength start)
    (Node.inside isHiddenName isBundleName (.folder entries))
  have hunlisted : (((Node.inside isHiddenName isBundleName (.folder entries)).filter fun e =>
      ¬Node.isListed start e = true).map (Node.measuredLength start)).sum = 0 := by
    refine List.sum_eq_zero (List.forall_mem_map.mpr fun e he => ?_)
    obtain ⟨he, hnot⟩ := List.mem_filter.mp he
    exact Node.measuredLength_of_not_isListed hsound he (by simpa using hnot)
  rw [hunlisted, Nat.add_zero] at hsplit
  rw [enumerate_eq hstart hsound, List.filterMap_flatMap, List.flatMap_def, List.sum_flatten,
    List.map_map, ← hsplit]
  simp only [Function.comp_def, hone, Bool.decide_eq_true]

/-- **What a walk finds.** Below a path that leads to a folder a walk finds the reclaimable entries
whose folders can be listed, each once and in front of what is below it.  It tells the length of a
file and of nothing else; a file that cannot be measured and a folder that cannot be listed are told
as errors.  The lengths come to no more than those of all files that can be measured, which make up
the size of the folder.  If no path below the folder is too long, all reclaimable entries are found
without errors, and all files are counted. -/
theorem enumerate_exact (hsound : d.top.Sound)
    (hstart : d.status true start = .ok (.folder entries)) :
    ∃ found counted : List (Place × Node),
      Node.Enumerated start (.folder entries) (d.enumerate start) (d.folderSize start) found
        counted ∧
      ((counted.map fun e => e.2.length).sum < Bytes.limit →
        d.folderSize start = (counted.map fun e => e.2.length).sum) ∧
      ((∀ place, (Node.folder entries).at? place ≠ none →
          (start.descend place).isTooLong = false) →
        d.enumerate start = found.map (fun e =>
          .ok ⟨start.descend e.1, if e.2.isFile then some e.2.length else none⟩) ∧
        (∀ place node, (place, node) ∈ found ↔ (Node.folder entries).Reclaimable place node) ∧
        ∀ place node, (place, node) ∈ counted ↔
          (Node.folder entries).at? place = some node ∧ node.isFile = true) := by
  obtain ⟨seen, place, hleads⟩ := isOk_status_iff.mp (by rw [hstart]; rfl)
  obtain ⟨node, hat⟩ := hleads.exists_at?
  obtain rfl : node = .folder entries :=
    Except.ok.inj ((hleads.status_eq hat).symm.trans hstart)
  have hfolder : Node.Sound (.folder entries) := hsound.at? hat
  have hwalk := walkStart_eq hstart
  let inside := Node.inside isHiddenName isBundleName (.folder entries)
  let found := inside.filter (Node.isListed start)
  let counted := (Node.folder entries).allInside.filter fun e =>
    e.2.isFile && !(start.descend e.1).isTooLong
  have hfound : ∀ place node, (place, node) ∈ found ↔
      (Node.folder entries).Reclaimable place node ∧
        (start.descend place.dropLast).isTooLong = false := by
    intro place node
    rw [List.mem_filter, Node.mem_inside_iff_reclaimable hfolder]
    simp [Node.isListed]
  have hcounted : ∀ place node, (place, node) ∈ counted ↔
      (Node.folder entries).at? place = some node ∧ node.isFile = true ∧
        (start.descend place).isTooLong = false := by
    intro place node
    rw [List.mem_filter, Node.allInside, Node.mem_inside_iff hfolder]
    simp only [Bool.and_eq_true, Bool.not_eq_true', implies_true, and_true]
    refine ⟨fun h => ⟨h.1.2, h.2⟩, fun h => ⟨⟨?_, h.1⟩, h.2⟩⟩
    -- the folder itself is no file
    rintro rfl
    cases h.1
    cases h.2.1
  have htotal : ((Node.folder entries).allInside.map (Node.measuredLength start)).sum =
      (counted.map fun e => e.2.length).sum := Node.sum_measuredLength start _
  have hsize : d.folderSize start = Bytes.wrap (counted.map fun e => e.2.length).sum := by
    rw [folderSize_eq hwalk, Node.fileBytes_within hfolder, htotal]
  have htold : ((d.enumerate start).filterMap Item.size?).sum ≤
      (counted.map fun e => e.2.length).sum := by
    rw [sum_size_enumerate hfolder hwalk, ← htotal]
    have hfewer := (Node.sublist_inside isHiddenName isBundleName (.folder entries)).map
      (Node.measuredLength start)
    exact hfewer.sum_le_sum fun _ _ => Nat.zero_le _
  refine ⟨found, counted, ?_, fun hless => hsize.trans (Bytes.wrap_of_lt hless), ?_⟩
  · exact {
      items_eq := enumerate_eq hwalk hfolder
      once := nodup_enumerate hfolder hwalk
      mem_found := hfound
      order := (Node.pairwise_inside hfolder).filter _
      counted_once := (Node.nodup_inside hfolder).filter _
      mem_counted := hcounted
      told_le := htold
      size_eq := hsize }
  · intro hshort
    have hthere : ∀ e ∈ inside, (Node.folder entries).at? e.1 ≠ none := by
      intro e he
      rw [((Node.mem_inside_iff hfolder).mp he).2.1]
      exact Option.some_ne_none _
    refine ⟨?_, fun place node => ?_, fun place node => ?_⟩
    · rw [enumerate_eq hwalk hfolder, ← List.flatMap_pure_eq_map]
      refine List.flatMap_congr fun e he => ?_
      exact Item.allOf_of_short (hshort e.1 (hthere e (List.mem_filter.mp he).1)) e.2
    · rw [hfound, and_iff_left_iff_imp]
      intro hreclaimable
      refine hshort _ fun hnone => ?_
      have hplace := List.dropLast_append_getLast hreclaimable.below
      have hat' := hreclaimable.there
      rw [← hplace, Node.at?_append, hnone] at hat'
      cases hat'
    · rw [hcounted]
      refine and_congr_right fun hat' => and_iff_left ?_
      exact hshort place (by rw [hat']; exact Option.some_ne_none _)

/-- A hidden file, a bundle, a link and a file. -/
def shelfEntries : List (String × Node) :=
  [(".h", .file 0 (.bytes ⟨#[1]⟩)), ("B.APP", .folder [("in", .file 0 (.bytes ⟨#[1, 2]⟩))]),
    ("l", .link "/v"), ("a", .file 0 (.bytes ⟨#[1, 2, 3]⟩))]

/-- A folder with these entries, and a link to it under a hidden name with the ending of a
bundle. -/
def shelf : Disk :=
  ⟨.folder [("v", .folder shelfEntries), (".s.app", .link "/v")]⟩

theorem sound_shelfEntries : (Node.folder shelfEntries).Sound := by decide

theorem sound_shelf : shelf.top.Sound := by decide

/-- What a walk finds through the link, which is neither hidden nor a bundle as a start. -/
theorem enumerate_exact_shelf : shelf.top.Sound ∧
    shelf.status true ⟨"/.s.app"⟩ = .ok (.folder shelfEntries) ∧
    shelf.enumerate ⟨"/.s.app"⟩ = [.ok ⟨⟨"/.s.app/B.APP"⟩, none⟩, .ok ⟨⟨"/.s.app/l"⟩, none⟩,
      .ok ⟨⟨"/.s.app/a"⟩, some 3⟩] ∧
    ∃ found counted : List (Place × Node),
      Node.Enumerated ⟨"/.s.app"⟩ (.folder shelfEntries) (shelf.enumerate ⟨"/.s.app"⟩)
        (shelf.folderSize ⟨"/.s.app"⟩) found counted := by
  have hstart : shelf.status true ⟨"/.s.app"⟩ = .ok (.folder shelfEntries) := rfl
  obtain ⟨found, counted, htold, -⟩ := enumerate_exact sound_shelf hstart
  refine ⟨sound_shelf, hstart, ?_, found, counted, htold⟩
  rw [enumerate_eq (walkStart_eq hstart) sound_shelfEntries]
  decide

/-- A folder with a file of one byte. -/
def farEntries : List (String × Node) :=
  [("f", .file 0 (.bytes ⟨#[1]⟩))]

/-- A disk with that folder. -/
def farShelf : Disk :=
  ⟨.folder [("d", .folder farEntries)]⟩

/-- The path of the folder, written with so many slashes that the path of the file is too long. -/
def farPath : Path :=
  (Path.mk "/d").slashed 4093

theorem isTooLong_farPath : (farPath.child "f").isTooLong = true := by
  rw [Path.isTooLong, farPath, Path.child_slashed 4093 (by decide) (by decide),
    Path.utf8ByteSize_slashed]
  decide

theorem folderAt?_farPath : farShelf.folderAt? farPath = some (["d"], farEntries) := by
  have hlength := Path.utf8ByteSize_slashed 4093 ⟨"/d"⟩
  exact folderAt?_slashed 4093 (by decide) (by rw [hlength]; decide) rfl

/-- A file with too long a path is told as an error, and the size of its folder lacks it. -/
theorem enumerate_farShelf : farShelf.status true farPath = .ok (.folder farEntries) ∧
    (Node.folder farEntries).Reclaimable ["f"] (.file 0 (.bytes ⟨#[1]⟩)) ∧
    farShelf.enumerate farPath = [.error (.unmeasured (.tooLong (farPath.child "f")))] ∧
    (Node.folder farEntries).fileBytes = 1 ∧ farShelf.folderSize farPath = 0 := by
  obtain ⟨⟨seen, hleads⟩, hat⟩ := folderAt?_eq_some_iff.mp folderAt?_farPath
  have hstart := hleads.status_eq hat
  have hwalk := walkStart_eq hstart
  have hsound : (Node.folder farEntries).Sound := by decide
  have hinside : Node.inside isHiddenName isBundleName (.folder farEntries) =
      [(["f"], .file 0 (.bytes ⟨#[1]⟩))] := rfl
  refine ⟨hstart, ?_, ?_, rfl, ?_⟩
  · rw [← Node.mem_inside_iff_reclaimable hsound, hinside]
    exact List.mem_singleton_self _
  · have hlisted : Node.isListed farPath (["f"], .file 0 (.bytes ⟨#[1]⟩)) = true := by
      simp [Node.isListed, isTooLong_of_walkStart hwalk]
    rw [enumerate_eq hwalk hsound, hinside, List.filter_singleton, hlisted]
    rw [cond_true, List.flatMap_singleton, Path.descend_cons, Path.descend_nil,
      Item.allOf_file_of_long isTooLong_farPath]
  · rw [folderSize_eq hwalk]
    simp [Node.within, Node.entriesWithin, farEntries, isTooLong_farPath, Node.fileBytes,
      Node.entryBytes]

end Disk

end Reclaim
