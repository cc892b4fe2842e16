import Reclaim.Proofs.Walk.Reclaimable
import Reclaim.Survey

/-!
# What a scan adds up

A scan visits the directories of its catalog that exist.  Its two totals are sums over these
directories, and do not depend on what was published on the way or before; the sum of the bytes is
a count in sixty-four bits.  For a directory the bytes are those of the files that are shown, and
together with the files that are not shown they make up what paths reach of the directory.

## Main definitions

* `Disk.scanned` : the items that a scan meets below a path.
* `Scanner.account`, `Scanner.accountAll` : what directories add to the figures and publish, with
  any items that their walks give.
* `Disk.inFolder` : a figure of the folder that a path leads to, as far as paths reach it.
* `Node.isConcealed` : the place of an entry that is hidden or inside a bundle.
* `Node.shownBytes`, `Node.concealedBytes` : the bytes of the files that are shown, and of the
  others.

## Main results

* `Scanner.accountAll_eq` : the figures are sums, whatever is published.
* `Scanner.run_eq`, `Scanner.totals_run` : a scan, and its totals.
* `Node.shownBytes_add_concealedBytes` : all files of a folder.
* `Disk.bytes_scanned` : the bytes of one directory.
-/

namespace Reclaim

/-! ### Totals -/

/-- The items that a scan meets below a path; none if it leads nowhere. -/
def Disk.scanned (d : Disk) (p : Path) : List Item :=
  if d.isPresent p then d.enumerate p else []

theorem Disk.getD_look (d : Disk) (p : Path) : (d.look p).getD [] = d.scanned p := by
  rw [look, scanned]
  split <;> rfl

/-- The bytes that an item tells. -/
def itemBytes (item : Item) : Nat :=
  (Item.size? item).getD 0

theorem sum_itemBytes (items : List Item) :
    (items.map itemBytes).sum = (items.filterMap Item.size?).sum := by
  induction items with
  | nil => rfl
  | cons item items ih =>
    rw [List.map_cons, List.sum_cons, ih, itemBytes, List.filterMap_cons]
    cases Item.size? item <;> simp

/-- One more item adds its bytes to the count. -/
theorem Tally.bytes_add (home : Option Path) (every : Nat) (t : Tally) (item : Item) {n : Nat}
    (h : t.bytes = Bytes.wrap n) :
    (add home every t item).bytes = Bytes.wrap (n + itemBytes item) := by
  cases item with
  | error e => exact h
  | ok found =>
    rw [add, h, Bytes.add, Bytes.wrap_wrap_add]
    rfl

/-- The figures of a walk count its items and add up their bytes, whatever is published. -/
theorem Tally.ofItems_eq (home : Option Path) (every : Nat) (items : List Item) :
    (ofItems home every items).bytes = Bytes.wrap (items.map itemBytes).sum ∧
      (ofItems home every items).entries = items.length := by
  have hfold : ∀ (items : List Item) (t : Tally) (n : Nat), t.bytes = Bytes.wrap n →
      (items.foldl (add home every) t).bytes = Bytes.wrap (n + (items.map itemBytes).sum) ∧
        (items.foldl (add home every) t).entries = t.entries + items.length := by
    intro items
    induction items with
    | nil => exact fun t n h => ⟨h, rfl⟩
    | cons item items ih =>
      intro t n h
      have hentry : (add home every t item).entries = t.entries + 1 := by
        cases item <;> rfl
      obtain ⟨hbytes, hentries⟩ := ih (add home every t item) _ (bytes_add home every t item h)
      rw [List.foldl_cons, hbytes, hentries, hentry, List.map_cons, List.sum_cons,
        List.length_cons, Nat.add_assoc, Nat.add_assoc, Nat.add_comm 1]
      exact ⟨rfl, rfl⟩
  have hall := hfold items {} 0 rfl
  simpa [ofItems] using hall

namespace Scanner

variable (home : Option Path) (every : Nat)

/-- What a directory adds to the figures and publishes, if its walk gives these items. -/
def account (items? : Option (List Item)) (root : ReclaimRoot)
    (acc : Tally × Signals) : Tally × Signals :=
  match items? with
  | none => acc
  | some items =>
    let one := Tally.ofItems home every items
    (Survey.addFigures acc.1 one,
      one.labels.foldl Signals.log (acc.2.log ("Scanning " ++ root.label ++ "...")))

/-- What some directories add and publish, one after the other. -/
def accountAll (look : Path → Option (List Item)) (roots : List ReclaimRoot)
    (acc : Tally × Signals) : Tally × Signals :=
  roots.foldl (fun acc root => account home every (look root.path) root acc) acc

/-- The totals add up what the walks give, whatever is published. -/
theorem accountAll_eq (look : Path → Option (List Item))
    (roots : List ReclaimRoot) (acc : Tally × Signals) {n : Nat}
    (h : acc.1.bytes = Bytes.wrap n) :
    (accountAll home every look roots acc).1.bytes = Bytes.wrap (n +
        (roots.map fun root => (((look root.path).getD []).map itemBytes).sum).sum) ∧
      (accountAll home every look roots acc).1.entries = acc.1.entries +
        (roots.map fun root => ((look root.path).getD []).length).sum := by
  induction roots generalizing acc n with
  | nil => exact ⟨h, rfl⟩
  | cons root roots ih =>
    have hone : (account home every (look root.path) root acc).1.bytes =
          Bytes.wrap (n + (((look root.path).getD []).map itemBytes).sum) ∧
        (account home every (look root.path) root acc).1.entries =
          acc.1.entries + ((look root.path).getD []).length := by
      cases look root.path with
      | none => exact ⟨h, rfl⟩
      | some items =>
        obtain ⟨hbytes, hentries⟩ := Tally.ofItems_eq home every items
        refine ⟨?_, congrArg _ hentries⟩
        rw [account, Survey.addFigures, h, hbytes, Bytes.add_wrap_wrap]
        rfl
    obtain ⟨hbytes, hentries⟩ := ih (account home every (look root.path) root acc) hone.1
    rw [accountAll, List.foldl_cons, ← accountAll, hbytes, hentries, hone.2, Nat.add_assoc,
      Nat.add_assoc]
    exact ⟨rfl, rfl⟩

variable (d : Disk)

theorem visit_eq_account (acc : Tally × Signals) (root : ReclaimRoot) :
    visit home every d acc root = account home every (d.look root.path) root acc := by
  rw [visit, Disk.look]
  split <;> rfl

/-- A scan accounts for what it finds on the disk. -/
theorem run_eq (seconds : Double) (s : Scanner) (signals : Signals) :
    s.run home seconds d signals =
      let (total, signals) := accountAll home s.every d.look s.catalog.toList
        ({}, (signals.setBusy true).setBytes 0)
      (⟨total.bytes, total.entries, doneLine, seconds⟩,
        { s with phase := (s.phase.send .scanning).send .done },
        ((signals.setBytes total.bytes).log doneLine).setBusy false) := by
  have hvisit : visit home s.every d = fun acc root =>
      account home s.every (d.look root.path) root acc :=
    funext fun acc => funext fun root => visit_eq_account home s.every d acc root
  rw [run, hvisit]
  rfl

/-- The totals of a scan are sums over the directories of its catalog. -/
theorem totals_run (seconds : Double) (s : Scanner) (signals : Signals) :
    (s.run home seconds d signals).1.totalBytes = Bytes.wrap
        (s.catalog.toList.map fun root => ((d.scanned root.path).map itemBytes).sum).sum ∧
      (s.run home seconds d signals).1.entriesVisited =
        (s.catalog.toList.map fun root => (d.scanned root.path).length).sum := by
  have hall := accountAll_eq home s.every d.look s.catalog.toList
    ({}, (signals.setBusy true).setBytes 0) (n := 0) rfl
  simp only [Nat.zero_add, Disk.getD_look] at hall
  rw [run_eq]
  exact hall

end Scanner

/-! ### Shown and concealed files -/

namespace Node

/-- The entry at the place is hidden or below something hidden, or inside a bundle. -/
def isConcealed (place : Place) : Bool :=
  place.any isHiddenName || place.dropLast.any isBundleName

/-- The bytes of the files below a node that a walk shows. -/
def shownBytes (node : Node) : Nat :=
  bytesOfFiles (inside isHiddenName isBundleName node)

/-- The bytes of the files below a node that are hidden, below something hidden, or inside a
bundle. -/
def concealedBytes (node : Node) : Nat :=
  bytesOfFiles (node.allInside.filter fun e => isConcealed e.1)

variable {node : Node} {entries : List (String × Node)}

/-- A walk shows what is not concealed. -/
theorem perm_inside (hsound : Sound node) : (inside isHiddenName isBundleName node).Perm
    (node.allInside.filter fun e => !isConcealed e.1) := by
  refine (List.perm_ext_iff_of_nodup (nodup_inside hsound) ((nodup_inside hsound).filter _)).mpr ?_
  rintro ⟨place, node'⟩
  rw [List.mem_filter, mem_inside_iff hsound, mem_inside_iff hsound]
  simp [isConcealed, and_assoc]

/-- The files that are shown and those that are not are all files of a folder. -/
theorem shownBytes_add_concealedBytes (hsound : Sound (.folder entries)) :
    shownBytes (.folder entries) + concealedBytes (.folder entries) =
      (Node.folder entries).fileBytes := by
  have hall : bytesOfFiles (Node.folder entries).allInside = (Node.folder entries).fileBytes := by
    rw [← bytesOfFiles_allInside, bytesOfFiles_cons]
    exact (Nat.zero_add _).symm
  rw [shownBytes, bytesOfFiles_perm (perm_inside hsound), concealedBytes, Nat.add_comm,
    ← bytesOfFiles_append, ← hall]
  exact bytesOfFiles_perm (List.filter_append_perm _ _)

end Node

/-! ### One directory -/

namespace Disk

variable {d : Disk} {p : Path} {place : Place} {entries : List (String × Node)}

/-- A figure of the folder that a path leads to, as far as paths reach it, and nothing if it leads
to none. -/
def inFolder (figure : Node → Nat) (d : Disk) (p : Path) : Nat :=
  match d.folderAt? p with
  | some (_, entries) => figure ((Node.folder entries).within p)
  | none => 0

theorem inFolder_eq (figure : Node → Nat) (h : d.folderAt? p = some (place, entries)) :
    d.inFolder figure p = figure ((Node.folder entries).within p) := by
  rw [inFolder, h]

theorem inFolder_eq_zero (figure : Node → Nat) (h : d.folderAt? p = none) :
    d.inFolder figure p = 0 := by
  rw [inFolder, h]

/-- A walk that starts at no folder finds nothing. -/
theorem scanned_eq_nil (h : d.folderAt? p = none) : d.scanned p = [] := by
  rw [scanned]
  split
  next hpresent =>
    obtain ⟨seen, place, hleads⟩ := isPresent_iff.mp hpresent
    obtain ⟨node, hat⟩ := hleads.exists_at?
    have hnode : ∀ entries, node ≠ .folder entries := by
      rintro entries rfl
      rw [folderAt?_eq_some_iff.mpr ⟨⟨seen, hleads⟩, hat⟩] at h
      cases h
    -- the walk starts at the entry itself or at the link to it
    have hstart : ∃ start, d.walkStart p = .ok start ∧ ∀ entries, start ≠ .folder entries := by
      obtain ⟨seen', place', hleads', rfl | ⟨target, htarget⟩⟩ := hleads.exists_unfollowed
      · refine ⟨node, ?_, hnode⟩
        cases node with
        | folder entries => exact absurd rfl (hnode entries)
        | file => simp [walkStart, hleads'.status_eq hat, bind, Except.bind]
        | link => simp [walkStart, hleads'.status_eq hat, hleads.status_eq hat, bind, Except.bind]
      · refine ⟨.link target, ?_, by simp⟩
        cases node with
        | folder entries => exact absurd rfl (hnode entries)
        | file =>
          simp [walkStart, hleads'.status_eq htarget, hleads.status_eq hat, bind, Except.bind]
        | link =>
          simp [walkStart, hleads'.status_eq htarget, hleads.status_eq hat, bind, Except.bind]
    obtain ⟨start, hstart, hother⟩ := hstart
    cases start with
    | folder entries => exact absurd rfl (hother entries)
    | file mode content => rw [enumerate_eq hstart (.file mode content)]; rfl
    | link target => rw [enumerate_eq hstart (.link target)]; rfl
  next => rfl

/-- A walk that starts at a folder shows what is below it. -/
theorem scanned_eq (hsound : d.top.Sound) (h : d.folderAt? p = some (place, entries)) :
    d.scanned p = ((Node.inside isHiddenName isBundleName (.folder entries)).filter
      (Node.isListed p)).flatMap fun e => Item.allOf (p.descend e.1) e.2 := by
  obtain ⟨⟨seen, hleads⟩, hat⟩ := folderAt?_eq_some_iff.mp h
  rw [scanned, if_pos (isPresent_iff.mpr ⟨seen, place, hleads⟩)]
  exact enumerate_eq (walkStart_eq (hleads.status_eq hat)) (hsound.at? hat)

/-- The bytes of a directory in a scan are those of the files that are shown, as far as paths reach
them. -/
theorem bytes_scanned (hsound : d.top.Sound) (p : Path) :
    ((d.scanned p).map itemBytes).sum = d.inFolder Node.shownBytes p := by
  cases h : d.folderAt? p with
  | none => rw [scanned_eq_nil h, inFolder_eq_zero _ h]; rfl
  | some found =>
    obtain ⟨place, entries⟩ := found
    obtain ⟨⟨seen, hleads⟩, hat⟩ := folderAt?_eq_some_iff.mp h
    have hfolder : Node.Sound (.folder entries) := hsound.at? hat
    rw [inFolder_eq _ h, Node.shownBytes, Node.bytesOfFiles_inside_within hfolder, sum_itemBytes,
      scanned, if_pos (isPresent_iff.mpr ⟨seen, place, hleads⟩)]
    exact sum_size_enumerate hfolder (walkStart_eq (hleads.status_eq hat))

end Disk

end Reclaim
