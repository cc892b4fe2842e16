import Reclaim.Bytes
import Reclaim.Disk.Basic

/-!
# Walking a directory

Two walks count what a directory holds.  The one that looks for reclaimable entries leaves out
hidden entries with all below them and does not enter bundles, folders that are shown as one item.
The one that measures a directory counts all its files.  Neither follows a link, except the
starting path itself.

Both are walks that go from entry to entry.  A walk keeps the folders that it is listing, and a
folder is left at once by forgetting what is still to come of it.

An entry is known from the listing of its folder.  Measuring a file and listing a folder take its
whole path, which may be too long for that.  Then the walk tells an error and goes on.

## Main definitions

* `Walker`, `Walker.next`, `Walker.leave` : a walk under way and its steps.
* `Walker.nextFound` : the next item of a walk for reclaimable entries.
* `Disk.enumerate` : the reclaimable entries below a path, with what could not be read.
* `Disk.folderSize`, `Disk.entrySize` : the bytes below a path, and those of one entry.
-/

namespace Reclaim

/-- The endings of folders that are shown as one item. -/
def bundleExtensions : List String :=
  ["app", "framework", "bundle", "plugin", "kext", "xpc", "appex", "prefPane", "qlgenerator",
    "mdimporter", "photoslibrary"]

/-- The path has the ending of a bundle, in capitals or not. -/
def Path.isBundle (p : Path) : Bool :=
  match p.extension? with
  | some ext => bundleExtensions.any fun known =>
      known.toList.map Char.toLower == ext.toList.map Char.toLower
  | none => false

/-- The name of an entry that is not shown. -/
def isHiddenName (name : String) : Bool :=
  name.toList.head? == some '.'

/-- An entry met on a walk. -/
structure Found where
  path : Path
  /-- The length of a regular file, `none` for anything else. -/
  size : Option Nat
  deriving DecidableEq, Repr

/-- A path that a walk could not read. -/
structure WalkError where
  path : Path
  error : FileError
  deriving DecidableEq, Repr

/-- The text of a path that could not be read. -/
def WalkError.message (e : WalkError) : String :=
  "IO error for operation on " ++ e.path.text ++ ": " ++ e.error.message

/-- What a walk tells in place of an entry. -/
inductive ItemError where
  /-- The starting path could not be read, or a folder not be listed. -/
  | unlisted (e : WalkError)
  /-- A file could not be measured. -/
  | unmeasured (e : WalkError)
  deriving DecidableEq, Repr

/-- The text of an item that is an error. -/
def ItemError.message : ItemError → String
  | .unlisted e => e.message
  | .unmeasured e => "cannot stat '" ++ e.path.text ++ "': " ++ e.message

/-- What a walk tells: an entry, or an error in place of one. -/
abbrev Item : Type :=
  Except ItemError Found

/-- The path is too long for a call that takes it. -/
def Path.isTooLong (p : Path) : Bool :=
  Disk.pathLimit ≤ p.text.utf8ByteSize

/-- The error of a call that takes the path though it is too long. -/
def WalkError.tooLong (p : Path) : WalkError :=
  ⟨p, .system .longName⟩

/-- The length of the file at a path, for which the path is taken. -/
def Node.lengthAt (node : Node) (p : Path) : Except WalkError Nat :=
  if p.isTooLong then .error (.tooLong p) else .ok node.length

/-- What is told of the entry at a path: the path, and its length if it is a file. -/
def Item.ofEntry (p : Path) (node : Node) : Item :=
  if node.isFile then
    match node.lengthAt p with
    | .ok length => .ok ⟨p, some length⟩
    | .error e => .error (.unmeasured e)
  else .ok ⟨p, none⟩

/-! ### Going from entry to entry -/

/-- An entry met on a walk, with the number of steps down that lead to it from the start. -/
structure Met where
  path : Path
  node : Node
  depth : Nat

namespace Met

/-- The name under which an entry is met; that of a start without one is its whole text. -/
def name (met : Met) : String :=
  met.path.fileName?.getD met.path.text

/-- The start of a walk is always shown, any other entry unless its name hides it. -/
def isShown (met : Met) : Bool :=
  met.depth == 0 || !isHiddenName met.name

/-- The folder is shown as one item. -/
def isBundle (met : Met) : Bool :=
  met.node.isFolder && met.path.isBundle

end Met

/-- A folder that is being listed. -/
inductive Listing where
  /-- The entries that are still to come. -/
  | entries (path : Path) (rest : List (String × Node))
  /-- The folder cannot be listed, which is still to be told. -/
  | refused (e : WalkError)

/-- The listing of a folder when it begins. -/
def Listing.ofFolder (path : Path) (entries : List (String × Node)) : Listing :=
  if path.isTooLong then .refused (.tooLong path) else .entries path entries

/-- A walk under way.  It goes to its start and then on through the folders that are being listed,
the innermost one first. -/
structure Walker where
  /-- The start, as long as it has not been met. -/
  start : Option (Path × Node)
  listings : List Listing := []

namespace Walker

/-- The listings with that of an entry in front, if it is a folder. -/
def enter (path : Path) (node : Node) (listings : List Listing) : List Listing :=
  match node with
  | .folder entries => .ofFolder path entries :: listings
  | _ => listings

/-- The next entry of the innermost listing that has one, or why it is refused.  Listings without
any entries are over. -/
def nextListed : List Listing → Option (Except WalkError Met × List Listing)
  | [] => none
  | .refused e :: listings => some (.error e, listings)
  | .entries _ [] :: listings => nextListed listings
  | .entries path ((name, node) :: rest) :: listings =>
    let here := path.child name
    some (.ok ⟨here, node, listings.length + 1⟩, enter here node (.entries path rest :: listings))

/-- The next entry of a walk, or a folder that cannot be listed.  A folder is met in front of its
entries, which come next. -/
def next (w : Walker) : Option (Except WalkError Met × Walker) :=
  match w.start with
  | some (path, node) => some (.ok ⟨path, node, 0⟩, ⟨none, enter path node w.listings⟩)
  | none => (nextListed w.listings).map fun (met, listings) => (met, ⟨none, listings⟩)

/-- The innermost folder is left, whatever is still to come of it. -/
def leave (w : Walker) : Walker :=
  { w with listings := w.listings.tail }

/-! ### Every walk ends -/

/-- A bound on the steps through some listings: two for an entry, which may be a folder that is
refused after it has been met. -/
def countListed : List Listing → Nat
  | [] => 0
  | .refused _ :: listings => 1 + countListed listings
  | .entries _ rest :: listings => 2 * Node.countEntries rest + countListed listings

/-- A bound on the steps that are still to come. -/
def remaining (w : Walker) : Nat :=
  (w.start.elim 0 fun (_, node) => 2 * (node.entryCount + 1)) + countListed w.listings

theorem countListed_enter (path : Path) (node : Node) (listings : List Listing) :
    countListed (enter path node listings) < 2 * (node.entryCount + 1) + countListed listings := by
  cases node with
  | folder entries =>
    rw [enter, Listing.ofFolder]
    split <;> simp only [countListed, Node.entryCount] <;> omega
  | file => simp [enter]
  | link => simp [enter]

theorem countListed_nextListed {listings listings' : List Listing} {met : Except WalkError Met}
    (h : nextListed listings = some (met, listings')) :
    countListed listings' < countListed listings := by
  fun_induction nextListed listings with
  | case1 => cases h
  | case2 e listings =>
    cases h
    simp [countListed]
  | case3 path listings ih => simpa [countListed, Node.countEntries] using ih h
  | case4 path name node rest listings here =>
    cases h
    have henter := countListed_enter here node (.entries path rest :: listings)
    simp only [countListed, Node.countEntries] at henter ⊢
    omega

/-- With every step less is to come. -/
theorem remaining_next {w w' : Walker} {met : Except WalkError Met}
    (h : w.next = some (met, w')) : w'.remaining < w.remaining := by
  obtain ⟨start, listings⟩ := w
  cases start with
  | some start =>
    cases h
    simpa [remaining] using countListed_enter start.1 start.2 listings
  | none =>
    obtain ⟨⟨met', listings'⟩, hnext, heq⟩ := Option.map_eq_some_iff.mp h
    cases heq
    simpa [remaining] using countListed_nextListed hnext

theorem remaining_leave (w : Walker) : w.leave.remaining ≤ w.remaining := by
  obtain ⟨start, listings⟩ := w
  cases listings with
  | nil => exact Nat.le_refl _
  | cons listing listings => cases listing <;> simp [leave, remaining, countListed]

/-! ### Entries of one kind -/

/-- The next entry that is shown, or a folder that cannot be listed.  An entry that is not shown is
passed over with all below it. -/
def nextShown (w : Walker) : Option (Except WalkError Met × Walker) :=
  match _ : w.next with
  | none => none
  | some (.error e, w') => some (.error e, w')
  | some (.ok met, w') =>
    if met.isShown then some (.ok met, w')
    else nextShown (if met.node.isFolder then w'.leave else w')
termination_by w.remaining
decreasing_by
  have hless := remaining_next ‹_›
  have hleave := w'.remaining_leave
  split <;> omega

theorem remaining_nextShown {w w' : Walker} {met : Except WalkError Met}
    (h : w.nextShown = some (met, w')) : w'.remaining < w.remaining := by
  fun_induction nextShown w with
  | case1 => cases h
  | case2 w e w'' hnext =>
    cases h
    exact remaining_next hnext
  | case3 w met w'' hnext hshown =>
    cases h
    exact remaining_next hnext
  | case4 w met w'' hnext hhidden ih =>
    have hless := remaining_next hnext
    have hleave := w''.remaining_leave
    have hrest := ih h
    split at hrest <;> omega

/-- The next item of a walk for reclaimable entries.  The start is none, and a bundle is left as
soon as it is met. -/
def nextFound (w : Walker) : Option (Item × Walker) :=
  match _ : w.nextShown with
  | none => none
  | some (.error e, w') => some (.error (.unlisted e), w')
  | some (.ok met, w') =>
    if met.depth = 0 then nextFound w'
    else some (.ofEntry met.path met.node, if met.isBundle then w'.leave else w')
termination_by w.remaining
decreasing_by exact remaining_nextShown ‹_›

theorem remaining_nextFound {w w' : Walker} {item : Item}
    (h : w.nextFound = some (item, w')) : w'.remaining < w.remaining := by
  fun_induction nextFound w with
  | case1 => cases h
  | case2 w e w'' hnext =>
    cases h
    exact remaining_nextShown hnext
  | case3 w met w'' hnext hstart ih =>
    have hless := remaining_nextShown hnext
    have hrest := ih h
    omega
  | case4 w met w'' hnext hbelow =>
    cases h
    have hless := remaining_nextShown hnext
    have hleave := w''.remaining_leave
    split <;> omega

/-- All items of a walk for reclaimable entries in their order. -/
def allFound (w : Walker) : List Item :=
  match _ : w.nextFound with
  | none => []
  | some (item, w') => item :: allFound w'
termination_by w.remaining
decreasing_by exact remaining_nextFound ‹_›

/-- All entries of a walk in the order in which they are met, and the folders that cannot be
listed. -/
def allMet (w : Walker) : List (Except WalkError Met) :=
  match _ : w.next with
  | none => []
  | some (met, w') => met :: allMet w'
termination_by w.remaining
decreasing_by exact remaining_next ‹_›

end Walker

namespace Disk

/-- The entry at which a walk starts; a link there is followed if it leads to a folder. -/
def walkStart (d : Disk) (root : Path) : Except FileError Node := do
  match ← d.status false root with
  | .link target =>
    match ← d.status true root with
    | .folder entries => .ok (.folder entries)
    | _ => .ok (.link target)
  | node => .ok node

/-- Everything reclaimable below a path with what could not be read, or the one error of a walk that
could not start. -/
def enumerate (d : Disk) (root : Path) : List Item :=
  match d.walkStart root with
  | .ok node => (Walker.mk (some (root, node)) []).allFound
  | .error e => [.error (.unlisted ⟨root, e⟩)]

/-- The bytes of all files below a path, those in hidden places and in bundles included.  What
cannot be read has none. -/
def folderSize (d : Disk) (root : Path) : Nat :=
  match d.walkStart root with
  | .ok node =>
    let met := (Walker.mk (some (root, node)) []).allMet.filterMap Except.toOption
    let files := met.filter fun met => met.node.isFile
    Bytes.sum (files.map fun met => (met.node.lengthAt met.path).toOption.getD 0)
  | .error _ => 0

/-- The bytes of one entry: all files below a folder, the content of a file, the text of a
link. -/
def entrySize (d : Disk) (p : Path) : Nat :=
  match d.status false p with
  | .ok node => if node.isFolder then d.folderSize p else node.length
  | .error _ => 0

end Disk

end Reclaim
