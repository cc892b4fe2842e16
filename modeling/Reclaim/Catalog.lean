import Reclaim.Json
import Reclaim.Safety

/-!
# The catalog of reclaimable directories

A catalog lists directories whose contents may be deleted, those of the user in front of those
of the system.  Only directories that pass the checks of `Reclaim.Safety` are taken up, each
at most once.

## Main definitions

* `Catalog.standard`, `Catalog.forUser` : the directories every user has, and those with extras.
* `Catalog.push` : takes up one directory if it is safe and new.
* `Catalog.eligibleRoots`, `Catalog.systemCommand?` : what of the system part is to be emptied,
  and the one command that does it.
-/

namespace Reclaim

/-- Who owns a reclaimable directory: the user, or the system, where deleting needs an
administrator. -/
inductive Tier where
  | user
  | system
  deriving DecidableEq, Repr

/-- The word for a tier in printed lists. -/
def Tier.title : Tier → String
  | .user => "User"
  | .system => "System"

/-- The word for a tier in data. -/
def Tier.key : Tier → String
  | .user => "user"
  | .system => "system"

/-- The tier with the given word in data. -/
def Tier.ofKey? (key : String) : Option Tier :=
  if key = "user" then some .user else if key = "system" then some .system else none

/-- The tier in data: its word, alone or as the key of nothing. -/
def Tier.ofJson? : Json → Option Tier
  | .text key => ofKey? key
  | .object [(key, .null)] => ofKey? key
  | _ => none

/-- A directory whose contents may be deleted. -/
structure ReclaimRoot where
  path : Path
  tier : Tier
  deriving DecidableEq, Repr

namespace ReclaimRoot

/-- The same directory in the same tier, whatever the spelling. -/
def same (a b : ReclaimRoot) : Bool :=
  a.path.same b.path && a.tier == b.tier

/-- The name shown for a directory: its last component, or all of it if that is no name. -/
def label (r : ReclaimRoot) : String :=
  r.path.fileName?.getD r.path.text

/-- A directory as data. -/
def json (r : ReclaimRoot) : Json :=
  .object [("path", .path r.path), ("tier", .text r.tier.key)]

/-- The directory of data: by key, or as a pair. -/
def ofJson? (value : Json) : Option ReclaimRoot :=
  match value with
  | .array [.text path, tier] => (Tier.ofJson? tier).map (⟨⟨path⟩, ·⟩)
  | _ =>
    match value.get? "path", value.get? "tier" with
    | some (.text path), some tier => (Tier.ofJson? tier).map (⟨⟨path⟩, ·⟩)
    | _, _ => none

end ReclaimRoot

/-- Reclaimable directories: the user's first, then the system's. -/
structure Catalog where
  user : List ReclaimRoot := []
  system : List ReclaimRoot := []
  deriving DecidableEq, Repr

namespace Catalog

/-- The reclaimable directories below the user's library. -/
def libraryPaths : List String :=
  ["Caches", "Logs", "Developer/Xcode/DerivedData", "Developer/Xcode/Archives",
    "Developer/Xcode/iOS DeviceSupport", "Developer/CoreSimulator/Caches"]

/-- The directories that every user has, with the two of the system. -/
def standard (home : Path) : Catalog where
  user := libraryPaths.map fun rel => ⟨(home.child "Library").child rel, .user⟩
  system := Safety.systemRoots.map fun root => ⟨⟨root⟩, .system⟩

/-- The directory passes the check of its tier. -/
def accepts (home : Option Path) (root : ReclaimRoot) : Bool :=
  match root.tier with
  | .user => Safety.isUserRoot home root.path
  | .system => Safety.isSystemRoot root.path

/-- The list with one more directory at its end, unless it is there already. -/
def addNew (roots : List ReclaimRoot) (root : ReclaimRoot) : List ReclaimRoot :=
  if roots.any (·.same root) then roots else roots ++ [root]

/-- Takes up a directory unless it is unsafe or known. -/
def push (home : Option Path) (c : Catalog) (root : ReclaimRoot) : Catalog :=
  if accepts home root then
    match root.tier with
    | .user => { c with user := addNew c.user root }
    | .system => { c with system := addNew c.system root }
  else c

/-- The catalog of the given directories, as far as they are safe. -/
def ofRoots (home : Option Path) (roots : List ReclaimRoot) : Catalog :=
  roots.foldl (push home) {}

/-- An extra directory with its leading `~` read as the home directory. -/
def expandHome (home : Path) (extra : Path) : Path :=
  match extra.stripPrefix? ⟨"~"⟩ with
  | some rest => home.join rest
  | none => extra

/-- The standard catalog of the current user with the configured extras. -/
def forUser (home : Option Path) (extras : List Path) : Catalog :=
  let top := home.getD ⟨""⟩
  extras.foldl (fun c extra => push home c ⟨expandHome top extra, .user⟩) (standard top)

/-- Every directory in the order of a scan. -/
def toList (c : Catalog) : List ReclaimRoot :=
  c.user ++ c.system

/-! ### The system part -/

/-- The system directories that are in the catalog and exist. -/
def eligibleRoots (c : Catalog) (present : Path → Bool) : List String :=
  Safety.systemRoots.filter fun root =>
    (c.system.any fun entry => entry.path.same ⟨root⟩) && present ⟨root⟩

/-- The clause that empties one system directory. -/
def clause (root : String) : String :=
  "rm -rf \"" ++ root ++ "\"/*"

/-- The one command that empties the system part, if there is anything to empty.  The catalog only
selects clauses; none of its texts becomes part of the command. -/
def systemCommand? (c : Catalog) (present : Path → Bool) : Option String :=
  match c.eligibleRoots present with
  | [] => none
  | roots => some (String.intercalate "; " (roots.map clause))

end Catalog

end Reclaim
