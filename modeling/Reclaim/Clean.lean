import Reclaim.Authority.Elevator
import Reclaim.Catalog
import Reclaim.Walk

/-!
# Deleting what can be reclaimed

The children of the user's directories are deleted one by one and the directories themselves are
kept.  The directories of the system are emptied by one command with administrator rights.

## Main definitions

* `Sweep`, `Sweep.run` : the children of one directory.
* `SystemPhase`, `Cleaning` : what became of the system part, and of all.
* `Cleaner.runOn`, `Cleaner.run` : everything in a catalog.
-/

namespace Reclaim

/-- What has been deleted: bytes, entries, and entries that could not be deleted. -/
structure Sweep where
  bytes : Nat := 0
  removed : Nat := 0
  failed : Nat := 0
  deriving DecidableEq, Repr

namespace Sweep

/-- Two sweeps taken together. -/
def add (a b : Sweep) : Sweep :=
  ⟨Bytes.add a.bytes b.bytes, a.removed + b.removed, a.failed + b.failed⟩

/-- The call that deletes an entry met in a listing: a folder goes with all below it. -/
def delete (d : Disk) (child : Path) (node : Node) : Except FileError Disk :=
  if node.isFolder then d.removeTree child else d.unlink child

/-- One entry of a directory's listing is deleted, unless it is protected. -/
def step (home : Option Path) (root : Path) : Sweep × Disk → String × Node → Sweep × Disk
  | (sweep, d), (name, node) =>
    let child := root.child name
    if Safety.isProtected home child || !Safety.isDirectChild child root then
      ({ sweep with failed := sweep.failed + 1 }, d)
    else
      let size := d.entrySize child
      match delete d child node with
      | .ok d =>
        ({ sweep with bytes := Bytes.add sweep.bytes size, removed := sweep.removed + 1 }, d)
      | .error _ => ({ sweep with failed := sweep.failed + 1 }, d)

/-- The children of a directory are deleted, the directory is kept.  Nothing happens to one that
may not be emptied or cannot be listed. -/
def run (home : Option Path) (root : Path) (d : Disk) : Sweep × Disk :=
  if Safety.isUserRoot home root then
    match d.list root with
    | .ok entries => entries.foldl (step home root) ({}, d)
    | .error _ => ({}, d)
  else ({}, d)

end Sweep

/-- What became of the system part. -/
inductive SystemPhase where
  /-- There is nothing to empty. -/
  | notNeeded
  | cleaned
  /-- It waits for a secret. -/
  | needsAuthorization
  /-- The secret failed and is forgotten. -/
  | credentialRejected
  /-- The command could not be run. -/
  | failed (text : String)
  deriving DecidableEq, Repr

/-- What a clean did. -/
structure Cleaning where
  user : Sweep
  system : SystemPhase
  systemBytes : Nat
  deriving DecidableEq, Repr

namespace Cleaning

/-- The bytes freed in both parts. -/
def freedBytes (c : Cleaning) : Nat :=
  Bytes.add c.user.bytes c.systemBytes

/-- The system part waits for a secret. -/
def needsAuthorization (c : Cleaning) : Bool :=
  c.system == .needsAuthorization || c.system == .credentialRejected

end Cleaning

/-- A catalog to be emptied with the rule for administrator rights. -/
structure Cleaner where
  catalog : Catalog
  elevator : Elevator

namespace Cleaner

/-- One directory of the user: nothing if it does not exist. -/
def visit (home : Option Path) : Sweep × Station → ReclaimRoot → Sweep × Station
  | (total, s), root =>
    if s.disk.isPresent root.path then
      let s := s.log ("Cleaning " ++ root.label ++ "...")
      let (sweep, d) := Sweep.run home root.path s.disk
      (total.add sweep, s.withDisk d)
    else (total, s)

/-- All directories of the user, one after the other. -/
def runUser (home : Option Path) (c : Cleaner) (s : Station) : Sweep × Station :=
  c.catalog.user.foldl (visit home) ({}, s)

/-- The bytes of the system directories that the command would empty. -/
def pendingBytes (roots : List String) (d : Disk) : Nat :=
  Bytes.sum (roots.map fun root => d.folderSize ⟨root⟩)

/-- The directories of the system, emptied by one command.  `present` tells which exist. -/
def runSystem (present : Path → Bool) (c : Cleaner) (s : Station) :
    (SystemPhase × Nat) × Station :=
  match c.catalog.systemCommand? present with
  | none => ((.notNeeded, 0), s)
  | some command =>
    let s := s.log "Authorizing System Cleanup..."
    let pending := pendingBytes (c.catalog.eligibleRoots present) s.disk
    match c.elevator.run command s with
    | (.ok _, s) => ((.cleaned, pending), s)
    | (.error .authorizationRequired, s) =>
      ((.needsAuthorization, 0), s.log "Requires Authorization")
    | (.error (.rejected _), s) => ((.credentialRejected, 0), s.log "Password Incorrect/Expired")
    | (.error (.failed e), s) =>
      let line := if e.isCancelled then "Cleanup Cancelled by User" else "Error: " ++ e.message
      ((.failed e.message, 0), s.log line)

/-- Everything in the catalog, the user's part first.  `present` tells of a disk which directories
of the system exist; it is asked when the user's part is done. -/
def runOn (home : Option Path) (present : Disk → Path → Bool) (c : Cleaner) (s : Station) :
    Cleaning × Station :=
  let (user, s) := c.runUser home (s.setBusy true)
  let ((system, systemBytes), s) := c.runSystem (present s.disk) s
  let finished := system == .notNeeded || system == .cleaned
  let s := if finished then (s.setBytes 0).log "Cleaned" else s
  (⟨user, system, systemBytes⟩, s.setBusy false)

/-- Everything in the catalog, where it is known beforehand which directories of the system
exist. -/
def run (home : Option Path) (present : Path → Bool) (c : Cleaner) (s : Station) :
    Cleaning × Station :=
  c.runOn home (fun _ => present) s

end Cleaner

end Reclaim
