import Reclaim.App.Inventory
import Reclaim.App.Residual
import Reclaim.Label

/-!
# Uninstalling applications

An application goes with what it left behind: first the leftovers, then the bundle, one at a time.
Only the inventory's own record of the application counts, and only while its bundle exists.

## Main definitions

* `RemovalPlan`, `RemovalPlan.of` : what would go.
* `Trash` : a way to delete that can be undone.
* `Remover.run` : an application goes.
-/

namespace Reclaim

/-- A path that is to go. -/
structure RemovalTarget where
  path : Path
  /-- What was left behind there; `none` for the bundle. -/
  kind : Option ResidualKind
  sizeBytes : Nat
  deriving DecidableEq, Repr

/-- Everything that goes with an application, the bundle last. -/
structure RemovalPlan where
  appName : String
  identifier : Option String
  targets : List RemovalTarget
  deriving DecidableEq, Repr

namespace RemovalPlan

/-- The bytes of all targets. -/
def totalBytes (p : RemovalPlan) : Nat :=
  Bytes.sum (p.targets.map RemovalTarget.sizeBytes)

/-- What goes with an application whose leftovers are in a library. -/
def of (library : Path) (app : AppRecord) (d : Disk) (read : Plist.Reader := Plist.read?) :
    RemovalPlan :=
  let identifier := Bundle.identifier? app.path d read
  let residuals := match identifier with
    | some identifier => Residual.existing library identifier d
    | none => []
  { appName := app.name
    identifier
    targets := (residuals.map fun r => ⟨r.path, some r.kind, d.entrySize r.path⟩) ++
      [⟨app.path, none, app.sizeBytes.getD (d.folderSize app.path)⟩] }

end RemovalPlan

/-- What an uninstall did. -/
structure Uninstall where
  appName : String
  identifier : Option String
  trashed : List Path := []
  bytesFreed : Nat := 0
  errors : List String := []
  /-- The bundle itself is gone. -/
  bundleRemoved : Bool := false
  deriving DecidableEq, Repr

/-- A way to delete an entry that can be undone. -/
abbrev Trash := Path → Disk → Except AppError Disk

/-- The rule by which applications are uninstalled. -/
structure Remover where
  /-- Where leftovers are looked for. -/
  library : Path
  trash : Trash

/-- What an uninstall works on. -/
structure Removing where
  disk : Disk
  inventory : Inventory
  signals : Signals
  /-- The items handed to the trash, with what was published then. -/
  handed : List (Path × Signals) := []
  /-- Plans are made by a task of their own.  If it is lost, this is why. -/
  lostPlan : Option String := none

namespace Remover

/-- The library of the user. -/
def libraryOf (home : Option Path) : Path :=
  (home.getD ⟨""⟩).child "Library"

/-- The inventory's own record of an application whose bundle exists. -/
def verified (app : AppRecord) (s : Removing) : Except AppError AppRecord :=
  match s.inventory.get? app.id with
  | none => .error (.notFound app.name app.path)
  | some record =>
    if s.disk.hasEntry record.path then .ok record
    else .error (.notFound record.name record.path)

/-- What would go with an application. -/
def plan (e : Remover) (app : AppRecord) (s : Removing) (read : Plist.Reader := Plist.read?) :
    Except AppError RemovalPlan := do
  let record ← verified app s
  match s.lostPlan with
  | some text => .error (.other ("planning removal failed: " ++ text))
  | none => .ok (RemovalPlan.of e.library record s.disk read)

/-- One item goes; a failure is kept and does not stop the others. -/
def step (home : Option Path) (e : Remover) : Uninstall × Removing → RemovalTarget →
    Uninstall × Removing
  | (report, s), target =>
    let signals := s.signals.log ("Removing " ++ target.path.shown home ++ "...")
    let s := { s with signals, handed := s.handed ++ [(target.path, signals)] }
    match e.trash target.path s.disk with
    | .ok disk =>
      ({ report with
          trashed := report.trashed ++ [target.path]
          bytesFreed := Bytes.add report.bytesFreed target.sizeBytes
          bundleRemoved := report.bundleRemoved || target.kind.isNone },
        { s with disk })
    | .error error => ({ report with errors := report.errors ++ [error.message] }, s)

/-- The application leaves the inventory if its bundle is gone.  If the inventory does not take that
any more, nothing else is done. -/
def finish (record : AppRecord) (report : Uninstall) (s : Removing) : Except AppError Removing :=
  if report.bundleRemoved then do
    let (_, inventory) ← s.inventory.withdraw record.id
    let signals := s.signals.log ("Uninstalled " ++ record.name)
    .ok { s with inventory, signals := signals.setBusy false }
  else
    let signals := s.signals.log ("Failed to remove " ++ record.name)
    .ok { s with signals := signals.setBusy false }

/-- An application goes with what it left behind. -/
def run (home : Option Path) (e : Remover) (app : AppRecord) (s : Removing)
    (read : Plist.Reader := Plist.read?) : Except AppError Uninstall × Removing :=
  match verified app s with
  | .error error => (.error error, s)
  | .ok record =>
    let signals := (s.signals.setBusy true).log ("Analyzing " ++ record.name ++ "...")
    let s := { s with signals }
    match plan e record s read with
    | .error error => (.error error, { s with signals := s.signals.setBusy false })
    | .ok plan =>
      let report : Uninstall := { appName := record.name, identifier := plan.identifier }
      let (report, s) := plan.targets.foldl (step home e) (report, s)
      match finish record report s with
      | .ok s => (.ok report, s)
      | .error error => (.error error, s)

end Remover

end Reclaim
