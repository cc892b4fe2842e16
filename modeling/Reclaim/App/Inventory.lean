import Reclaim.Amount
import Reclaim.App.Bundle
import Reclaim.App.Error
import Reclaim.Signals
import Reclaim.Text.Lowercase
import Reclaim.Walk

/-!
# Installed applications

The inventory lists the bundles of a directory once.  Its list has one owner, who takes commands
one after the other and publishes the list after each that changes it.  Whoever looks at the list
sees what was published last.  Icons and sizes are filled in after the list is published.

## Main definitions

* `AppRecord` : an installed application.
* `AppCommand`, `AppReply`, `AppOwner.receive` : the owner of the list and what is asked of it.
* `AppRecord.listFolder` : the bundles of a directory.
* `Inventory` : the directory with its list.
* `Inventory.scan`, `Inventory.withdraw` : the list is filled, and an application goes from it.
* `Inventory.pick` : the application that a text means.
-/

namespace Reclaim

/-- The identity of a listed application. -/
structure AppId where
  number : Nat
  deriving DecidableEq, Repr

/-- The identity as text: 32 digits in five groups. -/
def AppId.text (id : AppId) : String :=
  let digits := Nat.toDigits 16 id.number
  let all := List.replicate (32 - digits.length) '0' ++ digits
  let group (start count : Nat) : String := String.ofList ((all.drop start).take count)
  String.intercalate "-" [group 0 8, group 8 4, group 12 4, group 16 4, group 20 12]

/-- An installed application. -/
structure AppRecord where
  id : AppId
  name : String
  path : Path
  icon : Option Path := none
  /-- The size in words, empty until it is known. -/
  size : String := ""
  sizeBytes : Option Nat := none
  deriving DecidableEq, Repr

namespace AppRecord

/-- The application of a bundle, named as the bundle without its ending. -/
def ofBundle? (id : AppId) (path : Path) : Option AppRecord :=
  path.stem?.map fun name => { id, name, path }

/-- The entry of a directory is the bundle of an application that is shown. -/
def isListed (path : Path) : Bool :=
  (match path.fileName? with
    | some name => !isHiddenName name
    | none => false) && path.extension? == some "app"

/-- The applications of bundles, numbered from `first` on. -/
def ofBundles (first : Nat) : List Path → List AppRecord
  | [] => []
  | path :: paths =>
    match ofBundle? ⟨first⟩ path with
    | some record => record :: ofBundles (first + 1) paths
    | none => ofBundles first paths

/-- The order of a list: by name, capitals aside. -/
def sortsBefore (a b : AppRecord) : Bool :=
  !(Text.lower b.name < Text.lower a.name)

/-- The applications directly inside a directory, by name, numbered from `first` on. -/
def listFolder (first : Nat) (dir : Path) (d : Disk) : Except AppError (List AppRecord) :=
  match d.list dir with
  | .error e => .error (.io dir e)
  | .ok entries =>
    let paths := (entries.map fun (name, _) => dir.child name).filter isListed
    .ok ((ofBundles first paths).mergeSort sortsBefore)

end AppRecord

/-! ### The owner of the list -/

/-- What is asked of the owner of the list. -/
inductive AppCommand where
  /-- The first list. -/
  | populate (records : List AppRecord)
  /-- Icon and size of one application. -/
  | fill (id : AppId) (icon : Option Path) (sizeBytes : Option Nat)
  /-- One application goes. -/
  | remove (id : AppId)
  /-- Everything asked before is to be done. -/
  | barrier
  deriving DecidableEq, Repr

/-- The answer to a command. -/
inductive AppReply where
  /-- The first list was taken, or there was one already. -/
  | populated (applied : Bool)
  | filled
  /-- The application that is gone, if it was listed. -/
  | removed (record : Option AppRecord)
  | settled
  deriving DecidableEq, Repr

namespace AppList

/-- An application with its icon and size. -/
def fillRecord (icon : Option Path) (sizeBytes : Option Nat) (r : AppRecord) : AppRecord :=
  { r with icon, sizeBytes, size := (sizeBytes.map Amount.size).getD "Unknown" }

/-- The first record with the identity is changed. -/
def updateFirst (id : AppId) (change : AppRecord → AppRecord) : List AppRecord → List AppRecord
  | [] => []
  | r :: records => if r.id = id then change r :: records else r :: updateFirst id change records

/-- The application with the identity. -/
def find? (id : AppId) (records : List AppRecord) : Option AppRecord :=
  records.find? fun r => r.id == id

end AppList

/-- The owner of the list, with what is published of it. -/
structure AppOwner where
  records : List AppRecord := []
  published : Published (List AppRecord) := ⟨[], 0⟩

namespace AppOwner

/-- The list changes and is published. -/
def publish (owner : AppOwner) (records : List AppRecord) : AppOwner :=
  ⟨records, owner.published.send records⟩

/-- A command is carried out. -/
def receive (owner : AppOwner) : AppCommand → AppReply × AppOwner
  | .populate fresh =>
    if owner.records.isEmpty then (.populated true, owner.publish fresh)
    else (.populated false, owner)
  | .fill id icon sizeBytes =>
    match AppList.find? id owner.records with
    | some _ =>
      (.filled, owner.publish
        (AppList.updateFirst id (AppList.fillRecord icon sizeBytes) owner.records))
    | none => (.filled, owner)
  | .remove id =>
    match AppList.find? id owner.records with
    | some r => (.removed (some r), owner.publish (owner.records.eraseP fun r => r.id == id))
    | none => (.removed none, owner)
  | .barrier => (.settled, owner)

/-- Commands are carried out one after the other. -/
def receiveAll (owner : AppOwner) (commands : List AppCommand) : AppOwner :=
  commands.foldl (fun owner command => (owner.receive command).2) owner

end AppOwner

/-! ### The inventory -/

/-- The applications of a directory. -/
structure Inventory where
  dir : Path
  owner : AppOwner := {}
  /-- The number of the next identity. -/
  nextId : Nat := 1
  /-- The owner still takes commands; what it has published can be seen when it does not. -/
  running : Bool := true

namespace Inventory

/-- The list as it is seen. -/
def apps (v : Inventory) : Published (List AppRecord) :=
  v.owner.published

/-- The listed application with an identity. -/
def get? (v : Inventory) (id : AppId) : Option AppRecord :=
  AppList.find? id v.apps.value

/-- The listed applications whose name contains a text, capitals aside. -/
def findByName (v : Inventory) (name : String) : List AppRecord :=
  v.apps.value.filter fun r => Text.occursIn (Text.lower name) (Text.lower r.name)

/-- Why a text means none of the applications. -/
inductive Unpicked where
  /-- No name contains it. -/
  | unknown
  /-- Several names contain it, and none is equal to it. -/
  | ambiguous (apps : List AppRecord)
  deriving DecidableEq, Repr

/-- The one application that a text means.  Of several whose names contain it, the first with
exactly that name is meant, capitals aside. -/
def pick (v : Inventory) (name : String) : Except Unpicked AppRecord :=
  let found := v.findByName name
  match found.find? fun app => Text.sameAscii app.name name with
  | some app => .ok app
  | none =>
    match found with
    | [] => .error .unknown
    | [app] => .ok app
    | _ => .error (.ambiguous found)

/-- The owner carries out a command, unless it has stopped. -/
def send (v : Inventory) (command : AppCommand) : Except AppError (AppReply × Inventory) :=
  if v.running then
    let (reply, owner) := v.owner.receive command
    .ok (reply, { v with owner })
  else .error (.other "app inventory is no longer running")

/-- The command that fills in what is measured of an application. -/
def measure (d : Disk) (r : AppRecord) : AppCommand :=
  .fill r.id (Bundle.icon? r.path d) (some (d.folderSize r.path))

/-- The directory is listed and its applications are measured, unless that has been done.  The
number of listed applications is given. -/
def scan (v : Inventory) (d : Disk) : Except AppError Nat × Inventory :=
  if v.apps.value.isEmpty then
    match AppRecord.listFolder v.nextId v.dir d with
    | .error e => (.error e, v)
    | .ok records =>
      match v.send (.populate records) with
      | .error e => (.error e, v)
      | .ok (.populated true, v) =>
        let owner := v.owner.receiveAll (records.map (measure d) ++ [.barrier])
        (.ok records.length, { v with owner, nextId := v.nextId + records.length })
      | .ok (_, v) => (.ok v.apps.value.length, v)
  else (.ok v.apps.value.length, v)

/-- An application goes from the list, unless its owner has stopped. -/
def withdraw (v : Inventory) (id : AppId) : Except AppError (Option AppRecord × Inventory) := do
  match ← v.send (.remove id) with
  | (.removed r, v) => .ok (r, v)
  | (_, v) => .ok (none, v)

/-- The application that goes from the list, and the inventory without it.  None goes if the owner
of the list has stopped. -/
def remove (v : Inventory) (id : AppId) : Option AppRecord × Inventory :=
  match v.withdraw id with
  | .ok outcome => outcome
  | .error _ => (none, v)

end Inventory

end Reclaim
