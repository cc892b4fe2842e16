import Reclaim.App.Removal

/-!
# The trash of the user

Items moved to the trash go to a folder of the home directory, under a name that is free there.

## Main definitions

* `Trash.folder` : where items go.
* `Trash.ofUser` : the trash of a user.
-/

namespace Reclaim.Trash

/-- The folder that items are moved to. -/
def folder (home : Option Path) : Path :=
  (home.getD ⟨""⟩).child ".local/share/Trash/files"

/-- A name like the given one that is not among the entries. -/
def freeName (entries : List (String × Node)) (name : String) : String :=
  if (entries.lookup name).isNone then name
  else name ++ " " ++ Decimal.natural (entries.length + 1)

/-- An entry is moved into a folder. -/
def moveInto (folder p : Path) (d : Disk) : Except FileError Disk := do
  let (place, node) ← d.locate false p
  let d ← d.makeFolders folder
  let (top, _) ← d.locate true folder
  let name := freeName (← d.list folder) (p.fileName?.getD "item")
  .ok ⟨(d.top.drop place).put (top ++ [name]) node⟩

/-- The trash of a user. -/
def ofUser (home : Option Path) : Trash := fun p d =>
  (moveInto (folder home) p d).mapError fun e => .trash p e.message

end Reclaim.Trash
