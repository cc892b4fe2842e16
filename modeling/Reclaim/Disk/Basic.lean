import Reclaim.Disk.Errno
import Reclaim.Disk.Tree

/-!
# Files by path

A disk is a file tree whose entries are reached by paths as the operating system reads them: every
name but the last must lead to a folder, links are followed on the way, and at most forty of them.
Calls that only look keep the disk; calls that change it give the new one or the reason why they
failed.

## Main definitions

* `Disk.locate` : the place that a path leads to, with or without following a final link.
* `Disk.status`, `Disk.isPresent`, `Disk.isFile`, `Disk.list`, `Disk.read` : looking.
* `Disk.write`, `Disk.append`, `Disk.setMode`, `Disk.makeFolders`, `Disk.makeLink`, `Disk.unlink`,
  `Disk.removeTree` : changing.
-/

namespace Reclaim

/-- A file tree reached by paths. -/
structure Disk where
  top : Node := .folder []
  deriving Inhabited

/-- One step on the way along a path. -/
inductive Step where
  /-- A dot or a closing slash, which asks for a folder. -/
  | here
  /-- Two dots, the folder above. -/
  | up
  /-- The name of an entry. -/
  | name (text : String)
  deriving DecidableEq, Repr

namespace Step

/-- The steps of a text, leading slash aside; a slash at the end asks for a folder. -/
def ofPieces : List String → List Step
  | [] => []
  | [last] => if last = "" then [.here] else [ofPiece last]
  | piece :: pieces => if piece = "" then ofPieces pieces else ofPiece piece :: ofPieces pieces
where
  /-- The step of a stretch between slashes that is not empty. -/
  ofPiece (piece : String) : Step :=
    if piece = "." then .here else if piece = ".." then .up else .name piece

end Step

/-- The steps of a path from the top or from where it is read. -/
def Path.steps (p : Path) : List Step :=
  Step.ofPieces p.pieces

/-- A path with a single slash at its end asks for a folder as one with a dot does. -/
example : (Path.mk "/a//b/").steps = [.name "a", .name "b", .here] := by decide +kernel

namespace Disk

/-! ### Following a path -/

/-- How many links are followed along one path. -/
def linkLimit : Nat := 40

/-- The longest name of an entry, in bytes. -/
def nameLimit : Nat := 255

/-- The length from which a path is too long, in bytes. -/
def pathLimit : Nat := 4096

/-- The steps from a folder at a place, where `jump` goes on behind a link.  The place of a last
name that is missing in its folder is given as well. -/
def walk (top : Node) (jump : Place → List Step → Except Errno Place) (follow : Bool) :
    Place → List Step → Except Errno Place
  | place, [] => .ok place
  | place, step :: steps =>
    match top.at? place with
    | some (.folder entries) =>
      match step with
      | .here => walk top jump follow place steps
      | .up => walk top jump follow place.dropLast steps
      | .name name =>
        if nameLimit < name.utf8ByteSize then .error .longName
        else match entries.lookup name with
          | none => if steps = [] then .ok (place ++ [name]) else .error .noEntry
          | some (.link target) =>
            if steps = [] ∧ follow = false then .ok (place ++ [name])
            else if target = "" then .error .noEntry
            else
              let goal : Path := ⟨target⟩
              jump (if goal.isAbsolute then [] else place) (goal.steps ++ steps)
          | some _ => walk top jump follow (place ++ [name]) steps
    | _ => .error .notDirectory

/-- The steps from a folder at a place, with at most `links` links on the way. -/
def resolve (top : Node) (follow : Bool) : Nat → Place → List Step → Except Errno Place
  | 0 => walk top (fun _ _ => .error .linkLoop) follow
  | links + 1 => walk top (resolve top follow links) follow

/-- The place that a path leads to, which may be free if only its last name is missing. -/
def aim (d : Disk) (follow : Bool) (p : Path) : Except FileError Place :=
  if p.text.toList.contains '\x00' then .error .nulInPath
  else if p.text = "" then .error (.system .noEntry)
  else if pathLimit ≤ p.text.utf8ByteSize then .error (.system .longName)
  else (resolve d.top follow linkLimit [] p.steps).mapError .system

/-- The entry that a path leads to, with its place.  A final link is followed if `follow` says
so. -/
def locate (d : Disk) (follow : Bool) (p : Path) : Except FileError (Place × Node) := do
  let place ← d.aim follow p
  match d.top.at? place with
  | some node => .ok (place, node)
  | none => .error (.system .noEntry)

/-! ### Looking -/

/-- The entry that a path leads to. -/
def status (d : Disk) (follow : Bool) (p : Path) : Except FileError Node :=
  (d.locate follow p).map Prod.snd

/-- The path leads to an entry, links followed. -/
def isPresent (d : Disk) (p : Path) : Bool :=
  (d.status true p).isOk

/-- The path is an entry itself, be it a link that leads nowhere. -/
def hasEntry (d : Disk) (p : Path) : Bool :=
  (d.status false p).isOk

/-- The path leads to a regular file. -/
def isFile (d : Disk) (p : Path) : Bool :=
  match d.status true p with
  | .ok node => node.isFile
  | .error _ => false

/-- The path leads to a folder. -/
def isFolder (d : Disk) (p : Path) : Bool :=
  match d.status true p with
  | .ok node => node.isFolder
  | .error _ => false

/-- The entries of the folder that a path leads to. -/
def list (d : Disk) (p : Path) : Except FileError (List (String × Node)) := do
  match ← d.status true p with
  | .folder entries => .ok entries
  | _ => .error (.system .notDirectory)

/-- The content of the file that a path leads to. -/
def read (d : Disk) (p : Path) : Except FileError ByteArray := do
  match ← d.status true p with
  | .file _ (.bytes data) => .ok data
  | .file _ (.script _) => .ok .empty
  | .folder _ => .error (.system .isDirectory)
  | .link _ => .error (.system .noEntry)

/-- The content of a file as text. -/
def readText (d : Disk) (p : Path) : Except FileError String := do
  match String.fromUTF8? (← d.read p) with
  | some text => .ok text
  | none => .error .notText

/-! ### Changing -/

/-- The permission bits of a folder. -/
def folderMode : Nat := 0o755

/-- The permission bits of a file, unless others are asked for. -/
def fileMode : Nat := 0o644

/-- The content of the file that a path leads to is replaced; a file that is not there is made with
the given permissions.  A file that is there keeps its own. -/
def write (d : Disk) (p : Path) (content : Content) (mode : Nat) : Except FileError Disk := do
  let place ← d.aim true p
  match d.top.at? place with
  | none => .ok ⟨d.top.put place (.file mode content)⟩
  | some (.file old _) => .ok ⟨d.top.put place (.file old content)⟩
  | some (.folder _) => .error (.system .isDirectory)
  | some (.link _) => .error (.system .noEntry)

/-- Bytes are written behind the content of the file that a path leads to; a file that is not there
is made. -/
def append (d : Disk) (p : Path) (more : ByteArray) : Except FileError Disk := do
  let place ← d.aim true p
  match d.top.at? place with
  | none => .ok ⟨d.top.put place (.file fileMode (.bytes more))⟩
  | some (.file mode content) => .ok ⟨d.top.put place (.file mode (content.followedBy more))⟩
  | some (.folder _) => .error (.system .isDirectory)
  | some (.link _) => .error (.system .noEntry)

/-- The file that a path leads to gets the given permissions. -/
def setMode (d : Disk) (p : Path) (mode : Nat) : Except FileError Disk := do
  match ← d.locate true p with
  | (place, .file _ content) => .ok ⟨d.top.put place (.file mode content)⟩
  | _ => .ok d

/-- The permissions of the entry that a path leads to. -/
def modeOf? (d : Disk) (p : Path) : Option Nat :=
  match d.status true p with
  | .ok (.file mode _) => some mode
  | .ok (.folder _) => some folderMode
  | _ => none

/-- A folder is made at a path whose parent is there. -/
def makeFolder (d : Disk) (p : Path) : Except FileError Disk := do
  let place ← d.aim false p
  match d.top.at? place with
  | none => .ok ⟨d.top.put place (.folder [])⟩
  | some _ => .error (.system .entryExists)

/-- The folders named by the components one after the other, behind those already passed. -/
def makeFoldersFrom (passed : List Component) : List Component → Disk → Except FileError Disk
  | [], d => .ok d
  | step :: steps, d => do
    let p := Path.ofComponents (passed ++ [step])
    let d ← if d.isFolder p then .ok d else d.makeFolder p
    makeFoldersFrom (passed ++ [step]) steps d

/-- A folder is made with all its parents; one that is there is kept. -/
def makeFolders (d : Disk) (p : Path) : Except FileError Disk :=
  if p.text.toList.contains '\x00' then .error .nulInPath
  else makeFoldersFrom [] p.components d

/-- A link is made at a path where nothing is. -/
def makeLink (d : Disk) (p : Path) (target : String) : Except FileError Disk := do
  let place ← d.aim false p
  match d.top.at? place with
  | none => .ok ⟨d.top.put place (.link target)⟩
  | some _ => .error (.system .entryExists)

/-- A file or a link is removed; a link is not followed. -/
def unlink (d : Disk) (p : Path) : Except FileError Disk := do
  match ← d.locate false p with
  | (_, .folder _) => .error (.system .isDirectory)
  | (place, _) => .ok ⟨d.top.drop place⟩

/-- An entry is removed with everything below it; links are not followed.  A folder is emptied
before it goes itself, and it stays if its path led through something inside it. -/
def removeTree (d : Disk) (p : Path) : Except FileError Disk := do
  let (place, _) ← d.locate false p
  let emptied : Disk := ⟨d.top.clear place⟩
  match emptied.locate false p with
  | .ok _ => .ok ⟨emptied.top.drop place⟩
  | .error _ => .ok emptied

end Disk

end Reclaim
