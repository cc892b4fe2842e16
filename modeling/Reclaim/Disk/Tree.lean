import Reclaim.Path

/-!
# File trees

Files, links and folders as a tree.  A place is the list of names from the top of the tree, so two
places are the same entry exactly when they are equal; links are not followed here.

## Main definitions

* `Node` : a file, a link or a folder with its entries.
* `Node.at?` : the entry at a place.
* `Node.updateFolder` : changes the entries of one folder.
* `Node.fileBytes` : the lengths of all files of a tree.
* `Node.entryCount` : how many entries a tree has.
-/

namespace Reclaim

/-- How a program ends: with an exit code, or by a signal. -/
inductive Ending where
  | exit (code : Nat)
  | killed
  deriving DecidableEq, Repr

/-- What a program does when it is run: it reads its input to the end and answers.  If it expects
a certain line, any other input is turned down. -/
structure Script where
  output : ByteArray := .empty
  errors : ByteArray := .empty
  ending : Ending := .exit 0
  expects : Option String := none

/-- What a file holds. -/
inductive Content where
  | bytes (data : ByteArray)
  | script (script : Script)

/-- The length of a file; that of a program is not looked at. -/
def Content.size : Content → Nat
  | .bytes data => data.size
  | .script _ => 0

/-- A content with more bytes behind it; a program does what it did. -/
def Content.followedBy (more : ByteArray) : Content → Content
  | .bytes data => .bytes (data ++ more)
  | .script program => .script program

/-- An entry of a file tree. -/
inductive Node where
  /-- A file with its permission bits. -/
  | file (mode : Nat) (content : Content)
  /-- A link with the text it was made with. -/
  | link (target : String)
  /-- A folder with its entries, each name at most once. -/
  | folder (entries : List (String × Node))

instance : Inhabited Node := ⟨.folder []⟩

/-- The names from the top of a tree down to an entry. -/
abbrev Place := List String

namespace Node

/-- The entry is a real folder. -/
def isFolder : Node → Bool
  | .folder _ => true
  | _ => false

/-- The entry is a regular file. -/
def isFile : Node → Bool
  | .file .. => true
  | _ => false

/-- The length of the entry itself: of a file its content, of a link its text. -/
def length : Node → Nat
  | .file _ content => content.size
  | .link target => target.utf8ByteSize
  | .folder _ => 0

/-- The entry at a place. -/
def at? : Place → Node → Option Node
  | [], node => some node
  | name :: place, .folder entries => (entries.lookup name).bind (at? place)
  | _ :: _, _ => none

/-- The entries with `node` under `name`, in the place of the one before or at the end. -/
def putEntry (name : String) (node : Node) : List (String × Node) → List (String × Node)
  | [] => [(name, node)]
  | entry :: entries =>
    if entry.1 = name then (name, node) :: entries else entry :: putEntry name node entries

/-- The entries without the one under `name`. -/
def dropEntry (name : String) (entries : List (String × Node)) : List (String × Node) :=
  entries.filter fun entry => entry.1 ≠ name

/-- The tree in which the entries of the folder at a place have been changed. -/
def updateFolder (change : List (String × Node) → List (String × Node)) : Place → Node → Node
  | [], .folder entries => .folder (change entries)
  | name :: place, .folder entries =>
    .folder (entries.map fun entry =>
      if entry.1 = name then (entry.1, updateFolder change place entry.2) else entry)
  | _, node => node

/-- The tree with `node` at a place below its top; the folder it goes into is there. -/
def put (top : Node) (place : Place) (node : Node) : Node :=
  match place.getLast? with
  | none => node
  | some name => updateFolder (putEntry name node) place.dropLast top

/-- The tree without the entry at a place below its top. -/
def drop (top : Node) (place : Place) : Node :=
  match place.getLast? with
  | none => top
  | some name => updateFolder (dropEntry name) place.dropLast top

/-- The tree whose folder at a place is empty. -/
def clear (top : Node) (place : Place) : Node :=
  updateFolder (fun _ => []) place top

mutual

/-- The lengths of all regular files of a tree; links are not followed. -/
def fileBytes : Node → Nat
  | .file _ content => content.size
  | .link _ => 0
  | .folder entries => entryBytes entries
termination_by structural node => node

/-- The lengths of all regular files below a list of entries. -/
def entryBytes : List (String × Node) → Nat
  | [] => 0
  | (_, node) :: entries => fileBytes node + entryBytes entries
termination_by structural entries => entries

end

mutual

/-- The number of entries below a node. -/
def entryCount : Node → Nat
  | .folder entries => countEntries entries
  | _ => 0
termination_by structural node => node

/-- The number of entries of a list and below them. -/
def countEntries : List (String × Node) → Nat
  | [] => 0
  | (_, node) :: entries => entryCount node + 1 + countEntries entries
termination_by structural entries => entries

end

end Node

end Reclaim
