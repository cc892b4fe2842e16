import Reclaim.Path

/-!
# Which directories may be emptied

Two system directories may be emptied with administrator rights, and they are named here and
nowhere else.  Any other directory may be emptied only for the user, and only if it is written
plainly, is not one of the protected directories and does not contain the home directory.
Identifiers that become one component of a path are checked here as well.

## Main definitions

* `Safety.systemRoots` : the only directories emptied with administrator rights.
* `Safety.isProtected`, `Safety.isUserRoot` : the checks on a path.
* `Safety.isDirectChild`, `Safety.isIdentifier` : the checks on a child and on a name.
-/

namespace Reclaim.Safety

/-- The only directories whose contents may be deleted with administrator rights. -/
def systemRoots : List String :=
  ["/Library/Caches", "/Library/Logs"]

/-- Directories of the system that are never deleted. -/
def protectedPaths : List String :=
  ["/", "/System", "/Applications", "/Users", "/Library", "/usr", "/bin", "/sbin", "/var", "/etc",
    "/opt", "/private", "/Volumes"]

/-- Directories directly below the home directory that are never deleted. -/
def protectedHomeNames : List String :=
  ["Desktop", "Documents", "Downloads", "Pictures", "Music", "Movies", "Library", "Applications",
    ".ssh", ".gnupg"]

/-- The path is one of the two system directories. -/
def isSystemRoot (p : Path) : Bool :=
  systemRoots.any fun root => p.same ⟨root⟩

/-- The path is one of the directories that are never deleted. -/
def isProtected (home : Option Path) (p : Path) : Bool :=
  protectedPaths.any (fun root => p.same ⟨root⟩) ||
    match home with
    | none => false
    | some home => p.same home || protectedHomeNames.any fun name => p.same (home.child name)

/-- The contents of the path may be deleted for the user: it is absolute and written without
dots, it is not protected, and the home directory is not inside it. -/
def isUserRoot (home : Option Path) (p : Path) : Bool :=
  p.isAbsolute && !isProtected home p &&
    !(p.components.any fun c => c == .here || c == .up) &&
    match home with
    | none => true
    | some home => !home.within p

/-- The text can stand as one plain component of a path: it is not empty, has at most 255 bytes,
holds no separator and no NUL, and does not begin with a dot. -/
def isIdentifier (text : String) : Bool :=
  text ≠ "" && text.utf8ByteSize ≤ 255 &&
    !(text.toList.any fun c => c == '/' || c == '\\' || c == '\x00') &&
    (match (Path.mk text).components with
      | [.name _] => true
      | _ => false) &&
    text.toList.head? != some '.'

/-- The path names an entry directly inside `parent`. -/
def isDirectChild (p parent : Path) : Bool :=
  (match p.parent? with
    | some q => q.same parent
    | none => false) && p.fileName?.isSome

end Reclaim.Safety
