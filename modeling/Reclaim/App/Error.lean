import Reclaim.Disk.Errno
import Reclaim.Path

/-!
# Errors about applications

## Main definitions

* `AppError` : why an operation on applications failed.
-/

namespace Reclaim

/-- Why an operation on applications failed. -/
inductive AppError where
  /-- A call on files failed. -/
  | io (path : Path) (error : FileError)
  /-- The application is not, or no longer, there. -/
  | notFound (name : String) (path : Path)
  /-- The path could not be moved to the trash. -/
  | trash (path : Path) (text : String)
  | other (text : String)
  deriving DecidableEq, Repr

/-- The text of an error. -/
def AppError.message : AppError → String
  | .io path e => "I/O error at '" ++ path.text ++ "': " ++ e.message
  | .notFound name path => "App '" ++ name ++ "' not found at '" ++ path.text ++ "'"
  | .trash path text => "Failed to trash '" ++ path.text ++ "': " ++ text
  | .other text => text

end Reclaim
