import Reclaim.Disk.Basic
import Reclaim.Safety

/-!
# What applications leave behind

An application keeps its files in eight fixed places of the user's library, under names made from
its identifier.  An identifier that is not one plain name leads to no place at all.

## Main definitions

* `ResidualKind` : the eight places.
* `Residual.candidates` : where an application may have left something.
* `Residual.existing` : where it has.
-/

namespace Reclaim

/-- The kinds of files that an application leaves behind. -/
inductive ResidualKind where
  | appSupport
  | cache
  | preferences
  | savedState
  | container
  | webKit
  | launchAgent
  | logs
  deriving DecidableEq, Repr

namespace ResidualKind

/-- Every kind, in the order of removal. -/
def all : List ResidualKind :=
  [.appSupport, .cache, .preferences, .savedState, .container, .webKit, .launchAgent, .logs]

/-- The directory of a kind in the library. -/
def folder : ResidualKind → String
  | appSupport => "Application Support"
  | cache => "Caches"
  | preferences => "Preferences"
  | savedState => "Saved Application State"
  | container => "Containers"
  | webKit => "WebKit"
  | launchAgent => "LaunchAgents"
  | logs => "Logs"

/-- The name that an identifier has in the directory of a kind. -/
def fileName (kind : ResidualKind) (identifier : String) : String :=
  match kind with
  | preferences | launchAgent => identifier ++ ".plist"
  | savedState => identifier ++ ".savedState"
  | _ => identifier

/-- The word for a kind in printed reports. -/
def title : ResidualKind → String
  | appSupport => "App Support"
  | cache => "Cache"
  | preferences => "Preferences"
  | savedState => "Saved State"
  | container => "Container"
  | webKit => "WebKit Data"
  | launchAgent => "Launch Agent"
  | logs => "Logs"

/-- The word for a kind in data. -/
def key : ResidualKind → String
  | appSupport => "app_support"
  | cache => "cache"
  | preferences => "preferences"
  | savedState => "saved_state"
  | container => "container"
  | webKit => "web_kit"
  | launchAgent => "launch_agent"
  | logs => "logs"

/-- The kind with the given word in data. -/
def ofKey? (key : String) : Option ResidualKind :=
  all.find? fun kind => kind.key == key

end ResidualKind

/-- A place where an application may have left something. -/
structure Residual where
  kind : ResidualKind
  path : Path
  deriving DecidableEq, Repr

namespace Residual

/-- The directory of a kind in a library. -/
def folder (library : Path) (kind : ResidualKind) : Path :=
  library.child kind.folder

/-- The place of a kind for an identifier. -/
def of (library : Path) (identifier : String) (kind : ResidualKind) : Residual :=
  ⟨kind, (folder library kind).child (kind.fileName identifier)⟩

/-- Every place for an identifier, whether something is there or not.  An identifier that is not
one plain name has none. -/
def candidates (library : Path) (identifier : String) : List Residual :=
  if Safety.isIdentifier identifier then
    (ResidualKind.all.map (of library identifier)).filter fun r =>
      Safety.isDirectChild r.path (folder library r.kind)
  else []

/-- The places for an identifier where something is. -/
def existing (library : Path) (identifier : String) (d : Disk) : List Residual :=
  (candidates library identifier).filter fun r => d.hasEntry r.path

end Residual

end Reclaim
