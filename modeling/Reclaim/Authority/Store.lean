import Reclaim.Disk.Basic
import Reclaim.Signals
import Reclaim.Text.Quoted

/-!
# The credential store

The secret of an administrator is kept in memory and, if the store is a lasting one, in a file that
only its owner can read.  The store also tells whether a secret is being asked for.

## Main definitions

* `Credential` : a secret.
* `CredentialStore` : the secret, its file and the request for one.
* `CredentialStore.load`, `CredentialStore.save`, `CredentialStore.set`, `CredentialStore.clear`,
  `CredentialStore.request` : its operations.
-/

namespace Reclaim

/-- The secret of an administrator. -/
structure Credential where
  secret : String
  deriving DecidableEq

/-- What is shown of a credential, which is nothing of its secret. -/
def Credential.description (_ : Credential) : String :=
  "Credential(<redacted>)"

/-- A secret in memory with the file that it is kept in. -/
structure CredentialStore where
  path : Path
  /-- The secret is also written to the file. -/
  persist : Bool := true
  cached : Option Credential := none
  /-- A secret is being asked for. -/
  requested : Published Bool := ⟨false, 0⟩
  deriving DecidableEq

/-- The permissions of the file of a store. -/
def ownerOnly : Nat := 0o600

/-- The disk with a file that only its owner can read, below folders that are made if they are
missing.  A file that is there loses its other permissions, but only after its content has been
replaced.  What fails stays undone. -/
def Disk.writeOwnerOnly (d : Disk) (p : Path) (text : String) : Disk :=
  let folders := match p.parent? with
    | some parent => d.makeFolders parent
    | none => .ok d
  match folders with
  | .error _ => d
  | .ok d =>
    match d.write p (.bytes text.toUTF8) ownerOnly >>= (·.setMode p ownerOnly) with
    | .error _ => d
    | .ok d => d

namespace CredentialStore

/-- What is shown of a store. -/
def description (s : CredentialStore) : String :=
  "CredentialStore \x7b path: " ++ Text.inQuotes s.path.text ++ ", cached: " ++
    (if s.cached.isSome then "true" else "false") ++ " \x7d"

/-- The secret of the file goes to memory; without a readable file nothing changes. -/
def load (s : CredentialStore) (d : Disk) : Option Credential × CredentialStore :=
  match d.readText s.path with
  | .ok secret => (some ⟨secret⟩, { s with cached := some ⟨secret⟩ })
  | .error _ => (none, s)

/-- A store with the secret of its file. -/
def opened (path : Path) (persist : Bool) (d : Disk) : CredentialStore :=
  (load { path, persist } d).2

/-- A secret goes to memory and, for a lasting store, to the file.  A file that cannot be written
does not keep the secret out of memory. -/
def save (s : CredentialStore) (c : Credential) (d : Disk) : CredentialStore × Disk :=
  let s := { s with cached := some c }
  (s, if s.persist then d.writeOwnerOnly s.path c.secret else d)

/-- A secret is supplied and no longer asked for. -/
def set (s : CredentialStore) (c : Credential) (d : Disk) : CredentialStore × Disk :=
  let (s, d) := s.save c d
  ({ s with requested := s.requested.send false }, d)

/-- The secret is forgotten in memory and on disk, whether the store is a lasting one or not. -/
def clear (s : CredentialStore) (d : Disk) : CredentialStore × Disk :=
  let s := { s with cached := none }
  match d.unlink s.path with
  | .ok d => (s, d)
  | .error _ => (s, d)

/-- A secret is asked for. -/
def request (s : CredentialStore) : CredentialStore :=
  { s with requested := s.requested.send true }

end CredentialStore

end Reclaim
