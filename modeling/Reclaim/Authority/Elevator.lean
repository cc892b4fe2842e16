import Reclaim.Authority.Store
import Reclaim.Program.Executor

/-!
# Commands with administrator rights

A command that needs an administrator runs with the secret of the store.  If it fails, the secret
may be the reason and is forgotten, and a new one is asked for.  Without a secret the command runs
after consent on the screen if that is allowed, and otherwise not at all.

## Main definitions

* `Station` : the machine, the credential store and the published values of an operation.
* `Elevator.run` : one command with administrator rights.
* `Elevator.settle` : what becomes of the store once the helper has ended.
-/

namespace Reclaim

/-- What operations work on. -/
structure Station where
  machine : Machine := {}
  store : CredentialStore
  signals : Signals := {}

namespace Station

/-- The files of the machine. -/
def disk (s : Station) : Disk :=
  s.machine.disk

/-- The same station with other files. -/
def withDisk (s : Station) (d : Disk) : Station :=
  { s with machine := { s.machine with disk := d } }

/-- A new progress line. -/
def log (s : Station) (line : String) : Station :=
  { s with signals := s.signals.log line }

/-- Work begins or ends. -/
def setBusy (s : Station) (busy : Bool) : Station :=
  { s with signals := s.signals.setBusy busy }

/-- A new number of bytes. -/
def setBytes (s : Station) (bytes : Nat) : Station :=
  { s with signals := s.signals.setBytes bytes }

/-- The secret is forgotten in memory and on disk. -/
def clearCredential (s : Station) : Station :=
  let (store, d) := s.store.clear s.disk
  { s.withDisk d with store }

/-- A secret is supplied and no longer asked for. -/
def setCredential (s : Station) (c : Credential) : Station :=
  let (store, d) := s.store.set c s.disk
  { s.withDisk d with store }

/-- A secret is asked for. -/
def requestCredential (s : Station) : Station :=
  { s with store := s.store.request }

end Station

/-- Why a command with administrator rights gave no output. -/
inductive ElevationError where
  /-- There is no secret, and nothing ran. -/
  | authorizationRequired
  /-- The helper ran and failed; the secret is forgotten. -/
  | rejected (error : ExecError)
  /-- The helper could not be started, or consent was not given. -/
  | failed (error : ExecError)
  deriving DecidableEq, Repr

/-- The text of an elevation that failed. -/
def ElevationError.message : ElevationError → String
  | .authorizationRequired => "Authorization required"
  | .rejected e => "elevated command failed: " ++ e.message
  | .failed e => e.message

/-- The rule by which commands get administrator rights. -/
structure Elevator where
  executor : Executor := {}
  /-- Without a secret, consent is asked for on the screen. -/
  consentFallback : Bool := false
  deriving DecidableEq, Repr

namespace Elevator

/-- What is shown of the rule together with the store that it works on. -/
def description (e : Elevator) (store : CredentialStore) : String :=
  "Elevator \x7b executor: " ++ e.executor.description ++ ", credentials: " ++ store.description ++
    ", native_prompt_fallback: " ++ (if e.consentFallback then "true" else "false") ++ " \x7d"

/-- What becomes of the store once the helper has ended: if it ran and failed, the secret is
forgotten and a new one is asked for. -/
def settle (result : Except ExecError Output) (s : Station) :
    Except ElevationError Output × Station :=
  match result with
  | .ok output => (.ok output, s)
  | .error (.commandFailed text) =>
    (.error (.rejected (.commandFailed text)), s.clearCredential.requestCredential)
  | .error e => (.error (.failed e), s)

/-- A command is run with administrator rights. -/
def run (e : Elevator) (command : String) (s : Station) : Except ElevationError Output × Station :=
  match s.store.cached with
  | some credential =>
    let (result, machine) := e.executor.runWithSecret command credential.secret s.machine
    settle result { s with machine }
  | none =>
    if e.consentFallback then
      let (result, machine) := e.executor.runWithConsent command s.machine
      (result.mapError .failed, { s with machine })
    else (.error .authorizationRequired, s.requestCredential)

end Elevator

end Reclaim
