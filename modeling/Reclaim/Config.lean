import Reclaim.Disk.Basic
import Reclaim.Json
import Reclaim.Toml.Document
import Reclaim.Toml.Written

/-!
# Settings

The settings are a file in the data directory.  A file that is not there, and a key that is not in
it, leave the usual value.

## Main definitions

* `Config` : the settings.
* `Config.ofText?`, `Config.text?` : the settings as a file.
* `Config.ofJson?`, `Config.json` : the settings as data.
* `Config.load`, `Config.save`, `Config.makeFolders` : the settings on disk.
-/

namespace Reclaim

/-- The settings. -/
structure Config where
  /-- A scan publishes a path after so many entries. -/
  progressEvery : Nat := 200
  /-- The least duration of a clean in milliseconds. -/
  minCleanMillis : Nat := 1000
  /-- The pause between removed items in milliseconds. -/
  removalPauseMillis : Nat := 100
  /-- The pause after a step of maintenance in milliseconds. -/
  stepPauseMillis : Nat := 500
  /-- Where applications are looked for. -/
  applicationsDir : Path := ⟨"/Applications"⟩
  /-- The secret is kept in a file. -/
  persistCredential : Bool := true
  /-- Without a secret, consent is asked for on the screen. -/
  consentFallback : Bool := false
  /-- Messages go to a file as well. -/
  logToFile : Bool := false
  /-- Further directories of the user whose contents may be deleted. -/
  extraUserPaths : List Path := []
  deriving DecidableEq, Repr

/-- Why the settings could not be read or written. -/
inductive ConfigError where
  /-- The file is there and cannot be read as text. -/
  | unreadable (path : Path)
  /-- The file is no table of settings. -/
  | malformed (path : Path)
  /-- The directory of the file cannot be made. -/
  | noDataDir (path : Path)
  /-- A number is too large for the file. -/
  | tooLarge
  /-- The file cannot be written. -/
  | unwritable (path : Path)
  /-- A directory of the program cannot be made. -/
  | noFolder (path : Path)
  deriving DecidableEq, Repr

/-- The text of an error. -/
def ConfigError.message : ConfigError → String
  | .unreadable p => "Failed to read config: " ++ p.text
  | .malformed p => "Failed to parse config: " ++ p.text
  | .noDataDir p => "Failed to create config dir: " ++ p.text
  | .tooLarge => "Failed to serialize config"
  | .unwritable p => "Failed to write config: " ++ p.text
  | .noFolder p => "Failed to create directory: " ++ p.text

namespace Config

/-! ### Where things are -/

/-- The directory of the program below the home directory. -/
def dataDir (home : Option Path) : Path :=
  (home.getD ⟨"/tmp"⟩).child ".mole"

/-- The file of the settings. -/
def configPath (home : Option Path) : Path :=
  (dataDir home).child "config.toml"

/-- The file of the secret. -/
def credentialPath (home : Option Path) : Path :=
  (dataDir home).child ".key"

/-- The directory of the message files. -/
def logsDir (home : Option Path) : Path :=
  (dataDir home).child "logs"

/-! ### The names of the settings -/

/-- The keys in the order in which they are written. -/
def keys : List String :=
  ["progress_every", "min_clean_millis", "removal_pacing_millis", "step_pacing_millis",
    "applications_dir", "persist_credential", "native_prompt_fallback", "log_to_file",
    "extra_user_paths"]

/-! ### The settings as a file -/

/-- The number under a key, which is not negative; the usual one if the key is not there. -/
def numberField? (fields : Toml.Fields) (key : String) (usual : Nat) : Option Nat :=
  match fields.lookup key with
  | none => some usual
  | some (.integer n) => if 0 ≤ n then some n.toNat else none
  | some _ => none

/-- The truth value under a key; the usual one if the key is not there. -/
def switchField? (fields : Toml.Fields) (key : String) (usual : Bool) : Option Bool :=
  match fields.lookup key with
  | none => some usual
  | some (.boolean b) => some b
  | some _ => none

/-- The path that a value of a file stands for. -/
def pathOfEntry? : Toml.Entry → Option Path
  | .text t => some ⟨t⟩
  | _ => none

/-- The path under a key; the usual one if the key is not there. -/
def pathField? (fields : Toml.Fields) (key : String) (usual : Path) : Option Path :=
  match fields.lookup key with
  | none => some usual
  | some entry => pathOfEntry? entry

/-- The paths under a key; the usual ones if the key is not there. -/
def pathsField? (fields : Toml.Fields) (key : String) (usual : List Path) : Option (List Path) :=
  match fields.lookup key with
  | none => some usual
  | some (.array items) => items.mapM pathOfEntry?
  | some _ => none

/-- The settings of a table; keys that are none of the settings do not count. -/
def ofFields? (f : Toml.Fields) : Option Config := do
  let usual : Config := {}
  return {
    progressEvery := ← numberField? f "progress_every" usual.progressEvery
    minCleanMillis := ← numberField? f "min_clean_millis" usual.minCleanMillis
    removalPauseMillis := ← numberField? f "removal_pacing_millis" usual.removalPauseMillis
    stepPauseMillis := ← numberField? f "step_pacing_millis" usual.stepPauseMillis
    applicationsDir := ← pathField? f "applications_dir" usual.applicationsDir
    persistCredential := ← switchField? f "persist_credential" usual.persistCredential
    consentFallback := ← switchField? f "native_prompt_fallback" usual.consentFallback
    logToFile := ← switchField? f "log_to_file" usual.logToFile
    extraUserPaths := ← pathsField? f "extra_user_paths" usual.extraUserPaths }

/-- The settings of a file, which may be empty. -/
def ofText? (text : String) : Option Config :=
  (Toml.read? text).bind ofFields?

/-- A number as it is written to a file, where all numbers fit into 64 bits with a sign. -/
def writtenNumber? (n : Nat) : Option String :=
  if n < Nat.pow 2 63 then some (Decimal.natural n) else none

/-- A truth value as it is written. -/
def writtenSwitch (b : Bool) : String :=
  if b then "true" else "false"

/-- The settings as a file with all keys. -/
def text? (c : Config) : Option String := do
  let values := [
    ← writtenNumber? c.progressEvery,
    ← writtenNumber? c.minCleanMillis,
    ← writtenNumber? c.removalPauseMillis,
    ← writtenNumber? c.stepPauseMillis,
    Toml.written c.applicationsDir.text,
    writtenSwitch c.persistCredential,
    writtenSwitch c.consentFallback,
    writtenSwitch c.logToFile,
    Toml.writtenList (c.extraUserPaths.map Path.text)]
  return String.join (List.zipWith Toml.line keys values)

/-! ### The settings as data -/

/-- A number of data that is a word of 64 bits. -/
def numberOfJson? : Json → Option Nat
  | .whole n => if 0 ≤ n ∧ n < Nat.pow 2 64 then some n.toNat else none
  | _ => none

/-- A truth value of data. -/
def switchOfJson? : Json → Option Bool
  | .boolean b => some b
  | _ => none

/-- A path of data. -/
def pathOfJson? : Json → Option Path
  | .text t => some ⟨t⟩
  | _ => none

/-- A list of paths of data. -/
def pathsOfJson? : Json → Option (List Path)
  | .array items => items.mapM pathOfJson?
  | _ => none

/-- The value read from data, or the usual one if there is no data. -/
def fromJson? {α : Type} (read : Json → Option α) (usual : α) : Option Json → Option α
  | none => some usual
  | some value => read value

/-- The settings of values found by key. -/
def ofLookup? (get : String → Option Json) : Option Config := do
  let usual : Config := {}
  return {
    progressEvery := ← fromJson? numberOfJson? usual.progressEvery (get "progress_every")
    minCleanMillis := ← fromJson? numberOfJson? usual.minCleanMillis (get "min_clean_millis")
    removalPauseMillis :=
      ← fromJson? numberOfJson? usual.removalPauseMillis (get "removal_pacing_millis")
    stepPauseMillis := ← fromJson? numberOfJson? usual.stepPauseMillis (get "step_pacing_millis")
    applicationsDir := ← fromJson? pathOfJson? usual.applicationsDir (get "applications_dir")
    persistCredential :=
      ← fromJson? switchOfJson? usual.persistCredential (get "persist_credential")
    consentFallback :=
      ← fromJson? switchOfJson? usual.consentFallback (get "native_prompt_fallback")
    logToFile := ← fromJson? switchOfJson? usual.logToFile (get "log_to_file")
    extraUserPaths := ← fromJson? pathsOfJson? usual.extraUserPaths (get "extra_user_paths") }

/-- The settings of data: by key, or as a list in the order of the keys. -/
def ofJson? : Json → Option Config
  | .object members => ofLookup? fun key => members.lookup key
  | .array items =>
    if keys.length < items.length then none
    else ofLookup? fun key => (List.zip keys items).lookup key
  | _ => none

/-- The settings as data. -/
def json (c : Config) : Json :=
  .object (List.zip keys [
    .natural c.progressEvery, .natural c.minCleanMillis, .natural c.removalPauseMillis,
    .natural c.stepPauseMillis, .path c.applicationsDir, .boolean c.persistCredential,
    .boolean c.consentFallback, .boolean c.logToFile,
    .array (c.extraUserPaths.map Json.path)])

/-! ### The settings on disk -/

/-- The settings of the file, or the usual ones if there is none. -/
def load (home : Option Path) (d : Disk) : Except ConfigError Config :=
  let path := configPath home
  if d.isPresent path then
    match d.readText path with
    | .error _ => .error (.unreadable path)
    | .ok text =>
      match ofText? text with
      | some config => .ok config
      | none => .error (.malformed path)
  else .ok {}

/-- The settings are written to their file.  The disk is changed as far as the work came. -/
def save (home : Option Path) (c : Config) (d : Disk) : Except ConfigError Unit × Disk :=
  let dir := dataDir home
  match d.makeFolders dir with
  | .error _ => (.error (.noDataDir dir), d)
  | .ok d =>
    match c.text? with
    | none => (.error .tooLarge, d)
    | some text =>
      match d.write (configPath home) (.bytes text.toUTF8) Disk.fileMode with
      | .error _ => (.error (.unwritable (configPath home)), d)
      | .ok d => (.ok (), d)

/-- A list of folders is made, up to the first that cannot be made. -/
def makeEach : List Path → Disk → Except ConfigError Unit × Disk
  | [], d => (.ok (), d)
  | dir :: dirs, d =>
    match d.makeFolders dir with
    | .error _ => (.error (.noFolder dir), d)
    | .ok d => makeEach dirs d

/-- The directories of the program are made. -/
def makeFolders (home : Option Path) (d : Disk) : Except ConfigError Unit × Disk :=
  makeEach [dataDir home, logsDir home] d

end Config

end Reclaim
