import Reclaim.App.TrashFolder
import Reclaim.CommandLine.Help
import Reclaim.Config
import Reclaim.Report.Apps
import Reclaim.Report.Clean
import Reclaim.Report.Maintenance
import Reclaim.Report.Scan

/-!
# Running the program

A run takes a command line, the text on standard input and a machine, and gives an exit code, what
is printed, and the machine afterwards.  A failure ends the run, and what was printed and done
before stays.

## Main definitions

* `CommandLine.Failure` : why a task was given up.
* `CommandLine.Action` : work that prints, reads and changes the machine, and may be given up.
* `CommandLine.perform` : a task.
* `CommandLine.run` : a whole run.
-/

namespace Reclaim.CommandLine

/-- Why a task was given up. -/
inductive Failure where
  | config (error : ConfigError)
  /-- The directory of the applications cannot be listed. -/
  | listing (dir : Path)
  | app (error : AppError)
  /-- No password was given. -/
  | noPassword
  /-- The password is not text. -/
  | unreadablePassword
  /-- The answer to a question is not text. -/
  | unreadableAnswer
  /-- The file for the messages of the day cannot be opened, which ends the program on the spot. -/
  | unopenedMessages
  deriving DecidableEq, Repr

/-- The text of a failure. -/
def Failure.message : Failure → String
  | .config e => e.message
  | .listing dir => "Failed to list " ++ dir.text
  | .app e => e.message
  | .noPassword => "No password given on stdin"
  | .unreadablePassword => "Failed to read password from stdin"
  | .unreadableAnswer => FileError.notText.message
  | .unopenedMessages => "initializing rolling file appender failed"

/-- The exit code of a run that was given up. -/
def Failure.exitCode : Failure → Nat
  | .unopenedMessages => 101
  | _ => 1

/-- The line that is printed as an error when a run was given up.  A program that ends on the spot
prints none. -/
def Failure.line? : Failure → Option String
  | .unopenedMessages => none
  | e => some ("Error: " ++ e.message)

/-- What a run knows of its surroundings. -/
structure Surroundings where
  home : Option Path
  /-- The output may have colours. -/
  color : Bool := false
  /-- How long it takes to read the disk. -/
  seconds : Double := .finite false 0 0
  /-- The date, as it stands in the name of the message file of the day. -/
  today : String := "1970-01-01"
  /-- What the work on a task that writes messages writes into the message file. -/
  messages : ByteArray := .empty

/-- What a run works on. -/
structure Console where
  machine : Machine
  /-- What is left of the standard input. -/
  input : List UInt8 := []
  output : String := ""

/-- Work that prints, reads and changes the machine, and may be given up. -/
abbrev Action := ExceptT Failure (StateM Console)

namespace Action

/-- A text is printed. -/
def print (text : String) : Action Unit :=
  modify fun c => { c with output := c.output ++ text }

/-- A line is printed. -/
def line (text : String) : Action Unit :=
  print (text ++ "\n")

/-- The files of the machine. -/
def disk : Action Disk := do
  return (← get).machine.disk

/-- The files of the machine are replaced. -/
def setDisk (d : Disk) : Action Unit :=
  modify fun c => { c with machine := { c.machine with disk := d } }

/-- The rest of the next line of the input with its end, if it is text. -/
def readLine : Action (Option String) := do
  let bytes := (← get).input
  let front := bytes.takeWhile (· != 10)
  let taken := min (front.length + 1) bytes.length
  modify fun c => { c with input := bytes.drop taken }
  return Text.decode? ⟨(bytes.take taken).toArray⟩

/-- A result that may be a failure. -/
def orFail {ε α : Type} (failure : ε → Failure) : Except ε α → Action α
  | .ok a => pure a
  | .error e => throw (failure e)

/-- The settings. -/
def config (s : Surroundings) : Action Config := do
  orFail .config (Config.load s.home (← disk))

/-- A change of the files that may fail with a settings error. -/
def changing (change : Disk → Except ConfigError Unit × Disk) : Action Unit := do
  let (result, d) := change (← disk)
  setDisk d
  orFail .config result

/-- Work on a station with the given store. -/
def atStation {α : Type} (store : CredentialStore) (work : Station → α × Station) : Action α := do
  let (a, station) := work { machine := (← get).machine, store }
  modify fun c => { c with machine := station.machine }
  return a

/-- The user answers a question with yes. -/
def confirm (question : String) : Action Bool := do
  print ("  ❓ " ++ question ++ " [y/N] ")
  match ← readLine with
  | some answer => return Text.sameAscii (Text.trim answer) "y"
  | none => throw .unreadableAnswer

/-- The user agreed beforehand, or agrees when asked. -/
def agrees (agreed : Bool) (ask : Action Bool) : Action Bool :=
  if agreed then pure true else ask

end Action

/-- The work of one task with the given surroundings and arguments. -/
structure Job where
  surroundings : Surroundings
  arguments : Arguments

namespace Job

open CommandLine.Action

/-- How results are shown. -/
def look (j : Job) : Look where
  color := j.surroundings.color && !j.arguments.noColor
  home := j.surroundings.home

/-- The home directory. -/
def home (j : Job) : Option Path :=
  j.surroundings.home

/-- A result in the format that is asked for. -/
def present (j : Job) (data : Json) (brief human : String) : Action Unit :=
  match j.arguments.format with
  | .human => print human
  | .json => line data.pretty
  | .quiet => print brief

/-- The store of the program with the secret of its file. -/
def openStore (j : Job) (config : Config) : Action CredentialStore := do
  return .opened (Config.credentialPath j.home) config.persistCredential (← disk)

/-- The rule for administrator rights. -/
def elevator (config : Config) : Elevator :=
  { consentFallback := config.consentFallback }

/-- What can be reclaimed is measured. -/
def scan (j : Job) : Action Unit := do
  let config ← config j.surroundings
  let catalog := Catalog.forUser j.home config.extraUserPaths
  let scanner := Scanner.ofCatalog catalog config.progressEvery
  let d ← disk
  let (result, _, _) := scanner.run j.home j.surroundings.seconds d {}
  j.present result.json result.brief (result.report j.look catalog d)

/-- The line for a question that was not answered with yes. -/
def cancelled (j : Job) : Action Unit :=
  line ("  " ++ j.look.cross ++ " Cancelled")

/-- What can be reclaimed is deleted. -/
def clean (j : Job) (yes : Bool) : Action Unit := do
  let config ← config j.surroundings
  if ← agrees yes (confirm "Clear caches and logs? This cannot be undone.") then
    let catalog := Catalog.forUser j.home config.extraUserPaths
    let cleaner : Cleaner := ⟨catalog, elevator config⟩
    let outcome ← atStation (← j.openStore config) (cleaner.runOn j.home Disk.isPresent)
    j.present outcome.json outcome.brief (outcome.report j.look)
  else j.cancelled

/-- The lines that tell why a text means no application. -/
def unpickedLines (look : Look) (name : String) : Inventory.Unpicked → List String
  | .unknown => ["  No app found matching '" ++ name ++ "'"]
  | .ambiguous apps =>
    ("  Multiple apps match '" ++ name ++ "'. Be more specific:") ::
      apps.map fun app => "    " ++ look.dimmed "•" ++ " " ++ app.name

/-- The inventory of the applications. -/
def inventory (j : Job) (config : Config) : Action Inventory := do
  if j.arguments.format == .human && !j.arguments.quiet then
    line ""
    line "  🔍 Scanning applications..."
  let (result, inventory) := ({ dir := config.applicationsDir } : Inventory).scan (← disk)
  discard (orFail (fun _ => .listing config.applicationsDir) result)
  return inventory

/-- Applications in an order: by name, capitals aside, or the largest first. -/
def sorted (sort : AppSort) (apps : List AppRecord) : List AppRecord :=
  match sort with
  | .name => apps.mergeSort AppRecord.sortsBefore
  | .size =>
    let weight (app : AppRecord) : Nat := (app.sizeBytes.map (· + 1)).getD 0
    apps.mergeSort fun a b => weight b ≤ weight a

/-- The applications are listed. -/
def appsList (j : Job) (sort : AppSort) : Action Unit := do
  let inventory ← j.inventory (← config j.surroundings)
  let apps := sorted sort inventory.apps.value
  j.present (.array (apps.map AppRecord.json)) (AppRecord.briefList apps)
    (AppRecord.listReport j.look apps)

/-- The rule by which applications are uninstalled. -/
def remover (j : Job) : Remover :=
  ⟨Remover.libraryOf j.home, Trash.ofUser j.home⟩

/-- Work on the application that a text means, with the plan for its removal. -/
def withApp (j : Job) (name : String) (work : AppRecord → RemovalPlan → Removing → Action Unit) :
    Action Unit := do
  let inventory ← j.inventory (← config j.surroundings)
  match inventory.pick name with
  | .error reason => print (page (unpickedLines j.look name reason))
  | .ok app =>
    let state : Removing := { disk := ← disk, inventory, signals := {} }
    work app (← orFail .app (j.remover.plan app state)) state

/-- One application is shown. -/
def appsInfo (j : Job) (name : String) : Action Unit :=
  j.withApp name fun app plan _ =>
    let full := plan.infoReport j.look app
    j.present plan.json full full

/-- The user agrees to the removal of an application. -/
def confirmRemoval (j : Job) (app : AppRecord) (plan : RemovalPlan) : Action Bool := do
  print (plan.infoReport j.look app)
  confirm ("Move '" ++ app.name ++ "' and its leftover files (" ++ Amount.size plan.totalBytes ++
    ") to the Trash?")

/-- One application is uninstalled. -/
def appsRemove (j : Job) (name : String) (dryRun yes : Bool) : Action Unit :=
  j.withApp name fun app plan state => do
    if dryRun then
      let full := plan.dryReport j.look
      j.present plan.json full full
    else if ← agrees yes (j.confirmRemoval app plan) then
      let (result, state) := j.remover.run j.home app state
      setDisk state.disk
      let report ← orFail .app result
      j.present report.json report.brief (report.report j.look)
    else j.cancelled

/-- Maintenance is done. -/
def optimize (j : Job) : Action Unit := do
  let config ← config j.surroundings
  let report ← atStation (← j.openStore config) fun s =>
    Maintenance.run (elevator config) MaintenanceStep.standard s
  j.present report.json report.brief (report.report j.look)

/-- A password is read and kept. -/
def authLogin (j : Job) : Action Unit := do
  let config ← config j.surroundings
  let store ← j.openStore config
  match ← readLine with
  | none => throw .unreadablePassword
  | some text =>
    let secret := Text.trimEnd (fun c => c == '\r' || c == '\n') text
    if secret = "" then throw .noPassword
    setDisk (store.set ⟨secret⟩ (← disk)).2
    if config.persistCredential then
      line ("  " ++ j.look.tick ++ " Password cached at " ++ j.look.path store.path)
    else
      line ("  " ++ j.look.warning ++
        " persist_credential is off; the password will not outlive this process")

/-- The password is forgotten. -/
def authLogout (j : Job) : Action Unit := do
  let store ← j.openStore (← config j.surroundings)
  setDisk (store.clear (← disk)).2
  line ("  " ++ j.look.tick ++ " Cached password removed")

/-- It is shown whether there is a password. -/
def authStatus (j : Job) : Action Unit := do
  let config ← config j.surroundings
  let store ← j.openStore config
  let cached := store.cached.isSome
  let data : Json := .object [("cached", .boolean cached), ("path", .path store.path),
    ("persist", .boolean config.persistCredential)]
  j.present data (page [if cached then "cached" else "none"])
    (page [if cached then "  🔓 Password cached (" ++ j.look.path store.path ++ ")"
      else "  🔒 No password cached. Run " ++ j.look.tinted .cyan "mole auth login"])

/-- The directories and the settings are made. -/
def configInit (j : Job) : Action Unit := do
  changing (Config.makeFolders j.home)
  changing (Config.save j.home {})
  line ("  " ++ j.look.tick ++ " Mole initialized at ~/.mole")
  line "  Created: config.toml, logs/"

/-- The settings are shown. -/
def configShow (j : Job) : Action Unit := do
  match (← config j.surroundings).text? with
  | some text => line text
  | none => throw (.config .tooLarge)

/-- The usual settings are written. -/
def configReset (j : Job) : Action Unit := do
  changing (Config.save j.home {})
  line ("  " ++ j.look.tick ++ " Configuration reset to defaults")

/-- The task of the arguments. -/
def perform (j : Job) : Action Unit :=
  match j.arguments.task with
  | .scan => j.scan
  | .clean yes => j.clean yes
  | .appsList sort => j.appsList sort
  | .appsInfo name => j.appsInfo name
  | .appsRemove name dryRun yes => j.appsRemove name dryRun yes
  | .optimize => j.optimize
  | .authLogin => j.authLogin
  | .authLogout => j.authLogout
  | .authStatus => j.authStatus
  | .configShow => j.configShow
  | .configReset => j.configReset
  | .configInit => j.configInit
  | .configPath => line (Config.configPath j.home).text
  | .completions shell => print shell.script

/-- The file for the messages of the day. -/
def messagesPath (j : Job) : Path :=
  (Config.logsDir j.home).child ("mole.log." ++ j.surroundings.today)

/-- What is written into the message file.  The settings are shown and changed without a message,
and so is the state of the secret. -/
def messages (j : Job) : ByteArray :=
  match j.arguments.task with
  | .authStatus | .configShow | .configReset | .configInit | .configPath | .completions _ => .empty
  | _ => j.surroundings.messages

/-- If the settings ask for messages in a file, the directory of the message files is made and the
file of the day is opened.  Without the directory there are no messages, but a file that cannot be
opened ends the program. -/
def prepare (j : Job) : Action Unit := do
  match Config.load j.home (← disk) with
  | .ok config =>
    if config.logToFile then
      match (← disk).makeFolders (Config.logsDir j.home) with
      | .ok d =>
        setDisk d
        setDisk (← orFail (fun _ => .unopenedMessages)
          (d.append j.messagesPath j.messages))
      | .error _ => pure ()
  | .error _ => pure ()

end Job

/-- How a run ends. -/
structure Finish where
  exitCode : Nat
  output : String
  /-- What is printed as an error. -/
  error : Option String
  deriving DecidableEq, Repr

/-- A whole run. -/
def run (s : Surroundings) (texts : List String) (input : List UInt8) (m : Machine) :
    Finish × Machine :=
  match Arguments.parse texts with
  | .error e =>
    if e.exitCode = 0 then (⟨0, e.text, none⟩, m) else (⟨e.exitCode, "", some e.text⟩, m)
  | .ok arguments =>
    let job : Job := ⟨s, arguments⟩
    let (result, c) := (do job.prepare; job.perform : Action Unit).run { machine := m, input }
    match result with
    | .ok () => (⟨0, c.output, none⟩, c.machine)
    | .error e => (⟨e.exitCode, c.output, e.line?⟩, c.machine)

end Reclaim.CommandLine
