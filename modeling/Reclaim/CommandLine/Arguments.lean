import Reclaim.CommandLine.Grammar

/-!
# The command line of the program

## Main definitions

* `CommandLine.Task` : what the program is asked to do.
* `CommandLine.Arguments` : a task with how its result is shown.
* `CommandLine.program` : the commands and options that may be written.
* `CommandLine.Arguments.parse` : the arguments of a command line.
-/

namespace Reclaim.CommandLine

/-- How a result is printed. -/
inductive OutputFormat where
  | human
  | json
  | quiet
  deriving DecidableEq, Repr

/-- The order of a list of applications. -/
inductive AppSort where
  | name
  | size
  deriving DecidableEq, Repr

/-- A shell whose completions are asked for. -/
inductive Shell where
  | bash
  | zsh
  | fish
  deriving DecidableEq, Repr

/-- What the program is asked to do. -/
inductive Task where
  | scan
  | clean (yes : Bool)
  | appsList (sort : AppSort)
  | appsInfo (name : String)
  | appsRemove (name : String) (dryRun yes : Bool)
  | optimize
  | authLogin
  | authLogout
  | authStatus
  | configShow
  | configReset
  | configInit
  | configPath
  | completions (shell : Shell)
  deriving DecidableEq, Repr

/-- The task reads a line of the standard input. -/
def Task.reads : Task → Bool
  | .clean yes => !yes
  | .appsRemove _ dryRun yes => !dryRun && !yes
  | .authLogin => true
  | _ => false

/-- A task with how its result is shown. -/
structure Arguments where
  task : Task
  format : OutputFormat := .human
  noColor : Bool := false
  verbose : Bool := false
  quiet : Bool := false
  deriving DecidableEq, Repr

/-! ### What may be written -/

/-- The words for the formats. -/
def formatWords : List (String × OutputFormat) :=
  [("human", .human), ("json", .json), ("quiet", .quiet)]

/-- The words for the orders. -/
def sortWords : List (String × AppSort) :=
  [("name", .name), ("size", .size)]

/-- The words for the shells. -/
def shellWords : List (String × Shell) :=
  [("bash", .bash), ("zsh", .zsh), ("fish", .fish)]

/-- The option that chooses the format. -/
def formatFlag : Flag :=
  { name := "format", effect := .value (formatWords.map Prod.fst) }

/-- The switch that turns colours off. -/
def noColorFlag : Flag :=
  { name := "no-color", effect := .switch }

/-- The switch for messages about the work. -/
def verboseFlag : Flag :=
  { name := "verbose", letter := some 'v', effect := .switch }

/-- The switch for little output. -/
def quietFlag : Flag :=
  { name := "quiet", letter := some 'q', effect := .switch }

/-- The options of every command. -/
def globalFlags : List Flag :=
  [formatFlag, noColorFlag, verboseFlag, quietFlag,
    { name := "help", letter := some 'h', effect := .help }]

/-- The option that chooses the order of a list. -/
def sortFlag : Flag :=
  { name := "sort", effect := .value (sortWords.map Prod.fst) }

/-- The switch for a run that changes nothing. -/
def dryRunFlag : Flag :=
  { name := "dry-run", effect := .switch }

/-- The switch that answers the question beforehand. -/
def yesFlag : Flag :=
  { name := "yes", letter := some 'y', effect := .switch }

/-- A command with commands of its own. -/
private def group (name about : String) (commands : List Command) : Command :=
  .mk name about globalFlags none commands

/-- A command that does something. -/
private def leaf (name about : String) (flags : List Flag) (operand : Option Operand) : Command :=
  .mk name about (flags ++ globalFlags) operand []

/-- The commands and options of the program. -/
def program : Command :=
  .mk "mole" "Reclaim Mac disk space and uninstall apps with their leftovers"
    (globalFlags ++ [{ name := "version", letter := some 'V', effect := .version }]) none [
    leaf "scan" "Measure how much space the cache and log directories hold" [] none,
    leaf "clean" "Clear the cache and log directories" [yesFlag] none,
    group "apps" "List and uninstall applications" [
      leaf "list" "List installed applications" [sortFlag] none,
      leaf "info" "Show details about a specific app" [] (some {}),
      leaf "remove" "Move an application and its leftover files to the Trash"
        [dryRunFlag, yesFlag] (some {})],
    leaf "optimize" "Run maintenance tasks (DNS, memory, Launch Services, QuickLook, Finder)" []
      none,
    group "auth" "Manage the cached administrator password" [
      leaf "login" "Read the administrator password from stdin and cache it" [] none,
      leaf "logout" "Forget the cached password" [] none,
      leaf "status" "Show whether a password is cached" [] none],
    group "config" "Manage configuration" [
      leaf "show" "Show current configuration" [] none,
      leaf "reset" "Reset to default configuration" [] none,
      leaf "init" "Initialize Mole directories and default config" [] none,
      leaf "path" "Print the config file location" [] none],
    leaf "completions" "Generate shell completions" []
      (some { allowed := some (shellWords.map Prod.fst) })]

/-! ### What has been written -/

namespace Reading

/-- The value of an option at the innermost level that has it. -/
def value? (r : Reading) (flag : Flag) : Option String :=
  r.reverse.findSome? fun (_, level) => level.options.lookup flag.name

/-- The switch is on at some level. -/
def isOn (r : Reading) (flag : Flag) : Bool :=
  (value? r flag).isSome

/-- The operand of the innermost command. -/
def operand (r : Reading) : String :=
  (r.getLast?.bind fun (_, level) => level.operand).getD ""

/-- The names of the commands below the program. -/
def names (r : Reading) : List String :=
  (r.drop 1).map Prod.fst

/-- What a value stands for, or the usual if there is none. -/
def choice {α : Type} (words : List (String × α)) (usual : α) (value : Option String) : α :=
  (value.bind fun value => words.lookup value).getD usual

/-- The task of a command line. -/
def task? (r : Reading) : Option Task :=
  match names r with
  | ["scan"] => some .scan
  | ["clean"] => some (.clean (isOn r yesFlag))
  | ["apps", "list"] => some (.appsList (choice sortWords .name (value? r sortFlag)))
  | ["apps", "info"] => some (.appsInfo (operand r))
  | ["apps", "remove"] => some (.appsRemove (operand r) (isOn r dryRunFlag) (isOn r yesFlag))
  | ["optimize"] => some .optimize
  | ["auth", "login"] => some .authLogin
  | ["auth", "logout"] => some .authLogout
  | ["auth", "status"] => some .authStatus
  | ["config", "show"] => some .configShow
  | ["config", "reset"] => some .configReset
  | ["config", "init"] => some .configInit
  | ["config", "path"] => some .configPath
  | ["completions"] => (shellWords.lookup (operand r)).map .completions
  | _ => none

end Reading

namespace Arguments

/-- The arguments that a reading stands for. -/
def ofReading? (r : Reading) : Option Arguments :=
  (Reading.task? r).map fun task => {
    task
    format := Reading.choice formatWords .human (Reading.value? r formatFlag)
    noColor := Reading.isOn r noColorFlag
    verbose := Reading.isOn r verboseFlag
    quiet := Reading.isOn r quietFlag }

/-- The arguments of a command line without the name of the program. -/
def parse (texts : List String) : Except UsageError Arguments := do
  match ofReading? (← program.parse texts) with
  | some arguments => .ok arguments
  | none => .error .invalidCommand

end Arguments

end Reclaim.CommandLine
