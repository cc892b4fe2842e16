import Reclaim.Program.Machine
import Reclaim.Text.Blank
import Reclaim.Text.Lossy
import Reclaim.Text.Quoted

/-!
# Running commands

Commands run as the current user, through a helper that is fed a secret, or through a runner that
asks for consent on the screen.  Nothing is ever tried twice.

## Main definitions

* `Executor` : the programs behind the three ways.
* `Executor.run`, `Executor.runShell` : as the current user.
* `Executor.runWithSecret`, `Executor.runWithConsent` : with administrator rights.
* `consentScript` : a command as a script for the consent runner.
-/

namespace Reclaim

/-- What a successful command wrote. -/
structure Output where
  output : String
  errors : String
  deriving DecidableEq, Repr

/-- Why a command failed. -/
inductive ExecError where
  /-- It ran and did not succeed. -/
  | commandFailed (text : String)
  /-- It could not be started. -/
  | launchFailed (program : String) (error : LaunchError)
  deriving DecidableEq, Repr

namespace ExecError

/-- The text of a failed command. -/
def message : ExecError → String
  | .commandFailed text => text
  | .launchFailed program error => "failed to start '" ++ program ++ "': " ++ error.message

/-- The user dismissed the consent dialog, as far as the text of the failure tells. -/
def isCancelled : ExecError → Bool
  | .commandFailed text => Text.occursIn "User canceled" text || Text.occursIn "-128" text
  | .launchFailed .. => false

end ExecError

/-! ### Scripts for the consent runner -/

/-- A text with something else in place of each of its characters `c`. -/
def replaceChar (c : Char) (written text : List Char) : List Char :=
  text.flatMap fun x => if x = c then written else [x]

/-- A command inside the quotes of a script: its backslashes are doubled, and then every quote gets
a backslash in front. -/
def escapeForScript (command : List Char) : List Char :=
  replaceChar '\x22' ['\\', '\x22'] (replaceChar '\\' ['\\', '\\'] command)

/-- A command as a script that asks for administrator rights. -/
def consentScript (command : String) : String :=
  "do shell script \"" ++ String.ofList (escapeForScript command.toList) ++
    "\" with administrator privileges"

/-! ### The executor -/

/-- The programs that commands are run with. -/
structure Executor where
  /-- The helper that reads a secret. -/
  helper : Path := ⟨"/usr/bin/sudo"⟩
  /-- Arguments in front of the helper's own. -/
  helperArguments : List String := []
  /-- The runner that asks for consent. -/
  consent : Path := ⟨"/usr/bin/osascript"⟩
  /-- The shell that reads commands. -/
  shell : Path := ⟨"/bin/bash"⟩
  deriving DecidableEq, Repr

namespace Executor

/-- What is shown of an executor. -/
def description (x : Executor) : String :=
  "Executor \x7b paths: ExecutorPaths \x7b sudo: " ++ Text.inQuotes x.helper.text ++
    ", sudo_prefix: [" ++ String.intercalate ", " (x.helperArguments.map Text.inQuotes) ++
    "], osascript: " ++ Text.inQuotes x.consent.text ++
    ", shell: " ++ Text.inQuotes x.shell.text ++ " \x7d \x7d"

/-- Bytes written by a program as text. -/
def outputOf (o : Outcome) : Output :=
  ⟨Text.decodeLossy o.output, Text.decodeLossy o.errors⟩

/-- A program is run without input; if it does not succeed, all that it wrote is the error. -/
def run (program : String) (arguments : List String) (m : Machine) :
    Except ExecError Output × Machine :=
  match m.launch ⟨program, arguments, ""⟩ with
  | (.error e, m) => (.error (.launchFailed program e), m)
  | (.ok outcome, m) =>
    let out := outputOf outcome
    if outcome.succeeded then (.ok out, m)
    else (.error (.commandFailed (out.output ++ "\n" ++ out.errors)), m)

/-- A program is called once. -/
theorem run_snd (program : String) (arguments : List String) (m : Machine) :
    (run program arguments m).2 = (m.launch ⟨program, arguments, ""⟩).2 := by
  simp only [run]
  split
  next he => rw [he]
  next ho => split <;> rw [ho]

/-- A command is read by the shell. -/
def runShell (x : Executor) (command : String) (m : Machine) : Except ExecError Output × Machine :=
  run x.shell.text ["-c", command] m

/-- A command is run with administrator rights after consent on the screen. -/
def runWithConsent (x : Executor) (command : String) (m : Machine) :
    Except ExecError Output × Machine :=
  run x.consent.text ["-e", consentScript command] m

/-- The call of the helper for a command: the secret is a line to read and never an argument. -/
def helperCall (x : Executor) (command secret : String) : Call where
  program := x.helper.text
  arguments := x.helperArguments ++ ["-S", "-p", "", x.shell.text, "-c", command]
  input := secret ++ "\n"

/-- A command is run with administrator rights by the helper.  If it does not succeed, its error
output is the error, or its output if there is no error output. -/
def runWithSecret (x : Executor) (command secret : String) (m : Machine) :
    Except ExecError Output × Machine :=
  match m.launch (x.helperCall command secret) with
  | (.error e, m) => (.error (.launchFailed x.helper.text e), m)
  | (.ok outcome, m) =>
    let out := outputOf outcome
    if outcome.succeeded then (.ok out, m)
    else (.error (.commandFailed (if Text.trim out.errors = "" then out.output else out.errors)), m)

/-- The helper is called once. -/
theorem runWithSecret_snd (x : Executor) (command secret : String) (m : Machine) :
    (x.runWithSecret command secret m).2 = (m.launch (x.helperCall command secret)).2 := by
  simp only [runWithSecret]
  split
  next he => rw [he]
  next ho => split <;> rw [ho]

end Executor

end Reclaim
