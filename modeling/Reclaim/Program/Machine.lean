import Reclaim.Disk.Basic

/-!
# A machine that runs programs

Programs are called with arguments and a text to read; they answer with what they write and how
they end, or cannot be started at all.  A machine keeps its files together with every run so far.
What a program answers may depend on the files and on the runs before it, and is a parameter of the
machine; the usual choice looks the program up among the files.

## Main definitions

* `Call`, `Outcome`, `LaunchError` : a call and its two possible results.
* `Machine`, `Machine.launch` : files, programs and the runs so far.
* `Disk.answer` : the programs that are stored as files.
-/

namespace Reclaim

/-- A program with its arguments and the text that it is given to read. -/
structure Call where
  program : String
  arguments : List String
  input : String := ""
  deriving DecidableEq, Repr

/-- What a program wrote and how it ended. -/
structure Outcome where
  output : ByteArray := .empty
  errors : ByteArray := .empty
  ending : Ending := .exit 0

/-- A program is successful if it ends with the exit code zero. -/
def Outcome.succeeded (o : Outcome) : Bool :=
  o.ending == .exit 0

/-- Why a program could not be started. -/
inductive LaunchError where
  /-- The operating system refused. -/
  | system (errno : Errno)
  /-- The program or an argument holds a NUL. -/
  | nulInText
  deriving DecidableEq, Repr

/-- The text of a failed start. -/
def LaunchError.message : LaunchError → String
  | .system e => e.message
  | .nulInText => "nul byte found in provided data"

/-- A call with its result. -/
structure Run where
  call : Call
  result : Except LaunchError Outcome

/-- What calls give, knowing the files and the runs before. -/
abbrev Programs := Disk → List Run → Call → Except LaunchError Outcome

/-! ### Programs stored as files -/

/-- What is written to a program that expects another line than it was given. -/
def refusal : String := "Sorry, try again.\n"

/-- What a stored program does with its input: one that expects a line turns any other input
down. -/
def Script.answer (s : Script) (input : String) : Outcome :=
  match s.expects with
  | some line =>
    if input = line ++ "\n" then ⟨s.output, s.errors, s.ending⟩
    else { errors := refusal.toUTF8, ending := .exit 1 }
  | none => ⟨s.output, s.errors, s.ending⟩

/-- The bits that permit running a file. -/
def runBits : Nat := 0o111

/-- The stored program that a path leads to, or why it cannot be started.  A name without a slash
is none, as nothing is looked up in a search path. -/
def Disk.script (d : Disk) (program : String) : Except LaunchError Script :=
  if !program.toList.contains '/' then .error (.system .noEntry)
  else match d.status true ⟨program⟩ with
    | .ok (.file mode content) =>
      if mode &&& runBits = 0 then .error (.system .notPermitted)
      else match content with
        | .script s => .ok s
        | .bytes _ => .error (.system .notRunnable)
    | .ok _ => .error (.system .notPermitted)
    | .error (.system e) => .error (.system e)
    | .error _ => .error .nulInText

/-- The text holds a NUL. -/
private def holdsNul (text : String) : Bool :=
  text.toList.contains '\x00'

/-- The programs that are stored as files. -/
def Disk.answer : Programs := fun d _ call =>
  if holdsNul call.program || call.arguments.any holdsNul then .error .nulInText
  else (d.script call.program).map (·.answer call.input)

/-! ### Machines -/

/-- Files, programs and every run so far, the latest at the end. -/
structure Machine where
  disk : Disk := {}
  programs : Programs := Disk.answer
  runs : List Run := []

namespace Machine

/-- A call is made and recorded. -/
def launch (m : Machine) (call : Call) : Except LaunchError Outcome × Machine :=
  let result := m.programs m.disk m.runs call
  (result, { m with runs := m.runs ++ [⟨call, result⟩] })

/-- Calls keep the files. -/
theorem launch_disk (m : Machine) (call : Call) : (m.launch call).2.disk = m.disk := rfl

/-- A call is recorded behind the runs before it. -/
theorem launch_runs (m : Machine) (call : Call) :
    (m.launch call).2.runs = m.runs ++ [⟨call, (m.launch call).1⟩] := rfl

end Machine

end Reclaim
