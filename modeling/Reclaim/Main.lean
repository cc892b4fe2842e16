import Reclaim.CommandLine.Run

/-!
# The program on the standard streams

The disk is held in memory and starts with an empty home directory, so what a run changes lasts as
long as the run.  Of the standard input one line is read, and only for a task that reads one.

## Main definitions

* `firstDisk` : the disk at the start.
* `main` : the program.
-/

namespace Reclaim

/-- A disk with nothing but a home directory. -/
def firstDisk (home : Option Path) : Disk :=
  match home.map (({} : Disk).makeFolders ·) with
  | some (.ok d) => d
  | _ => {}

/-- The arguments are those of a task that reads a line. -/
def readsLine (texts : List String) : Bool :=
  match CommandLine.Arguments.parse texts with
  | .ok arguments => arguments.task.reads
  | .error _ => false

end Reclaim

open Reclaim in
/-- The program: what it prints goes to the standard output, and a failure to the standard error. -/
def main (texts : List String) : IO UInt32 := do
  let home := ((← IO.getEnv "HOME").filter (· ≠ "")).map Reclaim.Path.mk
  let color := (← (← IO.getStdout).isTty) && (← IO.getEnv "NO_COLOR").isNone
  let line ← if readsLine texts then (← IO.getStdin).getLine else pure ""
  let surroundings : CommandLine.Surroundings := { home, color }
  let (finish, _) :=
    CommandLine.run surroundings texts line.toUTF8.toList { disk := firstDisk home }
  IO.print finish.output
  if let some text := finish.error then IO.eprintln text
  return finish.exitCode.toUInt32
