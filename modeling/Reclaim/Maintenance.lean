import Reclaim.Authority.Elevator

/-!
# Maintenance

Maintenance is a list of steps run strictly in order.  A step that needs a secret holds back all
later steps with administrator rights, while the other steps still run; any other failure is
reported and the next step follows.

## Main definitions

* `MaintenanceStep`, `MaintenanceStep.standard` : a step, and the usual ones.
* `StepStatus`, `MaintenanceReport` : what became of the steps.
* `Maintenance.run` : the steps in order.
-/

namespace Reclaim

/-- A program run as the current user. -/
structure Invocation where
  program : String
  arguments : List String
  deriving DecidableEq, Repr

/-- What a step does. -/
inductive StepAction where
  /-- One command with administrator rights. -/
  | elevated (command : String)
  /-- Programs in order as the current user. -/
  | user (invocations : List Invocation)
  deriving DecidableEq, Repr

/-- One step of maintenance. -/
structure MaintenanceStep where
  label : String
  action : StepAction
  /-- Failures of the step's programs are not reported. -/
  bestEffort : Bool := false
  deriving DecidableEq, Repr

namespace MaintenanceStep

/-- The step needs administrator rights. -/
def isElevated (s : MaintenanceStep) : Bool :=
  match s.action with
  | .elevated _ => true
  | .user _ => false

/-- The program that registers applications. -/
def registrar : String :=
  "/System/Library/Frameworks/CoreServices.framework/Frameworks/LaunchServices.framework/" ++
    "Support/lsregister"

/-- The usual maintenance. -/
def standard : List MaintenanceStep := [
    { label := "Flushing DNS Cache..."
      action := .elevated
        "/usr/bin/dscacheutil -flushcache; /usr/bin/killall -HUP mDNSResponder" },
    { label := "Purging Inactive Memory...", action := .elevated "/usr/sbin/purge" },
    { label := "Rebuilding Launch Services..."
      action := .user [⟨registrar,
        ["-kill", "-r", "-domain", "local", "-domain", "system", "-domain", "user"]⟩]
      bestEffort := true },
    { label := "Resetting QuickLook..."
      action := .user [⟨"/usr/bin/qlmanage", ["-r", "cache"]⟩, ⟨"/usr/bin/qlmanage", ["-r"]⟩]
      bestEffort := true },
    { label := "Restarting Finder...", action := .user [⟨"/usr/bin/killall", ["Finder"]⟩] }]

end MaintenanceStep

/-- Why a step was not done. -/
inductive StepError where
  | authorizationRequired
  | failed (error : ExecError)
  deriving DecidableEq, Repr

/-- What became of a step. -/
inductive StepStatus where
  | done
  | failed (text : String)
  | cancelled
  /-- The step is held back until a secret is supplied. -/
  | awaitingAuthorization
  deriving DecidableEq, Repr

/-- A step with what became of it. -/
structure StepReport where
  label : String
  status : StepStatus
  deriving DecidableEq, Repr

/-- What became of all steps. -/
structure MaintenanceReport where
  steps : List StepReport
  /-- Steps are held back until a secret is supplied. -/
  paused : Bool
  deriving DecidableEq, Repr

/-- The number of steps that failed. -/
def MaintenanceReport.failures (r : MaintenanceReport) : Nat :=
  r.steps.countP fun step =>
    match step.status with
    | .failed _ => true
    | _ => false

namespace Maintenance

/-- Programs run in order until one fails; with best effort all of them run. -/
def runUser (bestEffort : Bool) : List Invocation → Machine → Except StepError Unit × Machine
  | [], m => (.ok (), m)
  | i :: rest, m =>
    match Executor.run i.program i.arguments m with
    | (.ok _, m) => runUser bestEffort rest m
    | (.error e, m) => if bestEffort then runUser bestEffort rest m else (.error (.failed e), m)

/-- One step is carried out. -/
def execute (e : Elevator) (step : MaintenanceStep) (s : Station) :
    Except StepError Unit × Station :=
  match step.action with
  | .elevated command =>
    match e.run command s with
    | (.ok _, s) => (.ok (), s)
    | (.error (.failed error), s) => (.error (.failed error), s)
    | (.error _, s) => (.error .authorizationRequired, s)
  | .user invocations =>
    let (result, machine) := runUser step.bestEffort invocations s.machine
    (result, { s with machine })

/-- The line shown while a secret is missing. -/
def waitingLine : String := "Waiting for Password..."

/-- What is reported of a step, and the line published if it was not done. -/
def statusOf : Except StepError Unit → StepStatus × Option String
  | .ok () => (.done, none)
  | .error .authorizationRequired => (.awaitingAuthorization, some waitingLine)
  | .error (.failed e) =>
    if e.isCancelled then (.cancelled, some "Optimization Cancelled by User")
    else (.failed e.message, some ("Error: " ++ Text.trim e.message))

/-- One step after those already reported; a step with administrator rights is held back while a
secret is missing. -/
def runStep (e : Elevator) : MaintenanceReport × Station → MaintenanceStep →
    MaintenanceReport × Station
  | (report, s), step =>
    if report.paused && step.isElevated then
      ({ report with steps := report.steps ++ [⟨step.label, .awaitingAuthorization⟩] }, s)
    else
      let (result, s) := execute e step (s.log ("Running: " ++ step.label))
      let (status, line) := statusOf result
      let paused := report.paused || status == .awaitingAuthorization
      (⟨report.steps ++ [⟨step.label, status⟩], paused⟩, (line.map s.log).getD s)

/-- The steps in order. -/
def run (e : Elevator) (steps : List MaintenanceStep) (s : Station) : MaintenanceReport × Station :=
  let (report, s) := steps.foldl (runStep e) (⟨[], false⟩, s.setBusy true)
  let s := s.log (if report.paused then waitingLine else "Optimization Complete")
  (report, s.setBusy false)

end Maintenance

end Reclaim
