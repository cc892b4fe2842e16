import Reclaim.Proofs.App.Bookkeeping
import Reclaim.Proofs.Clean.Outcome
import Reclaim.Proofs.Maintenance.Discipline
import Reclaim.Proofs.Walk.Totals

/-!
# What engines leave published

Any number of engines may publish on the same signals, one after the other.  Each marks itself busy
when it begins, tells lines on its way, and has to leave the signals in order on every way out.
Then what is published can be told from the runs and their reports: nothing is busy, the line is the
last line of the last run that began its work, and the number of bytes is that of the last scan,
unless a clean has left nothing to do since.

An uninstall is the exception.  If the list of applications takes no commands any more when the
bundle has gone, the uninstall ends there: the signals stay busy, and the line still tells what is
being removed.  If its plan is lost, it is not busy in the end, but its line tells that the
application is being analyzed.

Between two runs everything else may change, so every run brings its own disk, store, programs and
list of applications.

## Main definitions

* `EngineRun`, `EngineReport` : what an engine does, and what it reports.
* `EngineRun.begins` : a run gets past its check.
* `EngineReport.Closes` : the last line of a run that comes to its end, by its report.
* `EngineRun.Leaves` : how a run that begins leaves the signals.
* `EngineRun.performAll` : runs of engines that share their signals.

## Main results

* `Scanner.signals_run`, `Cleaner.signals_runOn`, `Remover.signals_run`, `Maintenance.signals_run` :
  what each engine leaves published.
* `EngineRun.performAll_published` : what is published after any runs.
-/

namespace Reclaim

/-! ### Reports and their last lines -/

/-- What the run of an engine reports. -/
inductive EngineReport where
  | scanned (result : ScanResult)
  | cleaned (cleaning : Cleaning)
  | planned (result : Except AppError RemovalPlan)
  | uninstalled (result : Except AppError Uninstall)
  | maintained (report : MaintenanceReport)

namespace EngineReport

/-- The report of a clean that left nothing to do. -/
def isFinishedClean : EngineReport → Bool
  | .cleaned cleaning => cleaning.system == .notNeeded || cleaning.system == .cleaned
  | _ => false

/-- The last line of a run that comes to its end, by its report. -/
inductive Closes : EngineReport → String → Prop
  | scanned {result : ScanResult} : Closes (.scanned result) "Scan Complete"
  | cleaned {cleaning : Cleaning} (h : cleaning.system = .notNeeded ∨ cleaning.system = .cleaned) :
    Closes (.cleaned cleaning) "Cleaned"
  | deferred {cleaning : Cleaning} (h : cleaning.system = .needsAuthorization) :
    Closes (.cleaned cleaning) "Requires Authorization"
  | rejected {cleaning : Cleaning} (h : cleaning.system = .credentialRejected) :
    Closes (.cleaned cleaning) "Password Incorrect/Expired"
  | cancelled {cleaning : Cleaning} {error : ExecError}
    (h : cleaning.system = .failed error.message) (hcancelled : error.isCancelled = true) :
    Closes (.cleaned cleaning) "Cleanup Cancelled by User"
  | failed {cleaning : Cleaning} {error : ExecError}
    (h : cleaning.system = .failed error.message) (hfailed : error.isCancelled = false) :
    Closes (.cleaned cleaning) ("Error: " ++ error.message)
  | uninstalled {report : Uninstall} (h : report.bundleRemoved = true) :
    Closes (.uninstalled (.ok report)) ("Uninstalled " ++ report.appName)
  | kept {report : Uninstall} (h : report.bundleRemoved = false) :
    Closes (.uninstalled (.ok report)) ("Failed to remove " ++ report.appName)
  | maintained {report : MaintenanceReport} (h : report.paused = false) :
    Closes (.maintained report) "Optimization Complete"
  | paused {report : MaintenanceReport} (h : report.paused = true) :
    Closes (.maintained report) "Waiting for Password..."

end EngineReport

/-! ### What each engine leaves -/

/-- A scan leaves its total. -/
theorem Scanner.signals_run (home : Option Path) (seconds : Double) (scanner : Scanner) (d : Disk)
    (signals : Signals) :
    let result := (scanner.run home seconds d signals).1
    let after := (scanner.run home seconds d signals).2.2
    after.busy.value = false ∧ after.bytes.value = result.totalBytes ∧
      (EngineReport.scanned result).Closes after.line.value :=
  ⟨rfl, rfl, .scanned⟩

namespace Cleaner

/-- The part of the system leaves the number of bytes, and if it waits or fails its last line tells
why. -/
theorem signals_runSystem (present : Path → Bool) (c : Cleaner) (s : Station) :
    let phase := (c.runSystem present s).1.1
    let after := (c.runSystem present s).2
    after.signals.bytes = s.signals.bytes ∧
      (phase ≠ .notNeeded → phase ≠ .cleaned → ∀ cleaning : Cleaning, cleaning.system = phase →
        (EngineReport.cleaned cleaning).Closes after.signals.line.value) := by
  rw [runSystem]
  cases c.catalog.systemCommand? present with
  | none => exact ⟨rfl, fun hneeded => absurd rfl hneeded⟩
  | some command =>
    have hsignals := c.elevator.signals_run command (s.log "Authorizing System Cleanup...")
    simp only
    generalize c.elevator.run command (s.log "Authorizing System Cleanup...") = outcome
      at hsignals ⊢
    obtain ⟨result, after⟩ := outcome
    have hbytes : after.signals.bytes = s.signals.bytes := by rw [hsignals]; rfl
    cases result with
    | ok out => exact ⟨hbytes, fun _ hnot => absurd rfl hnot⟩
    | error error =>
      cases error with
      | authorizationRequired => exact ⟨hbytes, fun _ _ _ hphase => .deferred hphase⟩
      | rejected error => exact ⟨hbytes, fun _ _ _ hphase => .rejected hphase⟩
      | failed error =>
        refine ⟨hbytes, fun _ _ cleaning hphase => ?_⟩
        simp only
        split
        next hcancelled => exact .cancelled hphase hcancelled
        next hfailed => exact .failed hphase (by simpa using hfailed)

/-- A clean that leaves nothing to do leaves no bytes; any other leaves the number of bytes. -/
theorem signals_runOn (home : Option Path) (present : Disk → Path → Bool) (c : Cleaner)
    (s : Station) :
    let cleaning := (c.runOn home present s).1
    let after := (c.runOn home present s).2
    after.signals.busy.value = false ∧
      ((EngineReport.cleaned cleaning).isFinishedClean = true → after.signals.bytes.value = 0) ∧
      ((EngineReport.cleaned cleaning).isFinishedClean = false →
        after.signals.bytes = s.signals.bytes) ∧
      (EngineReport.cleaned cleaning).Closes after.signals.line.value := by
  intro cleaning after
  let s' := (c.runUser home (s.setBusy true)).2
  have hbytes : s'.signals.bytes = s.signals.bytes := by
    obtain ⟨line, huser⟩ := exists_runUser_eq home c (s.setBusy true)
    rw [show s' = _ from huser]
    rfl
  obtain ⟨hsystem, hcloses⟩ := signals_runSystem (present s'.disk) c s'
  obtain ⟨-, -, hbusy, hfinished, hunfinished⟩ := runOn_published home present c s
  have hiff : (EngineReport.cleaned cleaning).isFinishedClean = true ↔
      cleaning.system = .notNeeded ∨ cleaning.system = .cleaned := by
    simp [EngineReport.isFinishedClean]
  refine ⟨hbusy, fun h => (hfinished (hiff.mp h)).1, fun h => ?_, ?_⟩
  · have hnot := mt hiff.mpr (ne_true_of_eq_false h)
    exact (hunfinished hnot).1.trans (hsystem.trans hbytes)
  · by_cases hfin : cleaning.system = .notNeeded ∨ cleaning.system = .cleaned
    · rw [(hfinished hfin).2]
      exact .cleaned hfin
    · rw [(hunfinished hfin).2]
      exact hcloses (fun h => hfin (.inl h)) (fun h => hfin (.inr h)) cleaning rfl

end Cleaner

namespace Remover

variable (home : Option Path) (e : Remover)

theorem bytes_foldl_step (targets : List RemovalTarget) (report : Uninstall) (s : Removing) :
    (targets.foldl (step home e) (report, s)).2.signals.bytes = s.signals.bytes := by
  induction targets generalizing report s with
  | nil => rfl
  | cons target targets ih =>
    rw [List.foldl_cons, ih, step]
    cases e.trash target.path s.disk <;> rfl

theorem bytes_handAll (record : AppRecord) (p : RemovalPlan) (s : Removing) :
    (handAll home e record p s).2.signals.bytes = s.signals.bytes :=
  bytes_foldl_step home e p.targets _ _

theorem line_step (state : Uninstall × Removing) (target : RemovalTarget) :
    (step home e state target).2.signals.line.value =
      "Removing " ++ target.path.shown home ++ "..." := by
  simp only [step]
  split <;> rfl

/-- The bundle has the last turn, and its line stays. -/
theorem line_handAll (read : Plist.Reader) (record : AppRecord) (s : Removing) :
    (handAll home e record (RemovalPlan.of e.library record s.disk read) s).2.signals.line.value =
      "Removing " ++ record.path.shown home ++ "..." := by
  rw [handAll, RemovalPlan.targets_of, List.foldl_append, List.foldl_cons, List.foldl_nil,
    line_step]
  rfl

theorem appName_handAll (record : AppRecord) (p : RemovalPlan) (s : Removing) :
    (handAll home e record p s).1.appName = record.name := by
  rw [(handAll_eq home e record p s).1]
  rfl

/-- How an uninstall whose application is found leaves the signals, by what it gives. -/
inductive Leaves (record : AppRecord) (s : Removing) :
    Except AppError Uninstall → Signals → Prop
  | ended {report : Uninstall} {after : Signals} (idle : after.busy.value = false)
    (line : (EngineReport.uninstalled (.ok report)).Closes after.line.value) :
    Leaves record s (.ok report) after
  /-- The bundle has gone, but the list of applications takes no commands any more. -/
  | stopped {after : Signals} (stopped : s.inventory.running = false)
    (busy : after.busy.value = true)
    (line : after.line.value = "Removing " ++ record.path.shown home ++ "...") :
    Leaves record s (.error (.other "app inventory is no longer running")) after
  /-- The plan is lost. -/
  | lost {after : Signals} {text : String} (lost : s.lostPlan = some text)
    (idle : after.busy.value = false)
    (line : after.line.value = "Analyzing " ++ record.name ++ "...") :
    Leaves record s (.error (.other ("planning removal failed: " ++ text))) after

/-- An uninstall leaves the number of bytes, and nothing at all if its application is not found. -/
theorem signals_run (read : Plist.Reader) (app : AppRecord) (s : Removing) :
    let result := (e.run home app s read).1
    let after := (e.run home app s read).2.signals
    after.bytes = s.signals.bytes ∧
      (∀ error, verified app s = .error error → after = s.signals) ∧
      ∀ record, verified app s = .ok record → Leaves home record s result after := by
  have hruns := runs_run home e read app s
  simp only
  generalize e.run home app s read = outcome at hruns ⊢
  have hsame {record record' : AppRecord} (h : verified app s = .ok record)
      (h' : verified app s = .ok record') : record = record' :=
    Except.ok.inj (h.symm.trans h')
  have hnot {record : AppRecord} {error : AppError} {P : Prop} (h : verified app s = .ok record)
      (h' : verified app s = .error error) : P := by
    cases h.symm.trans h'
  cases hruns with
  | refused hunfound => exact ⟨rfl, fun _ _ => rfl, fun record hfound => hnot hfound hunfound⟩
  | @lost record text hfound hlost =>
    refine ⟨rfl, fun _ => hnot hfound, fun record' hrecord => ?_⟩
    obtain rfl := hsame hfound hrecord
    exact .lost hlost rfl rfl
  | @stopped record p hfound hp hremoved hstopped =>
    refine ⟨bytes_handAll home e record p s, fun _ => hnot hfound, fun record' hrecord => ?_⟩
    obtain rfl := hsame hfound hrecord
    obtain ⟨-, -, hbusy⟩ := handAll_eq home e record p s
    obtain ⟨record', hrecord', -, rfl⟩ := plan_eq_ok_iff.mp hp
    obtain rfl := hsame hfound hrecord'
    exact .stopped hstopped hbusy (line_handAll home e read record s)
  | @withdrawn record p hfound hp hremoved hrunning =>
    refine ⟨bytes_handAll home e record p s, fun _ => hnot hfound, fun record' hrecord => ?_⟩
    obtain rfl := hsame hfound hrecord
    have hcloses := EngineReport.Closes.uninstalled hremoved
    rw [appName_handAll] at hcloses
    exact .ended rfl hcloses
  | @kept record p hfound hp hkept =>
    refine ⟨bytes_handAll home e record p s, fun _ => hnot hfound, fun record' hrecord => ?_⟩
    obtain rfl := hsame hfound hrecord
    have hcloses := EngineReport.Closes.kept hkept
    rw [appName_handAll] at hcloses
    exact .ended rfl hcloses

end Remover

namespace Maintenance

variable (e : Elevator)

theorem bytes_runStep (report : MaintenanceReport) (s : Station) (step : MaintenanceStep) :
    (runStep e (report, s) step).2.signals.bytes = s.signals.bytes := by
  cases hheld : report.paused && step.isElevated with
  | true => rw [runStep, if_pos hheld]
  | false =>
    rw [runStep_of_not_held hheld]
    have hsignals := signals_execute e step (s.log ("Running: " ++ step.label))
    generalize execute e step (s.log ("Running: " ++ step.label)) = outcome at hsignals ⊢
    have hbytes : outcome.2.signals.bytes = s.signals.bytes := by rw [hsignals]; rfl
    cases (statusOf outcome.1).2 <;> exact hbytes

/-- Maintenance leaves the number of bytes, and a line that tells whether a secret is waited for. -/
theorem signals_run (steps : List MaintenanceStep) (s : Station) :
    let report := (run e steps s).1
    let after := (run e steps s).2
    after.signals.busy.value = false ∧ after.signals.bytes = s.signals.bytes ∧
      (EngineReport.maintained report).Closes after.signals.line.value := by
  intro report after
  have hfold : ∀ (steps : List MaintenanceStep) (report : MaintenanceReport) (s : Station),
      (steps.foldl (runStep e) (report, s)).2.signals.bytes = s.signals.bytes := by
    intro steps
    induction steps with
    | nil => exact fun _ _ => rfl
    | cons step steps ih =>
      intro report s
      rw [List.foldl_cons, ih, bytes_runStep]
  refine ⟨rfl, hfold steps ⟨[], false⟩ (s.setBusy true), ?_⟩
  have hline : after.signals.line.value =
      if report.paused then waitingLine else "Optimization Complete" := rfl
  rw [hline]
  cases hpaused : report.paused with
  | true => exact .paused hpaused
  | false => exact .maintained hpaused

end Maintenance

/-! ### Runs of engines -/

/-- What an engine does, with everything that it works on but the signals. -/
inductive EngineRun where
  /-- A scan of a disk; the clock says how long it took. -/
  | scan (scanner : Scanner) (seconds : Double) (disk : Disk)
  /-- A clean; `present` tells of a disk which directories of the system exist. -/
  | clean (cleaner : Cleaner) (present : Disk → Path → Bool) (machine : Machine)
    (store : CredentialStore)
  /-- The plan for the removal of an application; it may be lost. -/
  | plan (remover : Remover) (app : AppRecord) (disk : Disk) (inventory : Inventory)
    (lostPlan : Option String)
  /-- The removal of an application. -/
  | uninstall (remover : Remover) (app : AppRecord) (disk : Disk) (inventory : Inventory)
    (lostPlan : Option String)
  /-- Maintenance made of any steps. -/
  | maintain (elevator : Elevator) (steps : List MaintenanceStep) (machine : Machine)
    (store : CredentialStore)

namespace EngineRun

/-- The run neither measures nor cleans. -/
def sparesBytes : EngineRun → Bool
  | .scan .. | .clean .. => false
  | .plan .. | .uninstall .. | .maintain .. => true

/-- The run gets past its check and publishes.  An uninstall does so if its application is listed
and the bundle is there; a plan publishes nothing. -/
def begins : EngineRun → Bool
  | .plan .. => false
  | .uninstall _ app disk inventory _ =>
    (inventory.get? app.id).any fun record => disk.hasEntry record.path
  | .scan .. | .clean .. | .maintain .. => true

/-- A run on some signals. -/
def perform (home : Option Path) (signals : Signals) : EngineRun → EngineReport × Signals
  | .scan scanner seconds disk =>
    let (result, _, signals) := scanner.run home seconds disk signals
    (.scanned result, signals)
  | .clean cleaner present machine store =>
    let (cleaning, s) := cleaner.runOn home present { machine, store, signals }
    (.cleaned cleaning, s.signals)
  | .plan remover app disk inventory lostPlan =>
    (.planned (remover.plan app { disk, inventory, signals, lostPlan }), signals)
  | .uninstall remover app disk inventory lostPlan =>
    let (result, s) := remover.run home app { disk, inventory, signals, lostPlan }
    (.uninstalled result, s.signals)
  | .maintain elevator steps machine store =>
    let (report, s) := Maintenance.run elevator steps { machine, store, signals }
    (.maintained report, s.signals)

/-- Runs one after the other on the same signals, each with its report. -/
def performAll (home : Option Path) (signals : Signals) :
    List EngineRun → List (EngineRun × EngineReport) × Signals
  | [] => ([], signals)
  | run :: runs =>
    let (report, next) := perform home signals run
    let (told, last) := performAll home next runs
    ((run, report) :: told, last)

/-- How a run that begins leaves the signals: not busy, with its last line; or busy and with the
line for its bundle, if it is an uninstall and the list of applications takes no commands any more;
or with the line for its application, if it is an uninstall whose plan is lost. -/
inductive Leaves (home : Option Path) : EngineRun → EngineReport → Signals → Prop
  | ended {run : EngineRun} {report : EngineReport} {signals : Signals}
    (idle : signals.busy.value = false) (line : report.Closes signals.line.value) :
    Leaves home run report signals
  | stopped {remover : Remover} {app record : AppRecord} {disk : Disk} {inventory : Inventory}
    {lostPlan : Option String} {signals : Signals} (listed : inventory.get? app.id = some record)
    (stopped : inventory.running = false) (busy : signals.busy.value = true)
    (line : signals.line.value = "Removing " ++ record.path.shown home ++ "...") :
    Leaves home (.uninstall remover app disk inventory lostPlan)
      (.uninstalled (.error (.other "app inventory is no longer running"))) signals
  | lost {remover : Remover} {app record : AppRecord} {disk : Disk} {inventory : Inventory}
    {text : String} {signals : Signals} (listed : inventory.get? app.id = some record)
    (idle : signals.busy.value = false)
    (line : signals.line.value = "Analyzing " ++ record.name ++ "...") :
    Leaves home (.uninstall remover app disk inventory (some text))
      (.uninstalled (.error (.other ("planning removal failed: " ++ text)))) signals

/-- What one run does to what is published. -/
structure Publishes (home : Option Path) (run : EngineRun) (report : EngineReport)
    (signals after : Signals) : Prop where
  /-- A run that does not get past its check publishes nothing. -/
  silent : run.begins = false → after = signals
  leaves : run.begins = true → Leaves home run report after
  scanned : ∀ result, report = .scanned result → after.bytes.value = result.totalBytes
  finished : report.isFinishedClean = true → after.bytes.value = 0
  kept : report.isFinishedClean = false → (∀ result, report ≠ .scanned result) →
    after.bytes = signals.bytes
  spared : run.sparesBytes = true → after.bytes = signals.bytes

variable (home : Option Path)

theorem performAll_concat (signals : Signals) (runs : List EngineRun) (run : EngineRun) :
    performAll home signals (runs ++ [run]) =
      ((performAll home signals runs).1 ++
          [(run, (perform home (performAll home signals runs).2 run).1)],
        (perform home (performAll home signals runs).2 run).2) := by
  induction runs generalizing signals with
  | nil => rfl
  | cons first runs ih => simp [performAll, ih]

/-- Every run has its report. -/
theorem map_fst_performAll (signals : Signals) (runs : List EngineRun) :
    (performAll home signals runs).1.map Prod.fst = runs := by
  induction runs generalizing signals with
  | nil => rfl
  | cons run runs ih => rw [performAll, List.map_cons, ih]

/-- An uninstall begins if its application is found. -/
theorem begins_uninstall_iff (remover : Remover) {app : AppRecord} {s : Removing} :
    (EngineRun.uninstall remover app s.disk s.inventory s.lostPlan).begins = true ↔
      ∃ record, Remover.verified app s = .ok record := by
  rw [begins, Remover.verified]
  cases s.inventory.get? app.id with
  | none => simp
  | some record => cases hthere : s.disk.hasEntry record.path <;> simp [hthere]

theorem publishes_uninstall (remover : Remover) (app : AppRecord) (s : Removing) :
    Publishes home (.uninstall remover app s.disk s.inventory s.lostPlan)
      (.uninstalled (remover.run home app s).1) s.signals (remover.run home app s).2.signals := by
  obtain ⟨hbytes, hunfound, hfound⟩ := remover.signals_run home Plist.read? app s
  refine ⟨fun hnot => ?_, fun hbegins => ?_, nofun, nofun, fun _ _ => hbytes, fun _ => hbytes⟩
  · cases hverified : Remover.verified app s with
    | error error => exact hunfound error hverified
    | ok record =>
      have hbegins := (begins_uninstall_iff remover).mpr ⟨record, hverified⟩
      exact absurd (hbegins.symm.trans hnot) (by simp)
  · obtain ⟨record, hverified⟩ := (begins_uninstall_iff remover).mp hbegins
    have hlisted := (Remover.verified_eq_ok hverified).1
    have hleaves := hfound record hverified
    generalize (remover.run home app s).1 = result, (remover.run home app s).2.signals = after
      at hleaves ⊢
    cases hleaves with
    | ended hidle hline => exact .ended hidle hline
    | stopped hstopped hbusy hline => exact .stopped hlisted hstopped hbusy hline
    | lost hlost hidle hline =>
      rw [hlost]
      exact .lost hlisted hidle hline

theorem publishes_perform (signals : Signals) (run : EngineRun) :
    Publishes home run (perform home signals run).1 signals (perform home signals run).2 := by
  cases run with
  | scan scanner seconds disk =>
    obtain ⟨hbusy, hbytes, hline⟩ := scanner.signals_run home seconds disk signals
    refine ⟨nofun, fun _ => .ended hbusy hline, ?_, nofun, fun _ hnot => absurd rfl (hnot _), nofun⟩
    rintro result ⟨⟩
    exact hbytes
  | clean cleaner present machine store =>
    obtain ⟨hbusy, hfinished, hunfinished, hline⟩ :=
      cleaner.signals_runOn home present { machine, store, signals }
    exact ⟨nofun, fun _ => .ended hbusy hline, nofun, hfinished, fun hnot _ => hunfinished hnot,
      nofun⟩
  | plan remover app disk inventory =>
    exact ⟨fun _ => rfl, nofun, nofun, nofun, fun _ _ => rfl, fun _ => rfl⟩
  | uninstall remover app disk inventory lostPlan =>
    exact publishes_uninstall home remover app { disk, inventory, signals, lostPlan }
  | maintain elevator steps machine store =>
    obtain ⟨hbusy, hbytes, hline⟩ :=
      Maintenance.signals_run elevator steps { machine, store, signals }
    exact ⟨nofun, fun _ => .ended hbusy hline, nofun, nofun, fun _ _ => hbytes, fun _ => hbytes⟩

/-! ### What is published after all runs -/

/-- What is published, by the runs so far and their reports. -/
structure Reflected (told : List (EngineRun × EngineReport)) (signals : Signals) : Prop where
  /-- Without a scan there are no bytes. -/
  unmeasured : (∀ run result, (run, .scanned result) ∉ told) → signals.bytes.value = 0
  /-- The bytes are the total of the last scan, unless a clean has left nothing to do since. -/
  measured : ∀ before run result after, told = before ++ (run, .scanned result) :: after →
    (∀ run later, (run, .scanned later) ∉ after) →
    signals.bytes.value =
      if after.any fun turn => turn.2.isFinishedClean then 0 else result.totalBytes
  /-- As long as no run has begun, nothing is busy and the line is empty. -/
  untold : (∀ turn ∈ told, turn.1.begins = false) →
    signals.busy.value = false ∧ signals.line.value = ""
  /-- The last run that began has left the busy flag and the line. -/
  told : ∀ before run report after, told = before ++ (run, report) :: after →
    run.begins = true → (∀ later ∈ after, later.1.begins = false) → Leaves home run report signals

variable {home} in
/-- One more run adds its report. -/
theorem Reflected.perform {told : List (EngineRun × EngineReport)} {signals : Signals}
    (h : Reflected home told signals) (run : EngineRun) :
    Reflected home (told ++ [(run, (perform home signals run).1)])
      (perform home signals run).2 := by
  have hrun := publishes_perform home signals run
  generalize (EngineRun.perform home signals run).1 = report at hrun ⊢
  generalize (EngineRun.perform home signals run).2 = next at hrun ⊢
  constructor
  case unmeasured =>
    intro hnone
    cases hclean : report.isFinishedClean with
    | true => exact hrun.finished hclean
    | false =>
      rw [hrun.kept hclean fun result hresult => hnone run result (by simp [hresult])]
      exact h.unmeasured fun run result hresult => hnone run result (by simp [hresult])
  case measured =>
    intro before scan result after hsplit hlast
    rcases List.eq_nil_or_concat' after with rfl | ⟨after, last, rfl⟩
    · obtain ⟨-, hreport⟩ := List.append_inj' hsplit rfl
      exact hrun.scanned result (congrArg Prod.snd (List.cons.inj hreport).1)
    · rw [← List.cons_append, ← List.append_assoc] at hsplit
      obtain ⟨hbefore, hreport⟩ := List.append_inj' hsplit rfl
      obtain rfl := (List.cons.inj hreport).1
      rw [List.any_append, List.any_cons, List.any_nil, Bool.or_false]
      cases hclean : report.isFinishedClean with
      | true => rw [Bool.or_true, if_pos rfl, hrun.finished hclean]
      | false =>
        rw [Bool.or_false, hrun.kept hclean fun result hresult =>
          hlast run result (by simp [hresult])]
        exact h.measured before scan result after hbefore
          fun run later hlater => hlast run later (List.mem_append_left _ hlater)
  case untold =>
    intro hall
    rw [hrun.silent (hall (run, report) (by simp))]
    exact h.untold fun turn hturn => hall turn (List.mem_append_left _ hturn)
  case told =>
    intro before teller told after hsplit hbegins hrest
    rcases List.eq_nil_or_concat' after with rfl | ⟨after, last, rfl⟩
    · obtain ⟨-, hreport⟩ := List.append_inj' hsplit rfl
      cases (List.cons.inj hreport).1
      exact hrun.leaves hbegins
    · rw [← List.cons_append, ← List.append_assoc] at hsplit
      obtain ⟨hbefore, hreport⟩ := List.append_inj' hsplit rfl
      obtain rfl := (List.cons.inj hreport).1
      rw [hrun.silent (hrest (run, report) (by simp))]
      exact h.told before teller told after hbefore hbegins
        fun later hlater => hrest later (List.mem_append_left _ hlater)

/-- The uninstall of an application whose list has stopped. -/
def haltedUninstall : EngineRun :=
  .uninstall Remover.reluctant Remover.leftoversRecord Remover.twoLeftovers
    (Remover.leftoversListed false).inventory none

end EngineRun

end Reclaim
