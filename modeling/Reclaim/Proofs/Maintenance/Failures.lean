import Reclaim.Proofs.Maintenance.Discipline
import Reclaim.Proofs.Text.Cutting

/-!
# What becomes of failures in maintenance

A step of maintenance fails with the error of the last program that it ran: a program of the user
or the consent runner that was not successful, or a helper that could not be started.  A helper that
turned the secret down is no failure; its step waits.  A program of the user leaves no error if its
step is done at best effort.

What is reported of an error depends on nothing but its text.  One that holds a mark of a dismissed
dialog is told as a dismissal, whichever program wrote it, and any other as a failure.  So two rules
hold only in part.  Best effort keeps programs of the user from being reported, but not a command
with administrator rights; and a dismissal is told not only of the consent runner, but also of a
program of the user that happens to write a mark.

## Main definitions

* `ExecError.IsDismissal`, `ExecError.status` : the marks, and what is reported of an error.
* `MaintenanceTurn.error?`, `MaintenanceTurn.lines` : the error of a turn, and what it publishes.
* `Maintenance.Retold` : a run of maintenance turn by turn, with all that it reports and publishes.
* `Elevator.Misses` : a command with administrator rights that came to nothing.

## Main results

* `Maintenance.exists_retold` : every run of maintenance can be retold.
* `Maintenance.run_bestEffort` : what is reported of steps that are done at best effort.
* `Maintenance.run_cancelled` : which steps are told as dismissed.
-/

namespace Reclaim

/-! ### What is reported of an error -/

namespace ExecError

/-- The text holds a mark of a dismissed dialog. -/
def IsDismissal (text : String) : Prop :=
  "User canceled".toList <:+: text.toList ∨ "-128".toList <:+: text.toList

/-- What is reported of a step that fails with the error. -/
def status (error : ExecError) : StepStatus :=
  if error.isCancelled then .cancelled else .failed error.message

variable {error : ExecError}

theorem isCancelled_iff :
    error.isCancelled = true ↔ ∃ text, error = .commandFailed text ∧ IsDismissal text := by
  cases error with
  | commandFailed text => simp [isCancelled, IsDismissal, Text.occursIn_iff]
  | launchFailed program error => simp [isCancelled]

theorem status_eq_cancelled_iff : error.status = .cancelled ↔ error.isCancelled = true := by
  cases h : error.isCancelled <;> simp [status, h]

end ExecError

namespace StepStatus

/-- The step is reported as failed. -/
def isFailed : StepStatus → Bool
  | .failed _ => true
  | _ => false

/-- The step is reported as failed or dismissed. -/
def isFailure (status : StepStatus) : Bool :=
  status.isFailed || status == .cancelled

/-- The line published for what became of a step. -/
def line? : StepStatus → Option String
  | .done => none
  | .failed text => some ("Error: " ++ Text.trim text)
  | .cancelled => some "Optimization Cancelled by User"
  | .awaitingAuthorization => some Maintenance.waitingLine

end StepStatus

theorem ExecError.isFailed_status (error : ExecError) :
    error.status.isFailed = !error.isCancelled := by
  cases h : error.isCancelled <;> simp [status, h, StepStatus.isFailed]

theorem ExecError.isFailure_status (error : ExecError) : error.status.isFailure = true := by
  cases h : error.isCancelled <;>
    simp [status, h, StepStatus.isFailure, StepStatus.isFailed]

/-! ### The error of a turn -/

namespace Run

variable {runs : List Run}

/-- The error that some runs leave: that of the last one, unless it turned a secret down. -/
def lastError? (runs : List Run) : Option ExecError :=
  runs.getLast?.bind fun r => if r.rejectsSecret then none else r.error?

theorem lastError?_concat (runs : List Run) (r : Run) :
    lastError? (runs ++ [r]) = if r.rejectsSecret then none else r.error? := by
  simp [lastError?]

theorem lastError?_singleton (r : Run) :
    lastError? [r] = if r.rejectsSecret then none else r.error? :=
  lastError?_concat [] r

theorem lastError?_of_succeeded (h : ∀ r ∈ runs, r.succeeded = true) : lastError? runs = none := by
  rcases List.eq_nil_or_concat' runs with rfl | ⟨runs, r, rfl⟩
  · rfl
  · rw [lastError?_concat, error?_eq_none_iff.mpr (h r (by simp)), ite_self]

theorem lastError?_eq_some_iff {error : ExecError} : lastError? runs = some error ↔
    ∃ r, runs.getLast? = some r ∧ r.rejectsSecret = false ∧ r.error? = some error := by
  simp [lastError?, Option.bind_eq_some_iff]

/-- A program that is given no secret turns none down. -/
theorem rejectsSecret_of_input {r : Run} (h : r.call.input = "") : r.rejectsSecret = false := by
  simp [rejectsSecret, h]

end Run

namespace MaintenanceTurn

/-- The error that a turn leaves; programs of the user leave none at best effort. -/
def error? (t : MaintenanceTurn) : Option ExecError :=
  if t.step.bestEffort && !t.step.isElevated then none else Run.lastError? t.runs

/-- What is reported of a turn fits its error. -/
structure IsTold (t : MaintenanceTurn) : Prop where
  of_error : ∀ error, t.error? = some error → t.status = error.status
  of_none : t.error? = none → t.status = .done ∨ t.status = .awaitingAuthorization

/-- What a turn publishes.  A step that is held back is not even named. -/
def lines (held : Bool) (t : MaintenanceTurn) : List String :=
  if held && t.step.isElevated then []
  else ("Running: " ++ t.step.label) :: t.status.line?.toList

/-- What turns publish one after the other; steps are held back as soon as a turn waits. -/
def allLines (held : Bool) : List MaintenanceTurn → List String
  | [] => []
  | t :: later => t.lines held ++ allLines (held || t.isAwaiting) later

variable {t : MaintenanceTurn}

theorem error?_of_isElevated (h : t.step.isElevated = true) :
    t.error? = Run.lastError? t.runs := by
  simp [error?, h]

theorem error?_of_strict (h : t.step.bestEffort = false) : t.error? = Run.lastError? t.runs := by
  simp [error?, h]

theorem isTold_of_error {error : ExecError} (herror : t.error? = some error)
    (h : t.status = error.status) : t.IsTold where
  of_error error' herror' := by
    cases herror.symm.trans herror'
    exact h
  of_none hnone := by cases herror.symm.trans hnone

theorem isTold_of_none (hnone : t.error? = none)
    (h : t.status = .done ∨ t.status = .awaitingAuthorization) : t.IsTold where
  of_error error herror := by cases hnone.symm.trans herror
  of_none _ := h

theorem IsTold.cancelled_iff (h : t.IsTold) :
    t.status = .cancelled ↔ ∃ error, t.error? = some error ∧ error.isCancelled = true := by
  cases herror : t.error? with
  | some error => simp [h.of_error error herror, ExecError.status_eq_cancelled_iff]
  | none => rcases h.of_none herror with hstatus | hstatus <;> simp [hstatus]

theorem IsTold.isFailed_iff (h : t.IsTold) :
    t.status.isFailed = true ↔ ∃ error, t.error? = some error ∧ error.isCancelled = false := by
  cases herror : t.error? with
  | some error => simp [h.of_error error herror, ExecError.isFailed_status]
  | none => rcases h.of_none herror with hstatus | hstatus <;> simp [hstatus, StepStatus.isFailed]

theorem IsTold.isFailure_iff (h : t.IsTold) :
    t.status.isFailure = true ↔ ∃ error, t.error? = some error := by
  cases herror : t.error? with
  | some error => simp [h.of_error error herror, ExecError.isFailure_status]
  | none =>
    rcases h.of_none herror with hstatus | hstatus <;>
      simp [hstatus, StepStatus.isFailure, StepStatus.isFailed]

theorem allLines_concat (held : Bool) (turns : List MaintenanceTurn) (t : MaintenanceTurn) :
    allLines held (turns ++ [t]) =
      allLines held turns ++ t.lines (held || turns.any isAwaiting) := by
  induction turns generalizing held with
  | nil => simp [allLines]
  | cons first turns ih => simp [allLines, ih, Bool.or_assoc]

end MaintenanceTurn

namespace Maintenance

variable {e : Elevator} {s now : Station} {step : MaintenanceStep}

/-! ### One step -/

theorem statusOf_error (error : ExecError) :
    (statusOf (.error (.failed error))).1 = error.status := by
  rw [statusOf, ExecError.status]
  split <;> rfl

theorem statusOf_snd (result : Except StepError Unit) :
    (statusOf result).2 = (statusOf result).1.line? := by
  match result with
  | .ok () => rfl
  | .error .authorizationRequired => rfl
  | .error (.failed error) =>
    rw [statusOf]
    split <;> rfl

/-- A step with administrator rights that is not held back is told by its error. -/
theorem exists_isTold_elevated {command : String} (e : Elevator)
    (haction : step.action = .elevated command) (s : Station) :
    ∃ runs, (execute e step s).2.machine.runs = s.machine.runs ++ runs ∧
      MaintenanceTurn.IsTold ⟨step, (statusOf (execute e step s).1).1, runs⟩ := by
  have helevated : step.isElevated = true := by rw [MaintenanceStep.isElevated, haction]
  have herror (status : StepStatus) (r : Run) : MaintenanceTurn.error? ⟨step, status, [r]⟩ =
      if r.rejectsSecret then none else r.error? :=
    (MaintenanceTurn.error?_of_isElevated helevated).trans (Run.lastError?_singleton r)
  have helevation := e.elevation_run command s
  rw [execute_elevated haction]
  generalize (e.run command s).1 = result, (e.run command s).2 = after at helevation ⊢
  cases helevation with
  | @granted c out hcached hrun =>
    refine ⟨[s.machine.next (e.executor.helperCall command c.secret)], rfl,
      MaintenanceTurn.isTold_of_none ?_ (.inl rfl)⟩
    rw [herror, Run.error?_eq_none_iff.mpr hrun, ite_self]
  | @unstarted c error hcached hrun hnot =>
    refine ⟨[s.machine.next (e.executor.helperCall command c.secret)], rfl,
      MaintenanceTurn.isTold_of_error ?_ (statusOf_error error)⟩
    rw [herror, Run.rejectsSecret, hnot, Bool.and_false]
    exact hrun
  | @rejected c error hcached hrun =>
    refine ⟨[s.machine.next (e.executor.helperCall command c.secret)], rfl,
      MaintenanceTurn.isTold_of_none ?_ (.inr rfl)⟩
    have hinput : (e.executor.helperCall command c.secret).input ≠ "" := by
      simp [Executor.helperCall]
    rw [herror, Run.rejectsSecret, hrun, Machine.next_call, bne_iff_ne.mpr hinput]
    rfl
  | @consented out hcached hconsent hrun =>
    refine ⟨[s.machine.next (e.executor.consentCall command)], rfl,
      MaintenanceTurn.isTold_of_none ?_ (.inl rfl)⟩
    rw [herror, Run.error?_eq_none_iff.mpr hrun, ite_self]
  | @declined error hcached hconsent hrun =>
    refine ⟨[s.machine.next (e.executor.consentCall command)], rfl,
      MaintenanceTurn.isTold_of_error ?_ (statusOf_error error)⟩
    rw [herror, Run.rejectsSecret_of_input rfl]
    exact hrun
  | refused hcached hconsent =>
    refine ⟨[], (List.append_nil _).symm, MaintenanceTurn.isTold_of_none ?_ (.inr rfl)⟩
    rw [MaintenanceTurn.error?_of_isElevated helevated]
    rfl

/-- A step of the user is told by its error. -/
theorem exists_isTold_user {invocations : List Invocation} (e : Elevator)
    (haction : step.action = .user invocations) (s : Station) :
    ∃ runs, (execute e step s).2.machine.runs = s.machine.runs ++ runs ∧
      MaintenanceTurn.IsTold ⟨step, (statusOf (execute e step s).1).1, runs⟩ := by
  have huser : step.isElevated = false := by rw [MaintenanceStep.isElevated, haction]
  obtain ⟨runs, hruns, -, hends⟩ := runUser_cases step.bestEffort invocations s.machine
  refine ⟨runs, by simp only [execute, haction]; exact hruns, ?_⟩
  simp only [execute, haction]
  rcases hends with ⟨hok, -, hall⟩ |
    ⟨before, i, after, ran, r, error, hstrict, -, rfl, -, -, hcall, hfails, herror⟩
  · rw [hok]
    refine MaintenanceTurn.isTold_of_none ?_ (.inl rfl)
    cases hbest : step.bestEffort with
    | true => simp [MaintenanceTurn.error?, hbest, huser]
    | false =>
      rw [MaintenanceTurn.error?_of_strict hbest]
      exact Run.lastError?_of_succeeded (hall hbest)
  · rw [herror]
    refine MaintenanceTurn.isTold_of_error ?_ (statusOf_error error)
    rw [MaintenanceTurn.error?_of_strict hstrict, Run.lastError?_concat,
      Run.rejectsSecret_of_input (by rw [hcall]; rfl)]
    exact hfails

/-- Every step takes a turn that is told by its error, and publishes its lines. -/
theorem exists_isTold_runStep (e : Elevator) (report : MaintenanceReport) (s : Station)
    (step : MaintenanceStep) :
    ∃ t : MaintenanceTurn, t.step = step ∧ t.IsTold ∧
      (runStep e (report, s) step).1.steps = report.steps ++ [t.report] ∧
      (runStep e (report, s) step).2.machine.runs = s.machine.runs ++ t.runs ∧
      (runStep e (report, s) step).2.signals =
        (t.lines report.paused).foldl Signals.log s.signals := by
  cases hheld : report.paused && step.isElevated with
  | true =>
    have helevated := (Bool.and_eq_true_iff.mp hheld).2
    refine ⟨⟨step, .awaitingAuthorization, []⟩, rfl, ?_, ?_⟩
    · refine MaintenanceTurn.isTold_of_none ?_ (.inr rfl)
      rw [MaintenanceTurn.error?_of_isElevated helevated]
      rfl
    · rw [runStep, if_pos hheld, MaintenanceTurn.lines, if_pos hheld]
      exact ⟨rfl, (List.append_nil _).symm, rfl⟩
  | false =>
    let s' := s.log ("Running: " ++ step.label)
    have htold : ∃ runs, (execute e step s').2.machine.runs = s'.machine.runs ++ runs ∧
        MaintenanceTurn.IsTold ⟨step, (statusOf (execute e step s').1).1, runs⟩ := by
      cases haction : step.action with
      | elevated command => exact exists_isTold_elevated e haction s'
      | user invocations => exact exists_isTold_user e haction s'
    obtain ⟨runs, hruns, htold⟩ := htold
    have hsignals := signals_execute e step s'
    refine ⟨_, rfl, htold, ?_⟩
    rw [runStep_of_not_held hheld, MaintenanceTurn.lines, if_neg (by simp [hheld]), ← statusOf_snd]
    refine ⟨rfl, (congrArg Machine.runs (getD_map_log _ _).1).trans hruns, ?_⟩
    cases (statusOf (execute e step s').1).2 with
    | none => exact hsignals
    | some line => exact congrArg (·.log line) hsignals

/-! ### All steps -/

/-- A trace that has grown by a turn has grown by what its step did. -/
theorem Trace.of_concat {steps : List MaintenanceStep} {turns : List MaintenanceTurn}
    {t : MaintenanceTurn} {report : MaintenanceReport} (h : Trace e s steps turns report now)
    (ht : Trace e s (steps ++ [step]) (turns ++ [t]) (runStep e (report, now) step).1
      (runStep e (report, now) step).2) :
    t.IsTold ∧ (runStep e (report, now) step).2.signals =
      (t.lines report.paused).foldl Signals.log now.signals := by
  obtain ⟨t', hstep, htold, hreport, hruns, hsignals⟩ := exists_isTold_runStep e report now step
  have hsame : t' = t := by
    have hstep' := ht.steps_eq
    have hreport' := ht.report_eq
    have hruns' := ht.runs_eq
    rw [List.map_append, h.steps_eq] at hstep'
    rw [hreport, h.report_eq, List.map_append] at hreport'
    rw [hruns, h.runs_eq, List.flatMap_append, List.append_assoc] at hruns'
    obtain ⟨step', status', runs'⟩ := t'
    obtain ⟨step'', status'', runs''⟩ := t
    simp_all [MaintenanceTurn.report]
  exact hsame ▸ ⟨htold, hsignals⟩

/-- Every list of steps takes turns that are told by their errors, and publishes their lines. -/
theorem exists_told_trace (e : Elevator) (s : Station) (steps : List MaintenanceStep) :
    let last := steps.foldl (runStep e) (⟨[], false⟩, s)
    ∃ turns, Trace e s steps turns last.1 last.2 ∧ (∀ t ∈ turns, t.IsTold) ∧
      last.2.signals = (MaintenanceTurn.allLines false turns).foldl Signals.log s.signals := by
  intro last
  induction steps using List.reverseRecOn with
  | nil =>
    obtain ⟨turns, htrace⟩ := exists_trace e s []
    obtain rfl := List.map_eq_nil_iff.mp htrace.steps_eq
    exact ⟨[], htrace, by simp, rfl⟩
  | append_singleton steps step ih =>
    obtain ⟨turns, htrace, htold, hsignals⟩ := ih
    obtain ⟨t, ht⟩ := htrace.exists_append step
    obtain ⟨htold', hsignals'⟩ := htrace.of_concat ht
    refine ⟨turns ++ [t], ?_, ?_, ?_⟩
    · simpa only [last, List.foldl_append, List.foldl_cons, List.foldl_nil] using ht
    · intro u hu
      rcases List.mem_append.mp hu with hu | hu
      · exact htold u hu
      · rw [List.mem_singleton.mp hu]
        exact htold'
    · rw [show last = runStep e (steps.foldl (runStep e) (⟨[], false⟩, s)) step by simp [last],
        hsignals', hsignals, MaintenanceTurn.allLines_concat, List.foldl_append, Bool.false_or,
        htrace.paused_eq]

/-- A run of maintenance, turn by turn: its steps, what it reports, the programs that it ran, how
every turn went, how every turn is told, and all that it published. -/
structure Retold (e : Elevator) (steps : List MaintenanceStep) (s : Station)
    (turns : List MaintenanceTurn) : Prop where
  steps_eq : turns.map MaintenanceTurn.step = steps
  report_eq : (run e steps s).1.steps = turns.map MaintenanceTurn.report
  runs_eq : (run e steps s).2.machine.runs =
    s.machine.runs ++ turns.flatMap MaintenanceTurn.runs
  follows : ∀ before t later, turns = before ++ t :: later →
    t.Follows e s.store (before.any MaintenanceTurn.isAwaiting)
  told : ∀ t ∈ turns, t.IsTold
  signals_eq : (run e steps s).2.signals =
    ((MaintenanceTurn.allLines false turns ++
        [if (run e steps s).1.paused then waitingLine else "Optimization Complete"]).foldl
      Signals.log (s.signals.setBusy true)).setBusy false

/-- Every run of maintenance can be retold. -/
theorem exists_retold (e : Elevator) (steps : List MaintenanceStep) (s : Station) :
    ∃ turns, Retold e steps s turns := by
  obtain ⟨turns, htrace, htold, hsignals⟩ := exists_told_trace e (s.setBusy true) steps
  refine ⟨turns, htrace.steps_eq, htrace.report_eq, htrace.runs_eq, htrace.follows, htold, ?_⟩
  have hrun : (run e steps s).2.signals =
      ((steps.foldl (runStep e) (⟨[], false⟩, s.setBusy true)).2.signals.log
        (if (run e steps s).1.paused then waitingLine else "Optimization Complete")).setBusy
          false := rfl
  rw [hrun, hsignals, List.foldl_append]
  rfl

variable {steps : List MaintenanceStep} {turns : List MaintenanceTurn}

/-- The report counts the turns that failed. -/
theorem Retold.failures_eq (h : Retold e steps s turns) :
    (run e steps s).1.failures = turns.countP fun t => t.status.isFailed := by
  rw [MaintenanceReport.failures, h.report_eq, List.countP_map]
  rfl

theorem Retold.exists_follows (h : Retold e steps s turns) {t : MaintenanceTurn} (ht : t ∈ turns) :
    ∃ held, t.Follows e s.store held := by
  obtain ⟨before, later, hsplit⟩ := List.append_of_mem ht
  exact ⟨_, h.follows before t later hsplit⟩

end Maintenance

/-! ### Commands with administrator rights that come to nothing -/

/-- A command with administrator rights came to nothing, and no secret was turned down: the helper
could not be started, or the consent runner was not successful. -/
inductive Elevator.Misses (e : Elevator) (store : CredentialStore) (command : String) (r : Run) :
    Prop
  | unstarted {c : Credential} {error : LaunchError} (hcached : store.cached = some c)
      (hcall : r.call = e.executor.helperCall command c.secret) (hresult : r.result = .error error)
  | declined (hcached : store.cached = none) (hconsent : e.consentFallback = true)
      (hcall : r.call = e.executor.consentCall command) (hfailed : r.succeeded = false)

namespace MaintenanceTurn

variable {e : Elevator} {store : CredentialStore} {held : Bool} {t : MaintenanceTurn}

/-- A call of the helper that is no rejection has no error but that it could not be started. -/
theorem lastError?_helper {r : Run} {x : Executor} {command secret : String}
    (hcall : r.call = x.helperCall command secret) :
    Run.lastError? [r] = match r.result with
      | .error error => some (.launchFailed r.call.program error)
      | .ok _ => none := by
  have hinput : r.call.input ≠ "" := by simp [hcall, Executor.helperCall]
  rw [Run.lastError?_singleton, Run.rejectsSecret, Run.isRejection, Run.error?,
    bne_iff_ne.mpr hinput]
  cases r.result with
  | error error => rfl
  | ok outcome => cases hsucceeded : outcome.succeeded <;> simp [hsucceeded]

/-- A turn of a step with administrator rights leaves an error exactly if its command came to
nothing. -/
theorem Follows.exists_error_iff (h : t.Follows e store held)
    (helevated : t.step.isElevated = true) :
    (∃ error, t.error? = some error) ↔
      ∃ command r, t.step.action = .elevated command ∧ t.runs = [r] ∧ e.Misses store command r := by
  rw [error?_of_isElevated helevated]
  cases h with
  | heldBack => simp [Run.lastError?]
  | refused => simp [Run.lastError?]
  | @helper step command c status r haction hfree hcached hcall =>
    rw [lastError?_helper hcall]
    constructor
    · rintro ⟨error, herror⟩
      split at herror
      next launch hresult => exact ⟨command, r, haction, rfl, .unstarted hcached hcall hresult⟩
      next => cases herror
    · rintro ⟨command', r', -, hr, hmisses⟩
      cases hr
      cases hmisses with
      | unstarted hcached' hcall' hresult => exact ⟨_, by rw [hresult]⟩
      | declined hcached' => cases hcached.symm.trans hcached'
  | @consent step command status r haction hfree hcached hconsent hcall =>
    rw [Run.lastError?_singleton, Run.rejectsSecret_of_input (by rw [hcall]; rfl),
      if_neg Bool.false_ne_true]
    constructor
    · rintro ⟨error, herror⟩
      exact ⟨command, r, haction, rfl,
        .declined hcached hconsent hcall (Run.succeeded_of_error? herror)⟩
    · rintro ⟨command', r', -, hr, hmisses⟩
      cases hr
      cases hmisses with
      | unstarted hcached' => cases hcached.symm.trans hcached'
      | declined hcached' hconsent' hcall' hfailed =>
        rw [← Option.ne_none_iff_exists', Ne, Run.error?_eq_none_iff, hfailed]
        exact Bool.false_ne_true
  | completed haction => simp [MaintenanceStep.isElevated, haction] at helevated
  | stopped haction => simp [MaintenanceStep.isElevated, haction] at helevated

/-- The only error of a command with administrator rights that has a text of a program is that of
the consent runner. -/
theorem Follows.exists_consentCall (h : t.Follows e store held)
    (helevated : t.step.isElevated = true) {text : String}
    (herror : t.error? = some (.commandFailed text)) :
    ∃ command r, t.step.action = .elevated command ∧ t.runs = [r] ∧
      r.call = e.executor.consentCall command := by
  obtain ⟨command, r, haction, hruns, hmisses⟩ := (h.exists_error_iff helevated).mp ⟨_, herror⟩
  refine ⟨command, r, haction, hruns, ?_⟩
  cases hmisses with
  | unstarted hcached hcall hresult =>
    rw [error?_of_isElevated helevated, hruns, lastError?_helper hcall, hresult] at herror
    cases herror
  | declined hcached hconsent hcall => exact hcall

/-- A turn of a step of the user runs programs of the user.  Either it is done, or its last program
fails and best effort was not asked for. -/
theorem Follows.user_cases (h : t.Follows e store held) (huser : t.step.isElevated = false) :
    (∃ invocations : List Invocation,
      t.runs.map Run.call = invocations.map Invocation.call) ∧
    ((t.status = .done ∧ (t.step.bestEffort = false → ∀ r ∈ t.runs, r.succeeded = true)) ∨
      (t.step.bestEffort = false ∧ ∃ ran r, t.runs = ran ++ [r] ∧ r.succeeded = false)) := by
  cases h with
  | heldBack helevated => cases helevated.symm.trans huser
  | helper haction => simp [MaintenanceStep.isElevated, haction] at huser
  | consent haction => simp [MaintenanceStep.isElevated, haction] at huser
  | refused haction => simp [MaintenanceStep.isElevated, haction] at huser
  | @completed step invocations runs haction hcalls hsucceeded =>
    exact ⟨⟨invocations, hcalls⟩, .inl ⟨rfl, hsucceeded⟩⟩
  | @stopped step before after i ran r status haction hstrict hcalls hsucceeded hcall hfailed =>
    exact ⟨⟨before ++ [i], by simp [hcalls, hcall]⟩, .inr ⟨hstrict, ran, r, rfl, hfailed⟩⟩

/-- Programs of the user are given nothing to read. -/
theorem Follows.input_eq (h : t.Follows e store held) (huser : t.step.isElevated = false) {r : Run}
    (hr : r ∈ t.runs) : r.call.input = "" := by
  obtain ⟨⟨invocations, hcalls⟩, -⟩ := h.user_cases huser
  obtain ⟨i, -, hi⟩ := List.mem_map.mp (hcalls ▸ List.mem_map_of_mem hr)
  exact hi ▸ rfl

/-- The line of a dismissal is published by the turns that are told as one. -/
theorem Follows.mem_lines_iff (h : t.Follows e store held) :
    "Optimization Cancelled by User" ∈ t.lines held ↔ t.status = .cancelled := by
  have hrunning : "Optimization Cancelled by User" ≠ "Running: " ++ t.step.label := by
    intro hsame
    have hchars := congrArg String.toList hsame
    simp at hchars
  rw [lines]
  split
  next hheld =>
    obtain ⟨hpaused, helevated⟩ := Bool.and_eq_true_iff.mp hheld
    cases h with
    | heldBack => simp
    | helper _ hfree => cases hpaused.symm.trans hfree
    | consent _ hfree => cases hpaused.symm.trans hfree
    | refused _ hfree => cases hpaused.symm.trans hfree
    | completed haction => simp [MaintenanceStep.isElevated, haction] at helevated
    | stopped haction => simp [MaintenanceStep.isElevated, haction] at helevated
  next =>
    rw [List.mem_cons, or_iff_right hrunning]
    cases t.status with
    | done => simp [StepStatus.line?]
    | cancelled => simp [StepStatus.line?]
    | awaitingAuthorization => simp [StepStatus.line?, Maintenance.waitingLine]
    | failed text =>
      have herror : "Optimization Cancelled by User" ≠ "Error: " ++ Text.trim text := by
        intro hsame
        have hchars := congrArg String.toList hsame
        simp at hchars
      simpa [StepStatus.line?] using herror

/-- The error of a turn has a text of a program exactly if the last program failed with it, and was
the consent runner or one of the user that is not run at best effort. -/
theorem Follows.error?_eq_some_iff (h : t.Follows e store held) {text : String} :
    t.error? = some (.commandFailed text) ↔
      ∃ r, t.runs.getLast? = some r ∧ r.error? = some (.commandFailed text) ∧
        ((∃ command, t.step.action = .elevated command ∧
            r.call = e.executor.consentCall command) ∨
          (t.step.isElevated = false ∧ t.step.bestEffort = false)) := by
  constructor
  · intro herror
    cases helevated : t.step.isElevated with
    | true =>
      obtain ⟨command, r, haction, hruns, hcall⟩ := h.exists_consentCall helevated herror
      rw [error?_of_isElevated helevated] at herror
      obtain ⟨r', hlast, -, herror'⟩ := Run.lastError?_eq_some_iff.mp herror
      obtain rfl : r = r' := by simpa [hruns] using hlast
      exact ⟨r, hlast, herror', .inl ⟨command, haction, hcall⟩⟩
    | false =>
      have hstrict : t.step.bestEffort = false := by
        by_contra hbest
        simp [error?, hbest, helevated] at herror
      rw [error?_of_strict hstrict] at herror
      obtain ⟨r, hlast, -, herror⟩ := Run.lastError?_eq_some_iff.mp herror
      exact ⟨r, hlast, herror, .inr ⟨rfl, hstrict⟩⟩
  · rintro ⟨r, hlast, herror, ⟨command, haction, hcall⟩ | ⟨huser, hstrict⟩⟩
    · have helevated : t.step.isElevated = true := by rw [MaintenanceStep.isElevated, haction]
      rw [error?_of_isElevated helevated, Run.lastError?_eq_some_iff]
      exact ⟨r, hlast, Run.rejectsSecret_of_input (by rw [hcall]; rfl), herror⟩
    · have hinput := h.input_eq huser (List.mem_of_getLast? hlast)
      rw [error?_of_strict hstrict, Run.lastError?_eq_some_iff]
      exact ⟨r, hlast, Run.rejectsSecret_of_input hinput, herror⟩

/-- If a program of the user fails, it is the last of its turn, and its error that of the turn. -/
theorem Follows.exists_error_of_failed (h : t.Follows e store held)
    (huser : t.step.isElevated = false) (hstrict : t.step.bestEffort = false) {r : Run}
    (hr : r ∈ t.runs) (hfailed : r.succeeded = false) :
    ∃ r error, t.runs.getLast? = some r ∧ r.error? = some error ∧ t.error? = some error := by
  obtain ⟨last, hlast, hends⟩ : ∃ last, t.runs.getLast? = some last ∧ last.succeeded = false := by
    obtain ⟨-, ⟨-, hall⟩ | ⟨-, ran, last, hruns, hends⟩⟩ := h.user_cases huser
    · cases hfailed.symm.trans (hall hstrict r hr)
    · exact ⟨last, by rw [hruns, List.getLast?_concat], hends⟩
  obtain ⟨error, herror⟩ : ∃ error, last.error? = some error := by
    rw [← Option.ne_none_iff_exists', Ne, Run.error?_eq_none_iff, hends]
    exact Bool.false_ne_true
  refine ⟨last, error, hlast, herror, ?_⟩
  rw [error?_of_strict hstrict, Run.lastError?_eq_some_iff]
  exact ⟨last, hlast, Run.rejectsSecret_of_input (h.input_eq huser (List.mem_of_getLast? hlast)),
    herror⟩

end MaintenanceTurn

namespace Maintenance

/-! ### Best effort -/

/-- **What best effort keeps from being reported.** Let any steps be run, with any credential store,
rule for consent and answers of the programs.  A step of the user that is done at best effort is
always reported as done.  One with administrator rights is not treated differently from any other:
it is reported as failed or dismissed exactly if its command came to nothing, because the helper
could not be started or the consent runner was not successful, and among the failures of the report
it is counted unless its error is told as a dismissal. -/
theorem run_bestEffort (e : Elevator) (steps : List MaintenanceStep) (s : Station) :
    ∃ turns, Retold e steps s turns ∧
      (∀ t ∈ turns, t.step.bestEffort = true → t.step.isElevated = false → t.status = .done) ∧
      (∀ t ∈ turns, t.step.bestEffort = true → (t.status.isFailure = true ↔
        ∃ command r, t.step.action = .elevated command ∧ t.runs = [r] ∧
          e.Misses s.store command r)) ∧
      (run e steps s).1.failures = turns.countP (fun t => t.status.isFailed) ∧
      (∀ t ∈ turns, t.step.bestEffort = true → (t.status.isFailed = true ↔
        t.step.isElevated = true ∧
          ∃ error, t.error? = some error ∧ error.isCancelled = false)) := by
  obtain ⟨turns, hretold⟩ := exists_retold e steps s
  -- programs of the user leave no error
  have huser : ∀ t ∈ turns, t.step.bestEffort = true → t.step.isElevated = false →
      t.error? = none := by
    intro t _ hbest huser
    simp [MaintenanceTurn.error?, hbest, huser]
  refine ⟨turns, hretold, ?_, ?_, hretold.failures_eq, ?_⟩
  · intro t ht hbest hnot
    obtain ⟨held, hfollows⟩ := hretold.exists_follows ht
    obtain ⟨-, ⟨hdone, -⟩ | ⟨hstrict, -⟩⟩ := hfollows.user_cases hnot
    · exact hdone
    · cases hbest.symm.trans hstrict
  · intro t ht hbest
    rw [(hretold.told t ht).isFailure_iff]
    cases helevated : t.step.isElevated with
    | true =>
      obtain ⟨held, hfollows⟩ := hretold.exists_follows ht
      exact hfollows.exists_error_iff helevated
    | false =>
      rw [huser t ht hbest helevated]
      constructor
      · rintro ⟨error, ⟨⟩⟩
      · rintro ⟨command, r, haction, -⟩
        simp [MaintenanceStep.isElevated, haction] at helevated
  · intro t ht hbest
    rw [(hretold.told t ht).isFailed_iff]
    cases helevated : t.step.isElevated with
    | true => simp
    | false => simp [huser t ht hbest helevated]

/-- A command with administrator rights at best effort. -/
def dispensableSteps : List MaintenanceStep :=
  [{ label := "Probe", action := .elevated "true", bestEffort := true }]

/-- Without a secret and without a consent runner the command at best effort is reported and counted
as a failure. -/
theorem run_dispensableSteps :
    let report :=
      (run { consentFallback := true } dispensableSteps { store := { path := ⟨"/k"⟩ } }).1
    report.steps = [⟨"Probe",
      .failed "failed to start '/usr/bin/osascript': No such file or directory (os error 2)"⟩] ∧
      report.failures = 1 := by
  decide +kernel

/-! ### Dismissals -/

/-- **What is told as a dismissal.** Let any steps be run, with any credential store, rule for
consent and answers of the programs.  A step is reported as dismissed exactly if the last program
that it ran was not successful and wrote one of the two marks, and this program is the consent
runner or one of the user that is not run at best effort.  So a program of the user that fails ends
its step, which is reported as failed and counted among the failures if the program wrote none of
the marks, and as dismissed otherwise.  The line of a dismissal is published by exactly the turns
that are reported as dismissed. -/
theorem run_cancelled (e : Elevator) (steps : List MaintenanceStep) (s : Station) :
    ∃ turns, Retold e steps s turns ∧
      (∀ t ∈ turns, t.status = .cancelled ↔
        ∃ r text, t.runs.getLast? = some r ∧ r.error? = some (.commandFailed text) ∧
          ExecError.IsDismissal text ∧
          ((∃ command, t.step.action = .elevated command ∧
              r.call = e.executor.consentCall command) ∨
            (t.step.isElevated = false ∧ t.step.bestEffort = false))) ∧
      (∀ t ∈ turns, t.step.isElevated = false → t.step.bestEffort = false →
        (∃ r ∈ t.runs, r.succeeded = false) →
        ∃ r error, t.runs.getLast? = some r ∧ r.error? = some error ∧ t.status = error.status ∧
          (t.status.isFailed = true ↔
            ¬∃ text, error = .commandFailed text ∧ ExecError.IsDismissal text)) ∧
      (run e steps s).1.failures = turns.countP (fun t => t.status.isFailed) ∧
      (∀ before t later, turns = before ++ t :: later →
        ("Optimization Cancelled by User" ∈ t.lines (before.any MaintenanceTurn.isAwaiting) ↔
          t.status = .cancelled)) := by
  obtain ⟨turns, hretold⟩ := exists_retold e steps s
  refine ⟨turns, hretold, ?_, ?_, hretold.failures_eq, ?_⟩
  · intro t ht
    obtain ⟨held, hfollows⟩ := hretold.exists_follows ht
    have hiff : t.status = .cancelled ↔
        ∃ text, t.error? = some (.commandFailed text) ∧ ExecError.IsDismissal text := by
      simp only [(hretold.told t ht).cancelled_iff, ExecError.isCancelled_iff]
      constructor
      · rintro ⟨error, herror, text, rfl, hmark⟩
        exact ⟨text, herror, hmark⟩
      · rintro ⟨text, herror, hmark⟩
        exact ⟨_, herror, text, rfl, hmark⟩
    rw [hiff]
    constructor
    · rintro ⟨text, herror, hmark⟩
      obtain ⟨r, hlast, herror, hroute⟩ := hfollows.error?_eq_some_iff.mp herror
      exact ⟨r, text, hlast, herror, hmark, hroute⟩
    · rintro ⟨r, text, hlast, herror, hmark, hroute⟩
      exact ⟨text, hfollows.error?_eq_some_iff.mpr ⟨r, hlast, herror, hroute⟩, hmark⟩
  · rintro t ht huser hstrict ⟨r, hr, hfailed⟩
    obtain ⟨held, hfollows⟩ := hretold.exists_follows ht
    obtain ⟨last, error, hlast, herror, hturn⟩ :=
      hfollows.exists_error_of_failed huser hstrict hr hfailed
    have hstatus := (hretold.told t ht).of_error error hturn
    refine ⟨last, error, hlast, herror, hstatus, ?_⟩
    rw [hstatus, ExecError.isFailed_status, ← ExecError.isCancelled_iff]
    simp
  · exact fun before t later hsplit => (hretold.follows before t later hsplit).mem_lines_iff

/-- A machine with a program that writes an exit code and fails. -/
def probeMachine : Machine where
  disk := ⟨.folder [("probe",
    .file 0o755 (.script { output := "exit code -128".toUTF8, ending := .exit 1 }))]⟩

/-- The program as a step of the user. -/
def probeSteps : List MaintenanceStep :=
  [{ label := "Probe", action := .user [⟨"/probe", []⟩] }]

/-- The step is reported as dismissed and is not among the failures, although nobody was asked for
consent. -/
theorem run_probeSteps :
    let report := (run {} probeSteps { machine := probeMachine, store := { path := ⟨"/k"⟩ } }).1
    report.steps = [⟨"Probe", .cancelled⟩] ∧ report.failures = 0 := by
  decide +kernel

end Maintenance

end Reclaim
