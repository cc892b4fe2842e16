import Reclaim.Maintenance
import Reclaim.Proofs.Authority.Elevation

/-!
# The discipline of maintenance

Maintenance takes its steps in order, one after the other, and every step is reported.  Only a
missing secret holds anything back: from the first step that waits for one on, all later steps with
administrator rights wait as well and run nothing, while the steps of the user are still carried
out.  Until then every step finds the credential store that maintenance began with.

A run is told by its turns, one for each step: the step, what is reported of it, and the programs
that it ran.  How a turn goes depends on nothing but the store and on whether an earlier turn
waits.

## Main definitions

* `MaintenanceTurn` : a step with what became of it and what it ran.
* `MaintenanceTurn.Follows` : how a turn goes.
* `Maintenance.Trace` : the turns of the steps so far.

## Main results

* `Maintenance.exists_turn` : every step takes a turn.
* `Maintenance.exists_trace` : so does every list of steps.
* `Maintenance.run_discipline` : what maintenance reports, runs and leaves behind.
-/

namespace Reclaim

/-- The call of an invocation. -/
def Invocation.call (i : Invocation) : Call :=
  ⟨i.program, i.arguments, ""⟩

/-- A program that was given a secret to read ran and was not successful. -/
def Run.rejectsSecret (r : Run) : Bool :=
  r.call.input != "" && r.isRejection

theorem Run.isRejection_of_succeeded {r : Run} (h : r.succeeded = true) :
    r.isRejection = false := by
  cases hresult : r.result <;> simp_all [succeeded, isRejection]

theorem Run.succeeded_of_isRejection {r : Run} (h : r.isRejection = true) :
    r.succeeded = false := by
  cases hresult : r.result <;> simp_all [succeeded, isRejection]

/-! ### Turns -/

/-- A step of maintenance with what is reported of it and the programs that it ran. -/
structure MaintenanceTurn where
  step : MaintenanceStep
  status : StepStatus
  runs : List Run

namespace MaintenanceTurn

/-- What the report says of a turn. -/
def report (t : MaintenanceTurn) : StepReport :=
  ⟨t.step.label, t.status⟩

/-- The turn waits for a secret. -/
def isAwaiting (t : MaintenanceTurn) : Bool :=
  t.status == .awaitingAuthorization

/-- How a turn goes, by the store and by whether an earlier turn waits for a secret (`held`).

A step with administrator rights is held back, or it calls the helper with the secret of the store,
or it calls the consent runner, or it calls nothing because there is no secret and consent is not
allowed.  A step of the user runs all its programs, none of which fails unless the step is done at
best effort, or it runs them up to the first that fails. -/
inductive Follows (e : Elevator) (store : CredentialStore) (held : Bool) : MaintenanceTurn → Prop
  | heldBack {step : MaintenanceStep} (helevated : step.isElevated = true) (hheld : held = true) :
      Follows e store held ⟨step, .awaitingAuthorization, []⟩
  | helper {step : MaintenanceStep} {command : String} {c : Credential} {status : StepStatus}
      {r : Run} (haction : step.action = .elevated command) (hfree : held = false)
      (hcached : store.cached = some c) (hcall : r.call = e.executor.helperCall command c.secret)
      (hdone : status = .done ↔ r.succeeded = true)
      (hawaiting : status = .awaitingAuthorization ↔ r.isRejection = true) :
      Follows e store held ⟨step, status, [r]⟩
  | consent {step : MaintenanceStep} {command : String} {status : StepStatus} {r : Run}
      (haction : step.action = .elevated command) (hfree : held = false)
      (hcached : store.cached = none) (hconsent : e.consentFallback = true)
      (hcall : r.call = e.executor.consentCall command)
      (hdone : status = .done ↔ r.succeeded = true) (hnot : status ≠ .awaitingAuthorization) :
      Follows e store held ⟨step, status, [r]⟩
  | refused {step : MaintenanceStep} {command : String}
      (haction : step.action = .elevated command) (hfree : held = false)
      (hcached : store.cached = none) (hconsent : e.consentFallback = false) :
      Follows e store held ⟨step, .awaitingAuthorization, []⟩
  | completed {step : MaintenanceStep} {invocations : List Invocation} {runs : List Run}
      (haction : step.action = .user invocations)
      (hcalls : runs.map Run.call = invocations.map Invocation.call)
      (hsucceeded : step.bestEffort = false → ∀ r ∈ runs, r.succeeded = true) :
      Follows e store held ⟨step, .done, runs⟩
  | stopped {step : MaintenanceStep} {before after : List Invocation} {i : Invocation}
      {ran : List Run} {r : Run} {status : StepStatus}
      (haction : step.action = .user (before ++ i :: after)) (hstrict : step.bestEffort = false)
      (hcalls : ran.map Run.call = before.map Invocation.call)
      (hsucceeded : ∀ r ∈ ran, r.succeeded = true)
      (hcall : r.call = i.call) (hfailed : r.succeeded = false)
      (hdone : status ≠ .done) (hnot : status ≠ .awaitingAuthorization) :
      Follows e store held ⟨step, status, ran ++ [r]⟩

variable {e : Elevator} {store store' : CredentialStore} {held : Bool} {t : MaintenanceTurn}

/-- While steps are held back, no step looks at the store. -/
theorem Follows.of_held (h : t.Follows e store true) : t.Follows e store' true := by
  cases h with
  | heldBack helevated hheld => exact .heldBack helevated hheld
  | helper _ hfree => cases hfree
  | consent _ hfree => cases hfree
  | refused _ hfree => cases hfree
  | completed haction hcalls hsucceeded => exact .completed haction hcalls hsucceeded
  | stopped haction hstrict hcalls hsucceeded hcall hfailed hdone hnot =>
    exact .stopped haction hstrict hcalls hsucceeded hcall hfailed hdone hnot

/-- Programs of the user read no secret. -/
theorem countP_rejectsSecret_of_calls {runs : List Run} {invocations : List Invocation}
    (hcalls : runs.map Run.call = invocations.map Invocation.call) :
    runs.countP Run.rejectsSecret = 0 := by
  rw [List.countP_eq_zero]
  intro r hr
  obtain ⟨i, -, hi⟩ := List.mem_map.mp (hcalls ▸ List.mem_map_of_mem hr)
  simp [Run.rejectsSecret, ← hi, Invocation.call]

/-- A turn in which the secret is turned down is the first that waits. -/
theorem Follows.countP_rejectsSecret_le (h : t.Follows e store held) :
    t.runs.countP Run.rejectsSecret ≤ if held then 0 else if t.isAwaiting then 1 else 0 := by
  cases h with
  | heldBack => simp
  | refused => simp
  | @helper step command c status r haction hfree hcached hcall hdone hawaiting =>
    cases hrejected : r.isRejection with
    | true =>
      have hone : (if r.rejectsSecret = true then 1 else 0) ≤ 1 := by split <;> omega
      simpa [hfree, isAwaiting, hawaiting.mpr hrejected] using hone
    | false => simp [Run.rejectsSecret, hrejected]
  | @consent step command status r haction hfree hcached hconsent hcall =>
    simp [Run.rejectsSecret, hcall, Executor.consentCall]
  | completed haction hcalls => simp [countP_rejectsSecret_of_calls hcalls]
  | @stopped step before after i ran r status haction hstrict hcalls hsucceeded hcall =>
    have hall : (ran ++ [r]).map Run.call = (before ++ [i]).map Invocation.call := by
      simp [hcalls, hcall]
    simp [countP_rejectsSecret_of_calls hall]

end MaintenanceTurn

namespace Maintenance

variable {e : Elevator} {s now : Station} {step : MaintenanceStep}

/-! ### One step -/

/-- A failure that is not a missing secret is reported as such. -/
theorem statusOf_failed (error : ExecError) :
    (statusOf (.error (.failed error))).1 ≠ .done ∧
    (statusOf (.error (.failed error))).1 ≠ .awaitingAuthorization := by
  simp only [statusOf]
  split <;> simp

/-- The programs of a step of the user: all of them ran, or the last that ran has failed. -/
theorem runUser_cases (bestEffort : Bool) (invocations : List Invocation) (m : Machine) :
    ∃ runs, (runUser bestEffort invocations m).2.runs = m.runs ++ runs ∧
      (runUser bestEffort invocations m).2.disk = m.disk ∧
      (((runUser bestEffort invocations m).1 = .ok () ∧
          runs.map Run.call = invocations.map Invocation.call ∧
          (bestEffort = false → ∀ r ∈ runs, r.succeeded = true)) ∨
        ∃ before i after ran r error, bestEffort = false ∧ invocations = before ++ i :: after ∧
          runs = ran ++ [r] ∧ ran.map Run.call = before.map Invocation.call ∧
          (∀ r ∈ ran, r.succeeded = true) ∧ r.call = i.call ∧ r.error? = some error ∧
          (runUser bestEffort invocations m).1 = .error (.failed error)) := by
  induction invocations generalizing m with
  | nil => exact ⟨[], by simp [runUser], rfl, .inl ⟨rfl, rfl, by simp⟩⟩
  | cons i rest ih =>
    -- what the first program leaves to the others
    let m' := (m.launch i.call).2
    have hgrown (runs : List Run) : m'.runs ++ runs = m.runs ++ m.next i.call :: runs := by
      simp [m', Machine.launch_runs, Machine.next]
    obtain ⟨runs, hruns, hdisk, hends⟩ := ih m'
    rcases Executor.run_cases i.program i.arguments m with ⟨out, hran, hrun⟩ | ⟨error, hran, hrun⟩
    · have hgoes : runUser bestEffort (i :: rest) m = runUser bestEffort rest m' := by
        rw [runUser, hrun]
        rfl
      rw [hgoes]
      refine ⟨m.next i.call :: runs, hruns.trans (hgrown runs), hdisk, ?_⟩
      rcases hends with ⟨hok, hcalls, hall⟩ |
        ⟨before, j, after, ran, r, error, hstrict, rfl, rfl, hcalls, hall, hends⟩
      · exact .inl ⟨hok, by simp [hcalls], fun hstrict r hr =>
          (List.mem_cons.mp hr).elim (fun hfirst => hfirst ▸ hran) (hall hstrict r)⟩
      · exact .inr ⟨i :: before, j, after, m.next i.call :: ran, r, error, hstrict, rfl, rfl,
          by simp [hcalls], fun r hr =>
            (List.mem_cons.mp hr).elim (fun hfirst => hfirst ▸ hran) (hall r), hends⟩
    · cases bestEffort with
      | true =>
        have hgoes : runUser true (i :: rest) m = runUser true rest m' := by
          rw [runUser, hrun]
          rfl
        rw [hgoes]
        refine ⟨m.next i.call :: runs, hruns.trans (hgrown runs), hdisk, ?_⟩
        rcases hends with ⟨hok, hcalls, -⟩ | ⟨-, -, -, -, -, -, hstrict, -⟩
        · exact .inl ⟨hok, by simp [hcalls], by simp⟩
        · cases hstrict
      | false =>
        have hstops : runUser false (i :: rest) m = (.error (.failed error), m') := by
          rw [runUser, hrun]
          rfl
        rw [hstops]
        exact ⟨[m.next i.call], hgrown [] ▸ (List.append_nil _).symm, rfl,
          .inr ⟨[], i, rest, [], m.next i.call, error, rfl, rfl, rfl, rfl, by simp, rfl, hran, rfl⟩⟩

/-- A turn leaves the store and the files alone, or it is the first that waits for a secret: then
there is none, and one is asked for. -/
def Leaves (s : Station) (held : Bool) (t : MaintenanceTurn) (after : Station) : Prop :=
  (after.store = s.store ∧ after.disk = s.disk ∧ (t.isAwaiting = true → held = true)) ∨
    (held = false ∧ t.isAwaiting = true ∧ after.store.cached = none ∧
      after.store.requested.value = true)

theorem Leaves.of_eq {held : Bool} {t : MaintenanceTurn} {after after' : Station}
    (h : Leaves s held t after) (hmachine : after'.machine = after.machine)
    (hstore : after'.store = after.store) : Leaves s held t after' := by
  rw [Leaves, Station.disk, hmachine, hstore]
  exact h

/-- What a command with administrator rights means for its step. -/
def elevatedResult : Except ElevationError Output → Except StepError Unit
  | .ok _ => .ok ()
  | .error (.failed error) => .error (.failed error)
  | .error _ => .error .authorizationRequired

theorem execute_elevated {command : String} (haction : step.action = .elevated command) :
    execute e step s = (elevatedResult (e.run command s).1, (e.run command s).2) := by
  simp only [execute, haction]
  obtain ⟨result, after⟩ := e.run command s
  cases result with
  | ok => rfl
  | error error => cases error <;> rfl

/-- Carrying out a step publishes nothing. -/
theorem signals_execute (e : Elevator) (step : MaintenanceStep) (s : Station) :
    (execute e step s).2.signals = s.signals := by
  cases haction : step.action with
  | elevated command => rw [execute_elevated haction, e.signals_run]
  | user invocations => simp only [execute, haction]

/-- A step with administrator rights that is not held back takes its turn. -/
theorem exists_turn_execute_elevated {command : String} (e : Elevator)
    (haction : step.action = .elevated command) (s : Station) :
    ∃ t : MaintenanceTurn, t.step = step ∧ t.status = (statusOf (execute e step s).1).1 ∧
      (execute e step s).2.machine.runs = s.machine.runs ++ t.runs ∧
      t.Follows e s.store false ∧ Leaves s false t (execute e step s).2 := by
  have helevation := e.elevation_run command s
  rw [execute_elevated haction]
  generalize (e.run command s).1 = result, (e.run command s).2 = after at helevation ⊢
  cases helevation with
  | @granted c out hcached hrun =>
    refine ⟨⟨step, .done, [s.machine.next (e.executor.helperCall command c.secret)]⟩, rfl, rfl,
      rfl, .helper haction rfl hcached rfl (by simp [hrun]) ?_,
      .inl ⟨rfl, rfl, by simp [MaintenanceTurn.isAwaiting]⟩⟩
    simp [Run.isRejection_of_succeeded hrun]
  | @unstarted c error hcached hrun hnot =>
    obtain ⟨hdone, hwaits⟩ := statusOf_failed error
    refine ⟨⟨step, _, [s.machine.next (e.executor.helperCall command c.secret)]⟩, rfl, rfl, rfl,
      .helper haction rfl hcached rfl ?_ ?_, .inl ⟨rfl, rfl, ?_⟩⟩
    · simp [elevatedResult, Run.succeeded_of_error? hrun, hdone]
    · simp [elevatedResult, hnot, hwaits]
    · simp [MaintenanceTurn.isAwaiting, elevatedResult, hwaits]
  | @rejected c error hcached hrun =>
    refine ⟨⟨step, _, [s.machine.next (e.executor.helperCall command c.secret)]⟩, rfl, rfl, rfl,
      .helper haction rfl hcached rfl ?_ (by simp [elevatedResult, statusOf, hrun]),
      .inr ⟨rfl, rfl, ?_⟩⟩
    · simp [elevatedResult, statusOf, Run.succeeded_of_isRejection hrun]
    · rw [Station.store_clear_request]
      exact ⟨rfl, rfl⟩
  | consented hcached hconsent hrun =>
    exact ⟨⟨step, .done, [s.machine.next (e.executor.consentCall command)]⟩, rfl, rfl, rfl,
      .consent haction rfl hcached hconsent rfl (by simp [hrun]) (by simp),
      .inl ⟨rfl, rfl, by simp [MaintenanceTurn.isAwaiting]⟩⟩
  | @declined error hcached hconsent hrun =>
    obtain ⟨hdone, hnot⟩ := statusOf_failed error
    refine ⟨⟨step, _, [s.machine.next (e.executor.consentCall command)]⟩, rfl, rfl, rfl,
      .consent haction rfl hcached hconsent rfl ?_ hnot, .inl ⟨rfl, rfl, ?_⟩⟩
    · simp [elevatedResult, Run.succeeded_of_error? hrun, hdone]
    · simp [MaintenanceTurn.isAwaiting, elevatedResult, hnot]
  | refused hcached hconsent =>
    exact ⟨⟨step, .awaitingAuthorization, []⟩, rfl, rfl, (List.append_nil _).symm,
      .refused haction rfl hcached hconsent, .inr ⟨rfl, rfl, hcached, rfl⟩⟩

/-- A step of the user takes its turn, whether steps are held back or not. -/
theorem exists_turn_execute_user {invocations : List Invocation} (e : Elevator) (held : Bool)
    (haction : step.action = .user invocations) (s : Station) :
    ∃ t : MaintenanceTurn, t.step = step ∧ t.status = (statusOf (execute e step s).1).1 ∧
      (execute e step s).2.machine.runs = s.machine.runs ++ t.runs ∧
      t.Follows e s.store held ∧ Leaves s held t (execute e step s).2 := by
  obtain ⟨runs, hruns, hdisk, hends⟩ := runUser_cases step.bestEffort invocations s.machine
  rw [execute, haction]
  rcases hends with ⟨hok, hcalls, hall⟩ |
    ⟨before, i, after, ran, r, error, hstrict, rfl, rfl, hcalls, hall, hcall, hfails, herror⟩
  · exact ⟨⟨step, .done, runs⟩, rfl, by simp [hok, statusOf], hruns,
      .completed haction hcalls hall,
      .inl ⟨rfl, hdisk, by simp [MaintenanceTurn.isAwaiting]⟩⟩
  · obtain ⟨hdone, hnot⟩ := statusOf_failed error
    exact ⟨⟨step, (statusOf (.error (.failed error))).1, ran ++ [r]⟩, rfl, by rw [herror], hruns,
      .stopped haction hstrict hcalls hall hcall (Run.succeeded_of_error? hfails) hdone hnot,
      .inl ⟨rfl, hdisk, by simp [MaintenanceTurn.isAwaiting, hnot]⟩⟩

/-- A step that is not held back is carried out after a line that names it. -/
theorem runStep_of_not_held {report : MaintenanceReport}
    (h : (report.paused && step.isElevated) = false) :
    let result := execute e step (s.log ("Running: " ++ step.label))
    let status := (statusOf result.1).1
    runStep e (report, s) step =
      (⟨report.steps ++ [⟨step.label, status⟩], report.paused || status == .awaitingAuthorization⟩,
        ((statusOf result.1).2.map result.2.log).getD result.2) := by
  rw [runStep, if_neg (by simp [h])]

/-- A progress line touches neither programs nor store. -/
theorem getD_map_log (line : Option String) (s : Station) :
    ((line.map s.log).getD s).machine = s.machine ∧ ((line.map s.log).getD s).store = s.store := by
  cases line <;> exact ⟨rfl, rfl⟩

/-- Every step takes a turn. -/
theorem exists_turn (e : Elevator) (report : MaintenanceReport) (s : Station)
    (step : MaintenanceStep) :
    ∃ t : MaintenanceTurn, t.step = step ∧
      (runStep e (report, s) step).1 =
        ⟨report.steps ++ [t.report], report.paused || t.isAwaiting⟩ ∧
      (runStep e (report, s) step).2.machine.runs = s.machine.runs ++ t.runs ∧
      t.Follows e s.store report.paused ∧
      Leaves s report.paused t (runStep e (report, s) step).2 := by
  cases hheld : report.paused && step.isElevated with
  | true =>
    obtain ⟨hpaused, helevated⟩ := Bool.and_eq_true_iff.mp hheld
    refine ⟨⟨step, .awaitingAuthorization, []⟩, rfl, ?_⟩
    rw [runStep, if_pos hheld]
    exact ⟨by simp [MaintenanceTurn.report, hpaused], (List.append_nil _).symm,
      .heldBack helevated hpaused, .inl ⟨rfl, rfl, fun _ => hpaused⟩⟩
  | false =>
    let s' := s.log ("Running: " ++ step.label)
    have hturn : ∃ t : MaintenanceTurn, t.step = step ∧
        t.status = (statusOf (execute e step s').1).1 ∧
        (execute e step s').2.machine.runs = s'.machine.runs ++ t.runs ∧
        t.Follows e s'.store report.paused ∧ Leaves s' report.paused t (execute e step s').2 := by
      cases haction : step.action with
      | elevated command =>
        have hfree : report.paused = false := by
          simpa [MaintenanceStep.isElevated, haction] using hheld
        rw [hfree]
        exact exists_turn_execute_elevated e haction s'
      | user invocations => exact exists_turn_execute_user e report.paused haction s'
    obtain ⟨t, rfl, hstatus, hruns, hfollows, hleaves⟩ := hturn
    obtain ⟨hmachine, hstore⟩ := getD_map_log (statusOf (execute e t.step s').1).2
      (execute e t.step s').2
    refine ⟨t, rfl, ?_⟩
    rw [runStep_of_not_held hheld]
    refine ⟨?_, ?_, hfollows, ?_⟩
    · simp [MaintenanceTurn.report, MaintenanceTurn.isAwaiting, hstatus, s']
    · rw [hmachine]
      exact hruns
    · exact hleaves.of_eq hmachine hstore

/-! ### All steps -/

/-- The turns of the steps so far, with the report and the station that they give. -/
structure Trace (e : Elevator) (s : Station) (steps : List MaintenanceStep)
    (turns : List MaintenanceTurn) (report : MaintenanceReport) (now : Station) : Prop where
  steps_eq : turns.map MaintenanceTurn.step = steps
  report_eq : report.steps = turns.map MaintenanceTurn.report
  runs_eq : now.machine.runs = s.machine.runs ++ turns.flatMap MaintenanceTurn.runs
  /-- A turn is held back as soon as one before it waits. -/
  follows : ∀ before t after, turns = before ++ t :: after →
    t.Follows e s.store (before.any MaintenanceTurn.isAwaiting)
  paused_eq : report.paused = turns.any MaintenanceTurn.isAwaiting
  free : report.paused = false → now.store = s.store ∧ now.disk = s.disk
  held : report.paused = true → now.store.cached = none ∧ now.store.requested.value = true
  rejected : (turns.flatMap MaintenanceTurn.runs).countP Run.rejectsSecret ≤
    if report.paused then 1 else 0

/-- One more step adds one more turn. -/
theorem Trace.exists_append {steps : List MaintenanceStep} {turns : List MaintenanceTurn}
    {report : MaintenanceReport} (h : Trace e s steps turns report now) (step : MaintenanceStep) :
    ∃ t, Trace e s (steps ++ [step]) (turns ++ [t]) (runStep e (report, now) step).1
      (runStep e (report, now) step).2 := by
  obtain ⟨t, hstep, hreport, hruns, hfollows, hleaves⟩ := exists_turn e report now step
  -- until a step waits, every step finds the store of the beginning
  have hturn : t.Follows e s.store report.paused := by
    cases hpaused : report.paused with
    | true => exact (hpaused ▸ hfollows).of_held
    | false =>
      rw [← (h.free hpaused).1]
      exact hpaused ▸ hfollows
  refine ⟨t, ?_⟩
  generalize (runStep e (report, now) step).1 = report', (runStep e (report, now) step).2 = now'
    at hreport hruns hleaves ⊢
  subst hreport
  constructor
  case steps_eq => simp [h.steps_eq, hstep]
  case report_eq => simp [h.report_eq]
  case runs_eq => simp [hruns, h.runs_eq]
  case follows =>
    intro before u after hsplit
    rcases List.eq_nil_or_concat after with rfl | ⟨after, last, rfl⟩
    · obtain ⟨rfl, hlast⟩ := List.append_inj' hsplit rfl
      cases hlast
      rw [← h.paused_eq]
      exact hturn
    · rw [List.concat_eq_append, ← List.cons_append, ← List.append_assoc] at hsplit
      exact h.follows before u after (List.append_inj' hsplit rfl).1
  case paused_eq => simp [h.paused_eq]
  case free =>
    intro hfree
    obtain ⟨hpaused, hawaiting⟩ := Bool.or_eq_false_iff.mp hfree
    rcases hleaves with ⟨hstore, hdisk, -⟩ | ⟨-, hwaits, -⟩
    · exact ⟨hstore.trans (h.free hpaused).1, hdisk.trans (h.free hpaused).2⟩
    · cases hawaiting.symm.trans hwaits
  case held =>
    intro hheld
    rcases hleaves with ⟨hstore, -, hwaits⟩ | ⟨-, -, hasked⟩
    · rw [hstore]
      exact h.held ((Bool.or_eq_true_iff.mp hheld).elim id hwaits)
    · exact hasked
  case rejected =>
    have hone := hturn.countP_rejectsSecret_le
    have hbefore := h.rejected
    rw [List.flatMap_append, List.countP_append, List.flatMap_singleton]
    cases hpaused : report.paused <;> cases hawaiting : t.isAwaiting <;>
      simp only [hpaused, hawaiting, Bool.or_true, Bool.or_false, if_true, Bool.false_eq_true,
        if_false] at hone hbefore ⊢ <;> omega

/-- Every list of steps takes its turns. -/
theorem exists_trace (e : Elevator) (s : Station) (steps : List MaintenanceStep) :
    ∃ turns, Trace e s steps turns (steps.foldl (runStep e) (⟨[], false⟩, s)).1
      (steps.foldl (runStep e) (⟨[], false⟩, s)).2 := by
  induction steps using List.reverseRecOn with
  | nil => exact ⟨[], rfl, rfl, (List.append_nil _).symm, by simp, rfl, fun _ => ⟨rfl, rfl⟩,
      by simp, by simp⟩
  | append_singleton steps step ih =>
    obtain ⟨turns, htrace⟩ := ih
    obtain ⟨t, ht⟩ := htrace.exists_append step
    rw [List.foldl_append]
    exact ⟨turns ++ [t], ht⟩

/-- **The discipline of maintenance.** Let any steps be run, with any credential store, rule for
consent and answers of the programs.  Every step takes one turn, in order; the report has one entry
for each, and the programs that ran are those of the turns, one turn after the other.  How a turn
goes depends on the store in the beginning and on whether a turn before it waits for a secret, and
is told by `MaintenanceTurn.Follows`: from the first turn that waits on, those with administrator
rights wait and run nothing; all others are carried out, whatever has failed before.  Maintenance is
paused exactly if a turn waits, and then there is no secret and one is asked for; otherwise the
store and its file are as they were.  At most one run of the helper is turned down.  In the end
nothing is busy, and the last line tells whether a secret is waited for. -/
theorem run_discipline (e : Elevator) (steps : List MaintenanceStep) (s : Station) :
    let report := (run e steps s).1
    let after := (run e steps s).2
    ∃ turns : List MaintenanceTurn,
      turns.map MaintenanceTurn.step = steps ∧
      report.steps = turns.map MaintenanceTurn.report ∧
      after.machine.runs = s.machine.runs ++ turns.flatMap MaintenanceTurn.runs ∧
      (∀ before t later, turns = before ++ t :: later →
        t.Follows e s.store (before.any MaintenanceTurn.isAwaiting)) ∧
      (report.paused = true ↔ ∃ t ∈ turns, t.status = .awaitingAuthorization) ∧
      (report.paused = true → after.store.cached = none ∧ after.store.requested.value = true) ∧
      (report.paused = false → after.store = s.store ∧ after.disk = s.disk) ∧
      (turns.flatMap MaintenanceTurn.runs).countP Run.rejectsSecret ≤ 1 ∧
      after.signals.busy.value = false ∧
      after.signals.line.value =
        if report.paused then waitingLine else "Optimization Complete" := by
  intro report after
  obtain ⟨turns, htrace⟩ := exists_trace e (s.setBusy true) steps
  refine ⟨turns, htrace.steps_eq, htrace.report_eq, htrace.runs_eq, htrace.follows, ?_, htrace.held,
    htrace.free, htrace.rejected.trans (by split <;> omega), rfl, rfl⟩
  rw [show report.paused = _ from htrace.paused_eq]
  simp [MaintenanceTurn.isAwaiting]

end Maintenance

end Reclaim
