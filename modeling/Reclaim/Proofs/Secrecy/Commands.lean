import Reclaim.Proofs.Authority.Restart
import Reclaim.Proofs.Maintenance.Discipline
import Reclaim.Proofs.Secrecy.Trees

/-!
# Commands whose answers do not depend on the secret

Two stations resemble each other if they differ in nothing but secrets: in the one that is kept in
memory, in those that the helper has read, and in the contents of the files where they are kept.  An
operation that begins on two such stations and gets the same answers from the programs gives the
same result on both, and the stations resemble each other again.

The answers are compared run by run, in the order of the calls, and only as far as both stations
have made calls.  As every operation adds its runs to those before, answers that agree in the end
agreed all the time.

## Main definitions

* `Call.SameButSecret`, `Run.SameButSecret` : a secret that the helper reads is all that differs.
* `Machine.Resembles`, `CredentialStore.Resembles`, `Station.Resembles` : secrets are all that
  differs.
* `Machine.AnsweredAlike` : the programs have given the same answers.
* `Cleaner.ShowsClean` : nothing that a clean looks at is hidden.

## Main results

* `Elevator.run_resembles` : a command with administrator rights.
* `Maintenance.run_resembles` : maintenance.
* `Cleaner.runOn_resembles` : a clean.
* `Station.setCredential_resembles` : two different secrets are supplied.
-/

namespace Reclaim

variable {keys : Place → Bool}

/-! ### Calls and their answers -/

deriving instance DecidableEq for Outcome

/-- Two calls are the same, or they call the helper for the same command with two secrets. -/
inductive Call.SameButSecret : Call → Call → Prop
  | same (call : Call) : SameButSecret call call
  | helper (x : Executor) (command secret secret' : String) :
      SameButSecret (x.helperCall command secret) (x.helperCall command secret')

/-- The secret is neither the program nor one of its arguments. -/
theorem Call.SameButSecret.program_arguments {call call' : Call} (h : call.SameButSecret call') :
    call.program = call'.program ∧ call.arguments = call'.arguments := by
  cases h <;> exact ⟨rfl, rfl⟩

/-- Two runs of the same call, but for a secret, with the same answer. -/
structure Run.SameButSecret (r r' : Run) : Prop where
  call : r.call.SameButSecret r'.call
  result : r.result = r'.result

namespace Machine

variable {m m' n n' : Machine}

/-- The programs have given the same answers, as far as both machines have made calls. -/
def AnsweredAlike (m m' : Machine) : Prop :=
  ∀ (i : Nat) (r r' : Run), m.runs[i]? = some r → m'.runs[i]? = some r' → r.result = r'.result

/-- Answers that agree in the end agreed all the time. -/
theorem AnsweredAlike.of_prefix_runs (h : AnsweredAlike n n') (hruns : m.runs <+: n.runs)
    (hruns' : m'.runs <+: n'.runs) : AnsweredAlike m m' := by
  intro i r r' hr hr'
  obtain ⟨later, hlater⟩ := hruns
  obtain ⟨later', hlater'⟩ := hruns'
  have hlast : n.runs[i]? = some r := by
    rw [← hlater, List.getElem?_append_left (List.getElem?_eq_some_iff.mp hr).1, hr]
  have hlast' : n'.runs[i]? = some r' := by
    rw [← hlater', List.getElem?_append_left (List.getElem?_eq_some_iff.mp hr').1, hr']
  exact h i r r' hlast hlast'

/-- Whether answers agree can be checked run by run. -/
theorem answeredAlike_iff : AnsweredAlike m m' ↔
    ∀ pair ∈ m.runs.zip m'.runs, pair.1.result = pair.2.result := by
  constructor
  · rintro h ⟨r, r'⟩ hpair
    obtain ⟨i, hi⟩ := List.mem_iff_getElem?.mp hpair
    obtain ⟨hr, hr'⟩ := List.getElem?_zip_eq_some.mp hi
    exact h i r r' hr hr'
  · intro h i r r' hr hr'
    exact h (r, r') (List.mem_iff_getElem?.mpr ⟨i, List.getElem?_zip_eq_some.mpr ⟨hr, hr'⟩⟩)

instance (m m' : Machine) : Decidable (m.AnsweredAlike m') :=
  decidable_of_iff _ answeredAlike_iff.symm

theorem RanOnly.prefix_runs {kind : Call → Prop} (h : RanOnly kind m m') : m.runs <+: m'.runs := by
  obtain ⟨new, hnew, -⟩ := h
  exact ⟨new, hnew.symm⟩

/-- Two machines differ in nothing but hidden contents and secrets that the helper has read. -/
structure Resembles (keys : Place → Bool) (m m' : Machine) : Prop where
  disk : m.disk.hide keys = m'.disk.hide keys
  runs : List.Forall₂ Run.SameButSecret m.runs m'.runs

/-- The programs that have been called, with their arguments, are the same. -/
theorem Resembles.map_call_eq (h : m.Resembles keys m') :
    (m.runs.map fun r => (r.call.program, r.call.arguments)) =
      m'.runs.map fun r => (r.call.program, r.call.arguments) := by
  have hruns := h.runs
  generalize m.runs = runs, m'.runs = runs' at hruns ⊢
  induction hruns with
  | nil => rfl
  | cons hrun _ ih =>
    obtain ⟨hprogram, harguments⟩ := hrun.call.program_arguments
    rw [List.map_cons, List.map_cons, ih, hprogram, harguments]

/-- One more call with the same answer. -/
theorem launch_resembles {call call' : Call} (h : m.Resembles keys m')
    (hcall : call.SameButSecret call')
    (halike : AnsweredAlike (m.launch call).2 (m'.launch call').2) :
    (m.launch call).1 = (m'.launch call').1 ∧
      (m.launch call).2.Resembles keys (m'.launch call').2 := by
  have hlast : (m.launch call).1 = (m'.launch call').1 := by
    refine halike m.runs.length ⟨call, (m.launch call).1⟩ ⟨call', (m'.launch call').1⟩ ?_ ?_
    · simp [launch_runs]
    · simp [launch_runs, h.runs.length_eq]
  refine ⟨hlast, h.disk, ?_⟩
  exact List.rel_append h.runs (.cons ⟨hcall, hlast⟩ .nil)

end Machine

namespace Executor

variable {m m' : Machine}

/-- The result of a command is read off the answer to its call. -/
theorem run_fst (program : String) (arguments : List String) (m : Machine) :
    (run program arguments m).1 =
      match (m.launch ⟨program, arguments, ""⟩).1 with
      | .error e => .error (.launchFailed program e)
      | .ok outcome =>
        if outcome.succeeded then .ok (outputOf outcome)
        else .error (.commandFailed
          ((outputOf outcome).output ++ "\n" ++ (outputOf outcome).errors)) := by
  rw [run]
  obtain ⟨answer, after⟩ := m.launch ⟨program, arguments, ""⟩
  cases answer with
  | error e => rfl
  | ok outcome => exact apply_ite Prod.fst _ _ _

/-- The result of a command that is given a secret is read off the answer of the helper. -/
theorem runWithSecret_fst (x : Executor) (command secret : String) (m : Machine) :
    (x.runWithSecret command secret m).1 =
      match (m.launch (x.helperCall command secret)).1 with
      | .error e => .error (.launchFailed x.helper.text e)
      | .ok outcome =>
        if outcome.succeeded then .ok (outputOf outcome)
        else .error (.commandFailed (if Text.trim (outputOf outcome).errors = ""
          then (outputOf outcome).output else (outputOf outcome).errors)) := by
  rw [runWithSecret]
  obtain ⟨answer, after⟩ := m.launch (x.helperCall command secret)
  cases answer with
  | error e => rfl
  | ok outcome => exact apply_ite Prod.fst _ _ _

theorem run_resembles {program : String} {arguments : List String} (h : m.Resembles keys m')
    (halike : (run program arguments m).2.AnsweredAlike (run program arguments m').2) :
    (run program arguments m).1 = (run program arguments m').1 ∧
      (run program arguments m).2.Resembles keys (run program arguments m').2 := by
  rw [run_snd, run_snd] at halike ⊢
  obtain ⟨hanswer, hmachine⟩ := m.launch_resembles h (.same _) halike
  exact ⟨by rw [run_fst, run_fst, hanswer], hmachine⟩

/-- The result of a command that is given a secret does not depend on it, if the answer of the
helper does not. -/
theorem runWithSecret_resembles {x : Executor} {command secret secret' : String}
    (h : m.Resembles keys m')
    (halike : (x.runWithSecret command secret m).2.AnsweredAlike
      (x.runWithSecret command secret' m').2) :
    (x.runWithSecret command secret m).1 = (x.runWithSecret command secret' m').1 ∧
      (x.runWithSecret command secret m).2.Resembles keys
        (x.runWithSecret command secret' m').2 := by
  rw [runWithSecret_snd, runWithSecret_snd] at halike ⊢
  obtain ⟨hanswer, hmachine⟩ := m.launch_resembles h (.helper x command secret secret') halike
  exact ⟨by rw [runWithSecret_fst, runWithSecret_fst, hanswer], hmachine⟩

end Executor

/-! ### Stations -/

/-- Two stores differ in nothing but the secret, if there is one. -/
structure CredentialStore.Resembles (store store' : CredentialStore) : Prop where
  path : store.path = store'.path
  persist : store.persist = store'.persist
  cached : store.cached.isSome = store'.cached.isSome
  requested : store.requested = store'.requested

/-- Two stations differ in nothing but secrets and hidden contents. -/
structure Station.Resembles (keys : Place → Bool) (s s' : Station) : Prop where
  machine : s.machine.Resembles keys s'.machine
  store : s.store.Resembles s'.store
  signals : s.signals = s'.signals

/-- Nothing of a secret is shown of itself, of a store or of the rule for administrator rights. -/
theorem CredentialStore.Resembles.description_eq {store store' : CredentialStore}
    (h : store.Resembles store') :
    store.cached.map Credential.description = store'.cached.map Credential.description ∧
      store.description = store'.description ∧
      ∀ e : Elevator, e.description store = e.description store' := by
  have hcached := h.cached
  have hcredential : store.cached.map Credential.description =
      store'.cached.map Credential.description := by
    cases hsome : store.cached <;> cases hsome' : store'.cached <;>
      simp_all [Credential.description]
  have hstore : store.description = store'.description := by
    unfold CredentialStore.description
    rw [h.path, h.cached]
  refine ⟨hcredential, hstore, fun e => ?_⟩
  unfold Elevator.description
  rw [hstore]

namespace CredentialStore

/-- Forgetting a secret takes its file away, if there is one. -/
theorem clear_snd (store : CredentialStore) (d : Disk) :
    (store.clear d).2 = (d.unlink store.path).toOption.getD d := by
  rw [clear]
  cases d.unlink store.path <;> rfl

theorem clear_hide (keys : Place → Bool) (store : CredentialStore) (d : Disk) :
    (store.clear (d.hide keys)).2 = (store.clear d).2.hide keys := by
  rw [clear_snd, clear_snd, Disk.unlink_hide]
  cases d.unlink store.path <;> rfl

end CredentialStore

namespace Station

variable {s s' : Station}

theorem Resembles.disk (h : s.Resembles keys s') : s.disk.hide keys = s'.disk.hide keys :=
  h.machine.disk

theorem log_resembles (h : s.Resembles keys s') (line : String) :
    (s.log line).Resembles keys (s'.log line) :=
  ⟨h.machine, h.store, congrArg (·.log line) h.signals⟩

theorem setBusy_resembles (h : s.Resembles keys s') (busy : Bool) :
    (s.setBusy busy).Resembles keys (s'.setBusy busy) :=
  ⟨h.machine, h.store, congrArg (·.setBusy busy) h.signals⟩

theorem setBytes_resembles (h : s.Resembles keys s') (bytes : Nat) :
    (s.setBytes bytes).Resembles keys (s'.setBytes bytes) :=
  ⟨h.machine, h.store, congrArg (·.setBytes bytes) h.signals⟩

theorem withDisk_resembles {d d' : Disk} (h : s.Resembles keys s')
    (hdisk : d.hide keys = d'.hide keys) : (s.withDisk d).Resembles keys (s'.withDisk d') :=
  ⟨⟨hdisk, h.machine.runs⟩, h.store, h.signals⟩

theorem requestCredential_resembles (h : s.Resembles keys s') :
    s.requestCredential.Resembles keys s'.requestCredential :=
  ⟨h.machine, ⟨h.store.path, h.store.persist, h.store.cached,
    congrArg (·.send true) h.store.requested⟩, h.signals⟩

/-- The secret is forgotten in the same way whatever it is. -/
theorem clearCredential_resembles (h : s.Resembles keys s') :
    s.clearCredential.Resembles keys s'.clearCredential := by
  have hdisk : (s.store.clear s.disk).2.hide keys = (s'.store.clear s'.disk).2.hide keys := by
    rw [← CredentialStore.clear_hide, ← CredentialStore.clear_hide, h.disk,
      CredentialStore.clear_snd, CredentialStore.clear_snd, h.store.path]
  refine ⟨⟨hdisk, h.machine.runs⟩, ?_, h.signals⟩
  rw [store_clear, store_clear]
  exact ⟨h.store.path, h.store.persist, rfl, h.store.requested⟩

/-- **Two secrets are supplied.** If what a lasting store writes is hidden, the stations differ in
nothing but the secrets. -/
theorem setCredential_resembles (h : s.Resembles keys s') (c c' : Credential)
    (hwrites : s.store.persist = true → s.disk.WritesIn keys s.store.path) :
    (s.setCredential c).Resembles keys (s'.setCredential c') := by
  have hdisk : (s.store.set c s.disk).2.hide keys = (s'.store.set c' s'.disk).2.hide keys := by
    rw [CredentialStore.set_snd, CredentialStore.set_snd, ← h.store.persist, ← h.store.path]
    split
    next hpersist =>
      have hhidden := hwrites hpersist
      rw [← Disk.writeOwnerOnly_hide hhidden, h.disk,
        Disk.writeOwnerOnly_hide (hhidden.congr h.disk)]
    next => exact h.disk
  refine ⟨⟨hdisk, h.machine.runs⟩, ?_, h.signals⟩
  exact ⟨h.store.path, h.store.persist, rfl, congrArg (·.send false) h.store.requested⟩

end Station

/-! ### A command with administrator rights -/

namespace Elevator

variable {e : Elevator} {command : String} {s s' : Station}

theorem settle_resembles (h : s.Resembles keys s') (result : Except ExecError Output) :
    (settle result s).1 = (settle result s').1 ∧
      (settle result s).2.Resembles keys (settle result s').2 := by
  match result with
  | .ok _ => exact ⟨rfl, h⟩
  | .error (.commandFailed _) =>
    exact ⟨rfl, Station.requestCredential_resembles (Station.clearCredential_resembles h)⟩
  | .error (.launchFailed ..) => exact ⟨rfl, h⟩

/-- **A command with administrator rights does not tell the secret.** If the programs give the same
answers, its result and what becomes of the station are the same, whatever the secret is. -/
theorem run_resembles (h : s.Resembles keys s')
    (halike : (e.run command s).2.machine.AnsweredAlike (e.run command s').2.machine) :
    (e.run command s).1 = (e.run command s').1 ∧
      (e.run command s).2.Resembles keys (e.run command s').2 := by
  have hcached := h.store.cached
  cases hsome : s.store.cached with
  | some c =>
    cases hsome' : s'.store.cached with
    | none => rw [hsome, hsome'] at hcached; cases hcached
    | some c' =>
      simp only [run, hsome, hsome'] at halike ⊢
      have hanswers : (e.executor.runWithSecret command c.secret s.machine).2.AnsweredAlike
          (e.executor.runWithSecret command c'.secret s'.machine).2 :=
        halike.of_prefix_runs (by rw [settle_runs]) (by rw [settle_runs])
      obtain ⟨hresult, hmachine⟩ := Executor.runWithSecret_resembles h.machine hanswers
      have hstation : Station.Resembles keys
          { s with machine := (e.executor.runWithSecret command c.secret s.machine).2 }
          { s' with machine := (e.executor.runWithSecret command c'.secret s'.machine).2 } :=
        ⟨hmachine, h.store, h.signals⟩
      rw [← hresult]
      exact settle_resembles hstation _
  | none =>
    cases hsome' : s'.store.cached with
    | some c' => rw [hsome, hsome'] at hcached; cases hcached
    | none =>
      simp only [run, hsome, hsome'] at halike ⊢
      split at halike
      next hconsent =>
        obtain ⟨hresult, hmachine⟩ := Executor.run_resembles h.machine halike
        rw [if_pos hconsent, if_pos hconsent]
        have hfailed := congrArg (Except.mapError ElevationError.failed) hresult
        exact ⟨hfailed, hmachine, h.store, h.signals⟩
      next hconsent =>
        rw [if_neg hconsent, if_neg hconsent]
        exact ⟨rfl, Station.requestCredential_resembles h⟩

end Elevator

/-! ### Maintenance -/

namespace Maintenance

variable {e : Elevator} {step : MaintenanceStep} {s s' : Station}

/-- The programs of a step go on from the first one by its result. -/
theorem runUser_cons (bestEffort : Bool) (i : Invocation) (rest : List Invocation) (m : Machine) :
    runUser bestEffort (i :: rest) m =
      match (Executor.run i.program i.arguments m).1 with
      | .ok _ => runUser bestEffort rest (Executor.run i.program i.arguments m).2
      | .error error =>
        if bestEffort then runUser bestEffort rest (Executor.run i.program i.arguments m).2
        else (.error (.failed error), (Executor.run i.program i.arguments m).2) := by
  rw [runUser]
  obtain ⟨result, after⟩ := Executor.run i.program i.arguments m
  cases result <;> rfl

theorem runs_prefix_runUser_cons (bestEffort : Bool) (i : Invocation) (rest : List Invocation)
    (m : Machine) : (Executor.run i.program i.arguments m).2.runs <+:
      (runUser bestEffort (i :: rest) m).2.runs := by
  have hrest :=
    (runUser_ranOnly bestEffort rest (Executor.run i.program i.arguments m).2).prefix_runs
  rw [runUser_cons]
  split
  next => exact hrest
  next =>
    split
    · exact hrest
    · exact List.prefix_refl _

theorem runUser_resembles {m m' : Machine} {bestEffort : Bool} {invocations : List Invocation}
    (h : m.Resembles keys m')
    (halike : (runUser bestEffort invocations m).2.AnsweredAlike
      (runUser bestEffort invocations m').2) :
    (runUser bestEffort invocations m).1 = (runUser bestEffort invocations m').1 ∧
      (runUser bestEffort invocations m).2.Resembles keys
        (runUser bestEffort invocations m').2 := by
  induction invocations generalizing m m' with
  | nil => exact ⟨rfl, h⟩
  | cons i rest ih =>
    have hfirst := halike.of_prefix_runs (runs_prefix_runUser_cons bestEffort i rest m)
      (runs_prefix_runUser_cons bestEffort i rest m')
    obtain ⟨hresult, hmachine⟩ := Executor.run_resembles h hfirst
    rw [runUser_cons, runUser_cons, ← hresult] at halike ⊢
    generalize (Executor.run i.program i.arguments m).1 = result at halike ⊢
    cases result with
    | ok output => exact ih hmachine halike
    | error error =>
      cases bestEffort with
      | true => exact ih hmachine halike
      | false => exact ⟨rfl, hmachine⟩

theorem execute_resembles (h : s.Resembles keys s')
    (halike : (execute e step s).2.machine.AnsweredAlike (execute e step s').2.machine) :
    (execute e step s).1 = (execute e step s').1 ∧
      (execute e step s).2.Resembles keys (execute e step s').2 := by
  cases haction : step.action with
  | elevated command =>
    rw [execute_elevated haction, execute_elevated haction] at halike ⊢
    obtain ⟨hresult, hstation⟩ := Elevator.run_resembles h halike
    exact ⟨congrArg elevatedResult hresult, hstation⟩
  | user invocations =>
    simp only [execute, haction] at halike ⊢
    obtain ⟨hresult, hmachine⟩ := runUser_resembles h.machine halike
    exact ⟨hresult, hmachine, h.store, h.signals⟩

theorem runStep_resembles {report : MaintenanceReport} (h : s.Resembles keys s')
    (halike : (runStep e (report, s) step).2.machine.AnsweredAlike
      (runStep e (report, s') step).2.machine) :
    (runStep e (report, s) step).1 = (runStep e (report, s') step).1 ∧
      (runStep e (report, s) step).2.Resembles keys (runStep e (report, s') step).2 := by
  cases hheld : report.paused && step.isElevated with
  | true =>
    rw [runStep, runStep, if_pos hheld, if_pos hheld]
    exact ⟨rfl, h⟩
  | false =>
    have hlogged := Station.log_resembles h ("Running: " ++ step.label)
    rw [runStep_of_not_held hheld, runStep_of_not_held hheld] at halike ⊢
    dsimp only at halike ⊢
    rw [(getD_map_log _ _).1, (getD_map_log _ _).1] at halike
    obtain ⟨hresult, hstation⟩ := execute_resembles hlogged halike
    rw [← hresult]
    refine ⟨rfl, ?_⟩
    cases (statusOf (execute e step (s.log ("Running: " ++ step.label))).1).2 with
    | none => exact hstation
    | some line => exact Station.log_resembles hstation line

theorem runs_prefix_runStep (e : Elevator) (report : MaintenanceReport) (s : Station)
    (step : MaintenanceStep) :
    s.machine.runs <+: (runStep e (report, s) step).2.machine.runs := by
  obtain ⟨t, -, -, hruns, -⟩ := exists_turn e report s step
  exact ⟨t.runs, hruns.symm⟩

theorem runs_prefix_foldl (e : Elevator) (steps : List MaintenanceStep)
    (state : MaintenanceReport × Station) :
    state.2.machine.runs <+: (steps.foldl (runStep e) state).2.machine.runs := by
  induction steps generalizing state with
  | nil => exact List.prefix_refl _
  | cons step steps ih => exact (runs_prefix_runStep e state.1 state.2 step).trans (ih _)

theorem foldl_resembles {steps : List MaintenanceStep} {report : MaintenanceReport}
    (h : s.Resembles keys s')
    (halike : (steps.foldl (runStep e) (report, s)).2.machine.AnsweredAlike
      (steps.foldl (runStep e) (report, s')).2.machine) :
    (steps.foldl (runStep e) (report, s)).1 = (steps.foldl (runStep e) (report, s')).1 ∧
      (steps.foldl (runStep e) (report, s)).2.Resembles keys
        (steps.foldl (runStep e) (report, s')).2 := by
  induction steps generalizing report s s' with
  | nil => exact ⟨rfl, h⟩
  | cons step steps ih =>
    rw [List.foldl_cons, List.foldl_cons] at halike ⊢
    have hfirst := halike.of_prefix_runs (runs_prefix_foldl e steps (runStep e (report, s) step))
      (runs_prefix_foldl e steps (runStep e (report, s') step))
    obtain ⟨hreport, hstation⟩ := runStep_resembles h hfirst
    generalize runStep e (report, s) step = next, runStep e (report, s') step = next'
      at halike hreport hstation ⊢
    obtain ⟨report, s⟩ := next
    obtain ⟨report', s'⟩ := next'
    obtain rfl : report = report' := hreport
    exact ih hstation halike

theorem runs_prefix_run (e : Elevator) (steps : List MaintenanceStep) (s : Station) :
    s.machine.runs <+: (run e steps s).2.machine.runs :=
  runs_prefix_foldl e steps (⟨[], false⟩, s.setBusy true)

/-- **Maintenance does not tell the secret.** If the programs give the same answers, the report, the
signals and what becomes of the station are the same, whatever the secret is. -/
theorem run_resembles {steps : List MaintenanceStep} (h : s.Resembles keys s')
    (halike : (run e steps s).2.machine.AnsweredAlike (run e steps s').2.machine) :
    (run e steps s).1 = (run e steps s').1 ∧
      (run e steps s).2.Resembles keys (run e steps s').2 := by
  obtain ⟨hreport, hstation⟩ := foldl_resembles (Station.setBusy_resembles h true) halike
  refine ⟨hreport, ?_⟩
  simp only [run, ← hreport]
  exact Station.setBusy_resembles (Station.log_resembles hstation _) false

end Maintenance

/-! ### Cleaning -/

namespace Cleaner

variable {home : Option Path} {present : Path → Bool} {c : Cleaner} {s s' : Station}

/-- Nothing is hidden of what a clean looks at: the trees of the user's directories and of those
directories of the system that the command would empty. -/
structure ShowsClean (keys : Place → Bool) (c : Cleaner) (d : Disk) : Prop where
  sound : d.top.Sound
  user : ∀ root ∈ c.catalog.user, d.ShowsTree keys root.path
  system : ∀ root ∈ c.catalog.eligibleRoots (fun _ => true), d.ShowsTree keys ⟨root⟩

instance [DecidablePred (ShowsAll keys)] (c : Cleaner) (d : Disk) :
    Decidable (c.ShowsClean keys d) :=
  decidable_of_iff (d.top.Sound ∧ (∀ root ∈ c.catalog.user, d.ShowsTree keys root.path) ∧
      ∀ root ∈ c.catalog.eligibleRoots (fun _ => true), d.ShowsTree keys ⟨root⟩)
    ⟨fun h => ⟨h.1, h.2.1, h.2.2⟩, fun h => ⟨h.sound, h.user, h.system⟩⟩

theorem visit_resembles {root : ReclaimRoot} (h : s.Resembles keys s') (hsound : s.disk.top.Sound)
    (hroot : s.disk.ShowsTree keys root.path) (total : Sweep) :
    (visit home (total, s) root).1 = (visit home (total, s') root).1 ∧
      (visit home (total, s) root).2.Resembles keys (visit home (total, s') root).2 := by
  simp only [visit, ← Disk.isPresent_congr h.disk]
  split
  next =>
    have hlogged := Station.log_resembles h ("Cleaning " ++ root.label ++ "...")
    obtain ⟨hsweep, hdisk⟩ := Sweep.run_congr hlogged.disk hsound hroot
    exact ⟨congrArg total.add hsweep, Station.withDisk_resembles hlogged hdisk⟩
  next => exact ⟨rfl, h⟩

/-- What is left by the user's part is a part of what there was. -/
theorem isPartOf_runUser (hsound : s.disk.top.Sound) (home : Option Path) (c : Cleaner) :
    Node.IsPartOf (c.runUser home s).2.disk.top s.disk.top := by
  rw [(runUser_eq home c s).2]
  exact isPartOf_sweepAll home hsound c.catalog.user

/-- The directories are swept one after the other; what one sweep leaves is a part of what there
was, so nothing is hidden of the others. -/
theorem foldl_visit_resembles {roots : List ReclaimRoot} (h : s.Resembles keys s')
    (hsound : s.disk.top.Sound) (hroots : ∀ root ∈ roots, s.disk.ShowsTree keys root.path)
    (total : Sweep) :
    (roots.foldl (visit home) (total, s)).1 = (roots.foldl (visit home) (total, s')).1 ∧
      (roots.foldl (visit home) (total, s)).2.Resembles keys
        (roots.foldl (visit home) (total, s')).2 := by
  induction roots generalizing total s s' with
  | nil => exact ⟨rfl, h⟩
  | cons root roots ih =>
    obtain ⟨hroot, hroots⟩ := List.forall_mem_cons.mp hroots
    obtain ⟨hsweep, hstation⟩ := visit_resembles h hsound hroot total
    have hdisk := disk_visit home total s root
    rw [List.foldl_cons, List.foldl_cons]
    generalize visit home (total, s) root = next, visit home (total, s') root = next'
      at hsweep hstation hdisk ⊢
    obtain ⟨total, after⟩ := next
    obtain ⟨total', after'⟩ := next'
    obtain rfl : total = total' := hsweep
    refine ih hstation ?_ (fun root hmem => ?_) total
    · rw [hdisk]
      exact sound_run home hsound root
    · refine (hroots root hmem).of_isPartOf ?_
      rw [hdisk]
      exact isPartOf_run home hsound _

theorem runUser_resembles (h : s.Resembles keys s') (hshows : c.ShowsClean keys s.disk) :
    (c.runUser home s).1 = (c.runUser home s').1 ∧
      (c.runUser home s).2.Resembles keys (c.runUser home s').2 :=
  foldl_visit_resembles h hshows.sound hshows.user {}

theorem pendingBytes_congr {d d' : Disk} {roots : List String} (h : d.hide keys = d'.hide keys)
    (hroots : ∀ root ∈ roots, d.ShowsTree keys ⟨root⟩) :
    pendingBytes roots d = pendingBytes roots d' := by
  rw [pendingBytes, pendingBytes]
  congr 1
  refine List.map_congr_left fun root hroot => ?_
  have hshown := hroots root hroot
  rw [← Disk.folderSize_hide hshown, h, Disk.folderSize_hide (hshown.congr h)]

/-- The part of the system by the result of its command. -/
theorem runSystem_of_command {command : String}
    (h : c.catalog.systemCommand? present = some command) (s : Station) :
    let ran := c.elevator.run command (s.log "Authorizing System Cleanup...")
    c.runSystem present s =
      match ran.1 with
      | .ok _ => ((.cleaned, pendingBytes (c.catalog.eligibleRoots present) s.disk), ran.2)
      | .error .authorizationRequired =>
        ((.needsAuthorization, 0), ran.2.log "Requires Authorization")
      | .error (.rejected _) =>
        ((.credentialRejected, 0), ran.2.log "Password Incorrect/Expired")
      | .error (.failed error) => ((.failed error.message, 0), ran.2.log (if error.isCancelled
          then "Cleanup Cancelled by User" else "Error: " ++ error.message)) := by
  intro ran
  have hran : c.elevator.run command (s.log "Authorizing System Cleanup...") = ran := rfl
  simp only [runSystem, h, hran]
  obtain ⟨result, after⟩ := ran
  cases result with
  | ok output => rfl
  | error error => cases error <;> rfl

theorem runSystem_resembles (h : s.Resembles keys s')
    (hshows : ∀ root ∈ c.catalog.eligibleRoots present, s.disk.ShowsTree keys ⟨root⟩)
    (halike : (c.runSystem present s).2.machine.AnsweredAlike
      (c.runSystem present s').2.machine) :
    (c.runSystem present s).1 = (c.runSystem present s').1 ∧
      (c.runSystem present s).2.Resembles keys (c.runSystem present s').2 := by
  cases hcommand : c.catalog.systemCommand? present with
  | none =>
    rw [runSystem, runSystem, hcommand]
    exact ⟨rfl, h⟩
  | some command =>
    have hlogged := Station.log_resembles h "Authorizing System Cleanup..."
    have hpending := pendingBytes_congr h.disk hshows
    have hgrown : ∀ s : Station,
        (c.elevator.run command (s.log "Authorizing System Cleanup...")).2.machine.runs <+:
          (c.runSystem present s).2.machine.runs := by
      intro s
      rw [runSystem_of_command hcommand]
      split <;> exact List.prefix_refl _
    obtain ⟨hresult, hstation⟩ :=
      Elevator.run_resembles hlogged (halike.of_prefix_runs (hgrown s) (hgrown s'))
    rw [runSystem_of_command hcommand, runSystem_of_command hcommand, ← hresult, ← hpending]
    split
    · exact ⟨rfl, hstation⟩
    · exact ⟨rfl, Station.log_resembles hstation _⟩
    · exact ⟨rfl, Station.log_resembles hstation _⟩
    · exact ⟨rfl, Station.log_resembles hstation _⟩

theorem runs_prefix_runOn (home : Option Path) (present : Disk → Path → Bool) (c : Cleaner)
    (s : Station) : s.machine.runs <+: (c.runOn home present s).2.machine.runs :=
  (Operation.perform_ranOnly home (.clean c present) s).prefix_runs

/-- A clean is the part of the user and then the part of the system. -/
theorem runOn_eq (home : Option Path) (present : Disk → Path → Bool) (c : Cleaner) (s : Station) :
    let user := c.runUser home (s.setBusy true)
    let system := c.runSystem (present user.2.disk) user.2
    let finished := system.1.1 == .notNeeded || system.1.1 == .cleaned
    c.runOn home present s = (⟨user.1, system.1.1, system.1.2⟩,
      (if finished then (system.2.setBytes 0).log "Cleaned" else system.2).setBusy false) :=
  rfl

/-- **A clean does not tell the secret.** If the programs give the same answers and nothing is
hidden of the trees that are swept or measured, the report, the signals and what becomes of the
station are the same, whatever the secret is. -/
theorem runOn_resembles (h : s.Resembles keys s') (hshows : c.ShowsClean keys s.disk)
    (halike : (c.runOn home Disk.isPresent s).2.machine.AnsweredAlike
      (c.runOn home Disk.isPresent s').2.machine) :
    (c.runOn home Disk.isPresent s).1 = (c.runOn home Disk.isPresent s').1 ∧
      (c.runOn home Disk.isPresent s).2.Resembles keys (c.runOn home Disk.isPresent s').2 := by
  obtain ⟨huser, hafter⟩ :=
    runUser_resembles (Station.setBusy_resembles h true) hshows
  have hpart : Node.IsPartOf (c.runUser home (s.setBusy true)).2.disk.top s.disk.top :=
    isPartOf_runUser (s := s.setBusy true) hshows.sound home c
  rw [runOn_eq, runOn_eq, ← huser, ← Disk.isPresent_congr hafter.disk] at halike ⊢
  generalize c.runUser home (s.setBusy true) = user, c.runUser home (s'.setBusy true) = user'
    at hafter hpart halike ⊢
  have hsystem : ∀ root ∈ c.catalog.eligibleRoots user.2.disk.isPresent,
      user.2.disk.ShowsTree keys ⟨root⟩ := by
    intro root hroot
    rw [Catalog.eligibleRoots, List.mem_filter] at hroot
    obtain ⟨hroot, hlisted⟩ := hroot
    refine (hshows.system root (List.mem_filter.mpr ⟨hroot, ?_⟩)).of_isPartOf hpart
    rw [Bool.and_true]
    exact (Bool.and_eq_true_iff.mp hlisted).1
  have hgrown : ∀ (finished : Bool) (s : Station), s.machine.runs <+:
      ((if finished then (s.setBytes 0).log "Cleaned" else s).setBusy false).machine.runs := by
    intro finished s
    cases finished <;> exact List.prefix_refl _
  obtain ⟨hphase, hlast⟩ := runSystem_resembles hafter hsystem
    (halike.of_prefix_runs (hgrown _ _) (hgrown _ _))
  rw [← hphase]
  refine ⟨rfl, Station.setBusy_resembles ?_ false⟩
  split
  · exact Station.log_resembles (Station.setBytes_resembles hlast 0) _
  · exact hlast

end Cleaner

end Reclaim
