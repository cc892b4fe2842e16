import Mathlib.Data.List.Sublists
import Reclaim.Clean
import Reclaim.Maintenance

/-!
# Which commands get administrator rights

A command gets administrator rights in one of two ways: as an argument of the helper that reads a
secret, or inside a script for the consent runner.  Over any session of cleans and maintenance,
with any catalogs and any state of the credential store, the commands that do are a handful of
fixed texts.  A catalog only selects among the two clauses for the system directories; none of its
own texts is ever part of a command.

## Main definitions

* `Machine.RanOnly` : a machine has grown by runs whose calls are all of one kind.
* `Elevator.HandsOver` : a call hands a command over to be run with administrator rights.
* `Catalog.Selects` : a command empties exactly the system directories that a catalog lists and
  that exist.
* `Operation`, `Operation.performAll` : sessions.

## Main results

* `Catalog.selects_systemCommand` : the command of a catalog is a selection of the two clauses.
* `Elevator.run_ranOnly` : an elevation makes no call but those that hand its command over.
* `performAll_elevated_commands` : the commands of a session.
-/

namespace Reclaim

/-! ### Growing logs of runs -/

namespace Machine

/-- The second machine has made further runs after those of the first, and all their calls are of
the given kind. -/
def RanOnly (kind : Call → Prop) (m m' : Machine) : Prop :=
  ∃ new, m'.runs = m.runs ++ new ∧ ∀ r ∈ new, kind r.call

variable {kind kind' : Call → Prop} {m m' m'' : Machine}

theorem RanOnly.of_runs_eq (h : m'.runs = m.runs) : RanOnly kind m m' :=
  ⟨[], by simp [h], by simp⟩

theorem RanOnly.refl (m : Machine) : RanOnly kind m m :=
  .of_runs_eq rfl

theorem RanOnly.trans (h : RanOnly kind m m') (h' : RanOnly kind m' m'') :
    RanOnly kind m m'' := by
  obtain ⟨new, hnew, hkind⟩ := h
  obtain ⟨new', hnew', hkind'⟩ := h'
  refine ⟨new ++ new', by rw [hnew', hnew, List.append_assoc], fun r hr => ?_⟩
  rcases List.mem_append.mp hr with hr | hr
  · exact hkind r hr
  · exact hkind' r hr

theorem RanOnly.mono (h : RanOnly kind m m') (hk : ∀ call, kind call → kind' call) :
    RanOnly kind' m m' := by
  obtain ⟨new, hnew, hkind⟩ := h
  exact ⟨new, hnew, fun r hr => hk _ (hkind r hr)⟩

theorem ranOnly_launch {call : Call} (h : kind call) : RanOnly kind m (m.launch call).2 :=
  ⟨_, m.launch_runs call, by simpa using h⟩

end Machine

/-! ### Handing a command over -/

namespace Executor

/-- The call of the consent runner for a command. -/
def consentCall (x : Executor) (command : String) : Call where
  program := x.consent.text
  arguments := ["-e", consentScript command]

theorem run_ranOnly (program : String) (arguments : List String) (m : Machine) :
    m.RanOnly (· = ⟨program, arguments, ""⟩) (run program arguments m).2 := by
  rw [run_snd]
  exact Machine.ranOnly_launch rfl

theorem runWithConsent_ranOnly (x : Executor) (command : String) (m : Machine) :
    m.RanOnly (· = x.consentCall command) (x.runWithConsent command m).2 :=
  run_ranOnly x.consent.text ["-e", consentScript command] m

theorem runWithSecret_ranOnly (x : Executor) (command secret : String) (m : Machine) :
    m.RanOnly (· = x.helperCall command secret) (x.runWithSecret command secret m).2 := by
  rw [runWithSecret_snd]
  exact Machine.ranOnly_launch rfl

end Executor

namespace Station

@[simp] theorem log_machine (s : Station) (line : String) : (s.log line).machine = s.machine := rfl

@[simp] theorem setBusy_machine (s : Station) (busy : Bool) :
    (s.setBusy busy).machine = s.machine := rfl

@[simp] theorem setBytes_machine (s : Station) (bytes : Nat) :
    (s.setBytes bytes).machine = s.machine := rfl

@[simp] theorem requestCredential_machine (s : Station) :
    s.requestCredential.machine = s.machine := rfl

@[simp] theorem withDisk_runs (s : Station) (d : Disk) :
    (s.withDisk d).machine.runs = s.machine.runs := rfl

@[simp] theorem clearCredential_runs (s : Station) :
    s.clearCredential.machine.runs = s.machine.runs := rfl

@[simp] theorem setCredential_runs (s : Station) (c : Credential) :
    (s.setCredential c).machine.runs = s.machine.runs := rfl

end Station

namespace Elevator

/-- The call hands the command over to be run with administrator rights: to the helper behind
`-c`, or to the consent runner inside a script. -/
def HandsOver (e : Elevator) (command : String) (call : Call) : Prop :=
  (∃ secret, call = e.executor.helperCall command secret) ∨ call = e.executor.consentCall command

theorem settle_runs (result : Except ExecError Output) (s : Station) :
    (settle result s).2.machine.runs = s.machine.runs := by
  match result with
  | .ok _ => rfl
  | .error (.commandFailed _) => rfl
  | .error (.launchFailed ..) => rfl

/-- An elevation makes no call but those that hand its command over. -/
theorem run_ranOnly (e : Elevator) (command : String) (s : Station) :
    s.machine.RanOnly (e.HandsOver command) (e.run command s).2.machine := by
  simp only [run]
  split
  next credential _ =>
    have hrun := e.executor.runWithSecret_ranOnly command credential.secret s.machine
    exact (hrun.mono fun _ h => .inl ⟨_, h⟩).trans (.of_runs_eq (settle_runs ..))
  next =>
    split
    · exact (e.executor.runWithConsent_ranOnly command s.machine).mono fun _ h => .inr h
    · exact .refl _

end Elevator

/-! ### The command of a catalog -/

namespace Catalog

/-- The command empties exactly the system directories that the catalog lists and that exist.  It
is made of the clauses for some of the two system directories, each at most once and in their
fixed order. -/
def Selects (c : Catalog) (present : Path → Bool) (command : String) : Prop :=
  ∃ roots, roots ≠ [] ∧ roots.Nodup ∧ roots.Sublist Safety.systemRoots ∧
    (∀ root ∈ Safety.systemRoots, root ∈ roots ↔
      (∃ entry ∈ c.system, entry.path.components = (Path.mk root).components) ∧
        present ⟨root⟩ = true) ∧
    command = String.intercalate "; " (roots.map clause)

theorem mem_eligibleRoots_iff (c : Catalog) (present : Path → Bool) {root : String}
    (hroot : root ∈ Safety.systemRoots) : root ∈ c.eligibleRoots present ↔
      (∃ entry ∈ c.system, entry.path.components = (Path.mk root).components) ∧
        present ⟨root⟩ = true := by
  simp [eligibleRoots, hroot, Path.same]

/-- The command of a catalog is a selection of the two clauses. -/
theorem selects_systemCommand {c : Catalog} {present : Path → Bool} {command : String}
    (h : c.systemCommand? present = some command) : c.Selects present command := by
  simp only [systemCommand?] at h
  split at h
  · cases h
  next roots hroots =>
    have hsub : (c.eligibleRoots present).Sublist Safety.systemRoots := List.filter_sublist
    exact ⟨c.eligibleRoots present, hroots, hsub.nodup (by decide), hsub,
      fun root hroot => c.mem_eligibleRoots_iff present hroot, (Option.some.inj h).symm⟩

/-- The commands that can be made of the two clauses. -/
def clauseTexts : List String :=
  ["rm -rf \"/Library/Caches\"/*", "rm -rf \"/Library/Logs\"/*",
    "rm -rf \"/Library/Caches\"/*; rm -rf \"/Library/Logs\"/*"]

theorem Selects.mem_clauseTexts {c : Catalog} {present : Path → Bool} {command : String}
    (h : c.Selects present command) : command ∈ clauseTexts := by
  obtain ⟨roots, hne, -, hsub, -, rfl⟩ := h
  have hall : ∀ roots ∈ Safety.systemRoots.sublists, roots ≠ [] →
      String.intercalate "; " (roots.map clause) ∈ clauseTexts := by decide
  exact hall roots (List.mem_sublists.mpr hsub) hne

end Catalog

/-! ### Cleans and maintenance -/

namespace Cleaner

theorem visit_runs (home : Option Path) (total : Sweep) (s : Station) (root : ReclaimRoot) :
    (visit home (total, s) root).2.machine.runs = s.machine.runs := by
  simp only [visit]
  split <;> rfl

theorem runUser_runs (home : Option Path) (c : Cleaner) (s : Station) :
    (c.runUser home s).2.machine.runs = s.machine.runs := by
  have hfold : ∀ (roots : List ReclaimRoot) (total : Sweep) (s : Station),
      (roots.foldl (visit home) (total, s)).2.machine.runs = s.machine.runs := by
    intro roots
    induction roots with
    | nil => intro _ _; rfl
    | cons root roots ih =>
      intro total s
      rw [List.foldl_cons, ih, visit_runs]
  exact hfold c.catalog.user {} s

/-- The system part makes no call but those that hand a selection of clauses over. -/
theorem runSystem_ranOnly (present : Path → Bool) (c : Cleaner) (s : Station) :
    s.machine.RanOnly
      (fun call => ∃ command, c.catalog.Selects present command ∧ c.elevator.HandsOver command call)
      (c.runSystem present s).2.machine := by
  simp only [runSystem]
  split
  · exact .refl _
  next command hcommand =>
    have hrun := c.elevator.run_ranOnly command (s.log "Authorizing System Cleanup...")
    have hover := hrun.mono fun call h =>
      (⟨command, Catalog.selects_systemCommand hcommand, h⟩ :
        ∃ command, c.catalog.Selects present command ∧ c.elevator.HandsOver command call)
    split
    all_goals next he => simpa only [he, Station.log_machine] using hover

end Cleaner

namespace Maintenance

/-- The call runs a program of one of the usual steps as the current user. -/
def IsUsualUserCall (call : Call) : Prop :=
  ∃ step ∈ MaintenanceStep.standard, ∃ invocations, step.action = .user invocations ∧
    ∃ i ∈ invocations, call = ⟨i.program, i.arguments, ""⟩

/-- The commands of the usual steps that need administrator rights. -/
def elevatedTexts : List String :=
  ["/usr/bin/dscacheutil -flushcache; /usr/bin/killall -HUP mDNSResponder", "/usr/sbin/purge"]

theorem mem_elevatedTexts {step : MaintenanceStep} (hstep : step ∈ MaintenanceStep.standard)
    {command : String} (h : step.action = .elevated command) : command ∈ elevatedTexts := by
  simp only [MaintenanceStep.standard, List.mem_cons, List.not_mem_nil, or_false] at hstep
  rcases hstep with rfl | rfl | rfl | rfl | rfl <;> cases h <;> simp [elevatedTexts]

theorem runUser_ranOnly (bestEffort : Bool) (invocations : List Invocation) (m : Machine) :
    m.RanOnly (fun call => ∃ i ∈ invocations, call = ⟨i.program, i.arguments, ""⟩)
      (runUser bestEffort invocations m).2 := by
  induction invocations generalizing m with
  | nil => exact .refl m
  | cons i rest ih =>
    have hhead := Executor.run_ranOnly i.program i.arguments m
    have hfirst := hhead.mono fun call h =>
      (⟨i, List.mem_cons_self, h⟩ : ∃ j ∈ i :: rest, call = ⟨j.program, j.arguments, ""⟩)
    have hrest (m : Machine) := (ih m).mono fun call h =>
      (h.imp fun j hj => ⟨List.mem_cons_of_mem i hj.1, hj.2⟩ :
        ∃ j ∈ i :: rest, call = ⟨j.program, j.arguments, ""⟩)
    simp only [runUser]
    split
    next he =>
      rw [he] at hfirst
      exact hfirst.trans (hrest _)
    next he =>
      rw [he] at hfirst
      split
      · exact hfirst.trans (hrest _)
      · exact hfirst

/-- The calls of maintenance that is made of the usual steps. -/
def UsualCall (e : Elevator) (call : Call) : Prop :=
  (∃ command ∈ elevatedTexts, e.HandsOver command call) ∨ IsUsualUserCall call

theorem execute_ranOnly (e : Elevator) {step : MaintenanceStep}
    (hstep : step ∈ MaintenanceStep.standard) (s : Station) :
    s.machine.RanOnly (UsualCall e) (execute e step s).2.machine := by
  simp only [execute]
  split
  next command hcommand =>
    have hover : s.machine.RanOnly (UsualCall e) (e.run command s).2.machine :=
      (e.run_ranOnly command s).mono fun call h =>
        .inl ⟨command, mem_elevatedTexts hstep hcommand, h⟩
    split
    all_goals next he => simpa only [he] using hover
  next invocations haction =>
    exact (runUser_ranOnly step.bestEffort invocations s.machine).mono fun call h =>
      .inr ⟨step, hstep, invocations, haction, h⟩

theorem runStep_ranOnly (e : Elevator) {step : MaintenanceStep}
    (hstep : step ∈ MaintenanceStep.standard) (report : MaintenanceReport) (s : Station) :
    s.machine.RanOnly (UsualCall e) (runStep e (report, s) step).2.machine := by
  simp only [runStep]
  split
  · exact .refl _
  · have hexec := execute_ranOnly e hstep (s.log ("Running: " ++ step.label))
    cases (statusOf (execute e step (s.log ("Running: " ++ step.label))).1).2 <;> exact hexec

/-- Maintenance made of the usual steps, in whatever order and number, makes no calls but those of
the usual steps. -/
theorem run_ranOnly (e : Elevator) {steps : List MaintenanceStep}
    (hsteps : steps ⊆ MaintenanceStep.standard) (s : Station) :
    s.machine.RanOnly (UsualCall e) (run e steps s).2.machine := by
  have hfold : ∀ (steps : List MaintenanceStep), steps ⊆ MaintenanceStep.standard →
      ∀ (report : MaintenanceReport) (s : Station),
        s.machine.RanOnly (UsualCall e) (steps.foldl (runStep e) (report, s)).2.machine := by
    intro steps
    induction steps with
    | nil => intro _ _ s; exact .refl _
    | cons step steps ih =>
      intro hsub report s
      obtain ⟨hstep, hrest⟩ := List.cons_subset.mp hsub
      exact (runStep_ranOnly e hstep report s).trans (ih hrest _ _)
  exact hfold steps hsteps _ _

end Maintenance

/-! ### Sessions -/

/-- An operation of a session around administrator rights. -/
inductive Operation where
  /-- A clean, with any catalog and any way to tell which directories of the system exist. -/
  | clean (cleaner : Cleaner) (present : Disk → Path → Bool)
  /-- Maintenance made of the usual steps, in whatever order and number. -/
  | maintain (elevator : Elevator) (steps : List MaintenanceStep)
      (usual : steps ⊆ MaintenanceStep.standard)
  /-- A secret is supplied. -/
  | supply (credential : Credential)
  /-- The secret is forgotten. -/
  | forget
  /-- A store is opened with the secret of its file. -/
  | reopen (path : Path) (persist : Bool)
  /-- The files are changed from outside. -/
  | edit (disk : Disk)

namespace Operation

/-- An operation is carried out. -/
def perform (home : Option Path) (op : Operation) (s : Station) : Station :=
  match op with
  | .clean cleaner present => (cleaner.runOn home present s).2
  | .maintain elevator steps _ => (Maintenance.run elevator steps s).2
  | .supply credential => s.setCredential credential
  | .forget => s.clearCredential
  | .reopen path persist => { s with store := .opened path persist s.disk }
  | .edit disk => s.withDisk disk

/-- Operations are carried out one after the other. -/
def performAll (home : Option Path) (ops : List Operation) (s : Station) : Station :=
  ops.foldl (fun s op => op.perform home s) s

/-- The call hands over a command that the operation, begun at the given station, may run with
administrator rights.  For a clean it is the selection of clauses that its catalog and the
directories existing after the user's part determine; for maintenance it is one of two fixed
commands. -/
def Elevates (home : Option Path) (s : Station) : Operation → Call → Prop
  | .clean cleaner present, call => ∃ command,
      cleaner.catalog.Selects (present (cleaner.runUser home (s.setBusy true)).2.disk) command ∧
        command ∈ Catalog.clauseTexts ∧ cleaner.elevator.HandsOver command call
  | .maintain elevator _ _, call =>
      ∃ command ∈ Maintenance.elevatedTexts, elevator.HandsOver command call
  | _, _ => False

theorem perform_ranOnly (home : Option Path) (op : Operation) (s : Station) :
    s.machine.RanOnly (fun call => op.Elevates home s call ∨ Maintenance.IsUsualUserCall call)
      (op.perform home s).machine := by
  cases op with
  | clean cleaner present =>
    let s' := (cleaner.runUser home (s.setBusy true)).2
    have huser : s'.machine.runs = s.machine.runs := cleaner.runUser_runs home (s.setBusy true)
    have hsystem := (cleaner.runSystem_ranOnly (present s'.disk) s').mono
      fun call ⟨command, hselects, hover⟩ =>
        (.inl ⟨command, hselects, hselects.mem_clauseTexts, hover⟩ :
          (clean cleaner present).Elevates home s call ∨ Maintenance.IsUsualUserCall call)
    refine (Machine.RanOnly.of_runs_eq huser).trans (hsystem.trans (.of_runs_eq ?_))
    simp only [perform, Cleaner.runOn]
    split <;> rfl
  | maintain elevator steps usual => exact Maintenance.run_ranOnly elevator usual s
  | supply credential => exact .of_runs_eq rfl
  | forget => exact .of_runs_eq rfl
  | reopen path persist => exact .of_runs_eq rfl
  | edit disk => exact .of_runs_eq rfl

/-- **Commands with administrator rights come from the fixed list.** Over any session, every run of
a program either runs a program of a usual step as the current user, or hands over a command of one
of the operations to be run with administrator rights.  For maintenance that is one of two fixed
texts; for a clean it is the clauses for those system directories that the catalog lists and that
exist, and so one of three fixed texts. -/
theorem performAll_elevated_commands (home : Option Path) (ops : List Operation) (s : Station) :
    s.machine.RanOnly
      (fun call => (∃ before op after, ops = before ++ op :: after ∧
        op.Elevates home (performAll home before s) call) ∨ Maintenance.IsUsualUserCall call)
      (performAll home ops s).machine := by
  induction ops generalizing s with
  | nil => exact .refl _
  | cons op ops ih =>
    refine ((op.perform_ranOnly home s).mono fun call h => ?_).trans
      ((ih (op.perform home s)).mono fun call h => ?_)
    · exact h.imp_left fun h => ⟨[], op, ops, rfl, h⟩
    · exact h.imp_left fun ⟨before, op', after, hops, h⟩ =>
        ⟨op :: before, op', after, by rw [hops, List.cons_append], h⟩

end Operation

end Reclaim
