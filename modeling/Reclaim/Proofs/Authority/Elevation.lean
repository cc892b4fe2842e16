import Reclaim.Proofs.Authority.Lifecycle

/-!
# One command with administrator rights

A command with administrator rights goes in one of six ways: the helper gets the secret of the
store and grants the command, cannot be started, or turns it down; or there is no secret and the
command runs after consent, is not consented to or fails, or does not run at all.  The relation is
proved from the evaluator, so what depends on a command can be told way by way.

## Main definitions

* `Run.succeeded`, `Run.isRejection`, `Run.error?` : how a call ended.
* `Station.afterCall` : a station whose machine has made one more call.
* `Elevator.Elevation` : a command with its result and the station that it left.

## Main results

* `Executor.run_cases` : a program as the current user succeeds exactly if its run does.
* `Elevator.elevation_run` : every command goes in one of the six ways.
-/

namespace Reclaim

/-! ### Runs and calls -/

namespace Run

/-- The program ran and was successful. -/
def succeeded (r : Run) : Bool :=
  match r.result with
  | .ok outcome => outcome.succeeded
  | .error _ => false

/-- The program ran and was not successful. -/
def isRejection (r : Run) : Bool :=
  match r.result with
  | .ok outcome => !outcome.succeeded
  | .error _ => false

/-- The error of a program as the current user: it could not be started, or it was not successful
and all that it wrote is the error. -/
def error? (r : Run) : Option ExecError :=
  match r.result with
  | .error e => some (.launchFailed r.call.program e)
  | .ok outcome =>
    if outcome.succeeded then none
    else
      let out := Executor.outputOf outcome
      some (.commandFailed (out.output ++ "\n" ++ out.errors))

theorem error?_eq_none_iff {r : Run} : r.error? = none ↔ r.succeeded = true := by
  rw [error?, succeeded]
  cases r.result with
  | error e => simp
  | ok outcome => cases outcome.succeeded <;> simp

theorem succeeded_of_error? {r : Run} {error : ExecError} (h : r.error? = some error) :
    r.succeeded = false := by
  rw [Bool.eq_false_iff, Ne, ← error?_eq_none_iff, h]
  exact Option.some_ne_none error

end Run

namespace Machine

/-- The record of a call that is made next. -/
def next (m : Machine) (call : Call) : Run :=
  ⟨call, (m.launch call).1⟩

@[simp] theorem next_call (m : Machine) (call : Call) : (m.next call).call = call := rfl

end Machine

namespace Station

/-- The station after one more call. -/
def afterCall (s : Station) (call : Call) : Station :=
  { s with machine := (s.machine.launch call).2 }

end Station

/-- A program as the current user succeeds exactly if its run does, and has the error of its run
otherwise. -/
theorem Executor.run_cases (program : String) (arguments : List String) (m : Machine) :
    let call : Call := ⟨program, arguments, ""⟩
    (∃ out, (m.next call).succeeded = true ∧
      run program arguments m = (.ok out, (m.launch call).2)) ∨
    (∃ error, (m.next call).error? = some error ∧
      run program arguments m = (.error error, (m.launch call).2)) := by
  intro call
  cases hanswer : (m.launch call).1 with
  | error error =>
    refine .inr ⟨.launchFailed program error, by simp [Machine.next, Run.error?, hanswer, call], ?_⟩
    rw [run, show m.launch call = (.error error, (m.launch call).2) from Prod.ext hanswer rfl]
  | ok outcome =>
    have hlaunch : m.launch call = (.ok outcome, (m.launch call).2) := Prod.ext hanswer rfl
    cases hsucceeded : outcome.succeeded with
    | true =>
      refine .inl ⟨outputOf outcome, by simp [Machine.next, Run.succeeded, hanswer, hsucceeded], ?_⟩
      rw [run, hlaunch]
      exact if_pos hsucceeded
    | false =>
      let out := outputOf outcome
      refine .inr ⟨.commandFailed (out.output ++ "\n" ++ out.errors),
        by simp [Machine.next, Run.error?, hanswer, hsucceeded, out], ?_⟩
      rw [run, hlaunch]
      exact if_neg (by simp [hsucceeded])

/-! ### Elevations -/

namespace Elevator

/-- A command with administrator rights, its result, and the station that it left.  The first three
ways are those with a secret, the others those without. -/
inductive Elevation (e : Elevator) (command : String) (s : Station) :
    Except ElevationError Output → Station → Prop
  | granted {c : Credential} {out : Output} (hcached : s.store.cached = some c)
      (hrun : (s.machine.next (e.executor.helperCall command c.secret)).succeeded = true) :
      Elevation e command s (.ok out) (s.afterCall (e.executor.helperCall command c.secret))
  | unstarted {c : Credential} {error : ExecError} (hcached : s.store.cached = some c)
      (hrun : (s.machine.next (e.executor.helperCall command c.secret)).error? = some error)
      (hnot : (s.machine.next (e.executor.helperCall command c.secret)).isRejection = false) :
      Elevation e command s (.error (.failed error))
        (s.afterCall (e.executor.helperCall command c.secret))
  | rejected {c : Credential} {error : ExecError} (hcached : s.store.cached = some c)
      (hrun : (s.machine.next (e.executor.helperCall command c.secret)).isRejection = true) :
      Elevation e command s (.error (.rejected error))
        (s.afterCall (e.executor.helperCall command c.secret)).clearCredential.requestCredential
  | consented {out : Output} (hcached : s.store.cached = none) (hconsent : e.consentFallback = true)
      (hrun : (s.machine.next (e.executor.consentCall command)).succeeded = true) :
      Elevation e command s (.ok out) (s.afterCall (e.executor.consentCall command))
  | declined {error : ExecError} (hcached : s.store.cached = none)
      (hconsent : e.consentFallback = true)
      (hrun : (s.machine.next (e.executor.consentCall command)).error? = some error) :
      Elevation e command s (.error (.failed error))
        (s.afterCall (e.executor.consentCall command))
  | refused (hcached : s.store.cached = none) (hconsent : e.consentFallback = false) :
      Elevation e command s (.error .authorizationRequired) s.requestCredential

/-- Every command with administrator rights goes in one of the six ways. -/
theorem elevation_run (e : Elevator) (command : String) (s : Station) :
    e.Elevation command s (e.run command s).1 (e.run command s).2 := by
  cases hcached : s.store.cached with
  | some c =>
    cases hanswer : (s.machine.launch (e.executor.helperCall command c.secret)).1 with
    | error error =>
      rw [run_of_launch_error hcached hanswer]
      have hresult : (s.machine.next (e.executor.helperCall command c.secret)).result =
          .error error := hanswer
      exact .unstarted hcached (by rw [Run.error?, hresult]; rfl)
        (by rw [Run.isRejection, hresult])
    | ok outcome =>
      cases hsucceeded : outcome.succeeded with
      | true =>
        rw [run_of_succeeded hcached hanswer hsucceeded]
        exact .granted hcached (by simp [Machine.next, Run.succeeded, hanswer, hsucceeded])
      | false =>
        obtain ⟨text, hrun⟩ := run_of_not_succeeded hcached hanswer hsucceeded
        rw [hrun]
        exact .rejected hcached (by simp [Machine.next, Run.isRejection, hanswer, hsucceeded])
  | none =>
    cases hconsent : e.consentFallback with
    | true =>
      have hrun : e.run command s =
          ((Executor.run e.executor.consent.text ["-e", consentScript command] s.machine).1.mapError
            .failed, s.afterCall (e.executor.consentCall command)) := by
        refine Prod.ext ?_ (run_of_consent command hcached hconsent)
        rw [run, hcached]
        simp only [hconsent, if_true]
        rfl
      rw [hrun]
      rcases Executor.run_cases e.executor.consent.text ["-e", consentScript command] s.machine with
        ⟨out, hsucceeded, hexecuted⟩ | ⟨error, hfailed, hexecuted⟩
      · rw [hexecuted]
        exact .consented hcached hconsent hsucceeded
      · rw [hexecuted]
        exact .declined hcached hconsent hfailed
    | false =>
      rw [run_of_no_consent command hcached hconsent]
      exact .refused hcached hconsent

/-- A command with administrator rights publishes nothing. -/
theorem signals_run (e : Elevator) (command : String) (s : Station) :
    (e.run command s).2.signals = s.signals := by
  have helevation := e.elevation_run command s
  generalize (e.run command s).1 = result, (e.run command s).2 = after at helevation ⊢
  cases helevation <;> rfl

end Elevator

end Reclaim
