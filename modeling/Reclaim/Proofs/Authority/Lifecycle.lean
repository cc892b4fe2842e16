import Reclaim.Proofs.Authority.Commands
import Reclaim.Proofs.Authority.Forgetting

/-!
# The life of a secret

A secret is supplied, is used for as long as no command fails with it, and is then forgotten and
asked for.  Whatever the programs answer, a store that asks for a secret has none, and it stops
asking only when one is supplied.  So nothing is tried with a secret that has failed, and until the
next one is supplied no command is run with any.

The file of a secret is written through a link, but a link at its path is not followed when the
secret is forgotten.  So a secret that has failed is gone from the disk unless its path was a link;
then the file behind the link keeps it.

## Main definitions

* `AuthorityStep`, `AuthorityStep.performAll` : what happens to a store one after the other.
* `Station.IsNew` : the store has just been made or opened.
* `Station.HasForgotten` : the secret is gone from memory and from its path, and is asked for.
* `Station.Forgets` : what becomes of a station that forgets a secret.
* `Elevator.Spends`, `Elevator.DoesWithout` : a command with a secret and without.

## Main results

* `AuthorityStep.store_perform` : what one step does to the store.
* `AuthorityStep.performAll_ranOnly` : secrets that are not supplied are not given to any program.
* `AuthorityStep.performAll_lifecycle` : commands with administrator rights at any time.
-/

namespace Reclaim

/-! ### Steps -/

/-- Something that happens to the store of a station. -/
inductive AuthorityStep where
  /-- A secret is supplied. -/
  | set (c : Credential)
  /-- The secret is forgotten. -/
  | clear
  /-- A command is run with administrator rights. -/
  | elevate (e : Elevator) (command : String)

namespace AuthorityStep

/-- A step is taken. -/
def perform (s : Station) : AuthorityStep → Station
  | set c => s.setCredential c
  | clear => s.clearCredential
  | elevate e command => (e.run command s).2

/-- Steps are taken one after the other. -/
def performAll (s : Station) (steps : List AuthorityStep) : Station :=
  steps.foldl perform s

@[simp] theorem performAll_nil (s : Station) : performAll s [] = s := rfl

@[simp] theorem performAll_cons (s : Station) (step : AuthorityStep) (steps : List AuthorityStep) :
    performAll s (step :: steps) = performAll (perform s step) steps := rfl

end AuthorityStep

/-- The store has just been made, or opened with the secret of its file. -/
def Station.IsNew (s : Station) : Prop :=
  ∃ path persist, s.store = { path, persist } ∨ s.store = .opened path persist s.disk

/-- The secret is gone from memory, no file is at its path, and a new one is asked for. -/
structure Station.HasForgotten (s : Station) : Prop where
  cached : s.store.cached = none
  file : s.disk.isFile s.store.path = false
  reopened : ∀ persist, (CredentialStore.opened s.store.path persist s.disk).cached = none
  requested : s.store.requested.value = true

/-- What becomes of a station that forgets its secret.  Of the files the entry at the path of the
secret goes, and nothing else. -/
structure Station.Forgets (s after : Station) : Prop where
  forgotten : after.HasForgotten
  part : Node.IsPartOf after.disk.top s.disk.top
  gone : ∀ q ≠ [], after.disk.top.bareAt? q = none ↔
    s.disk.top.bareAt? q = none ∨ s.store.DropsAt s.disk q
  /-- The file of the secret is gone if its path is no link. -/
  file : ∀ goal mode content, s.disk.locate true s.store.path = .ok (goal, .file mode content) →
    ¬s.disk.IsLink s.store.path → after.disk.top.at? goal = none
  /-- The file of the secret stays as it was if its path is a link. -/
  linked : ∀ goal mode content, s.disk.locate true s.store.path = .ok (goal, .file mode content) →
    s.disk.IsLink s.store.path → after.disk.top.at? goal = some (.file mode content)

/-! ### One command with administrator rights -/

theorem Executor.consentCall_ne_helperCall (x x' : Executor) (command command' secret : String) :
    x.consentCall command ≠ x'.helperCall command' secret := by
  intro hsame
  have hinput := congrArg (fun call => call.input.toList) hsame
  simp [consentCall, helperCall] at hinput

theorem CredentialStore.clear_fst (store : CredentialStore) (d : Disk) :
    (store.clear d).1 = { store with cached := none } := by
  rw [clear]
  split <;> rfl

namespace Station

theorem store_clear_request (s : Station) : s.clearCredential.requestCredential.store =
    CredentialStore.request { s.store with cached := none } := by
  rw [← CredentialStore.clear_fst s.store s.disk]
  rfl

/-- After the reaction to a failure the secret is gone, and a new one is asked for. -/
theorem hasForgotten_clear_request {s : Station} (htop : s.disk.top.isFolder = true) :
    s.clearCredential.requestCredential.HasForgotten := by
  have hstore := s.store_clear_request
  have hfile : s.clearCredential.requestCredential.disk.isFile s.store.path = false :=
    s.store.isFile_clear htop
  refine ⟨?_, ?_, ?_, ?_⟩
  · rw [hstore]
    rfl
  · rw [hstore]
    exact hfile
  · rw [hstore]
    exact CredentialStore.cached_opened_of_not_isFile hfile
  · rw [hstore]
    rfl

/-- The reaction to a failure makes the secret be forgotten. -/
theorem forgets_clear_request {s : Station} (htop : s.disk.top.isFolder = true) :
    s.Forgets s.clearCredential.requestCredential where
  forgotten := hasForgotten_clear_request htop
  part := s.store.isPartOf_clear s.disk
  gone _ := CredentialStore.bareAt?_clear_eq_none_iff
  file _ _ _ := CredentialStore.at?_clear_of_not_isLink htop
  linked _ _ _ := CredentialStore.at?_clear_of_isLink htop

end Station

namespace Elevator

variable {e : Elevator} {command : String} {s : Station} {c : Credential}

/-- With a secret the helper is called once, and its end decides about the secret. -/
theorem run_of_cached (e : Elevator) (command : String) (hcached : s.store.cached = some c) :
    e.run command s = settle (e.executor.runWithSecret command c.secret s.machine).1
      { s with machine := (s.machine.launch (e.executor.helperCall command c.secret)).2 } := by
  rw [run, hcached, ← Executor.runWithSecret_snd]

/-- The helper could not be started: nothing changes. -/
theorem run_of_launch_error {error : LaunchError} (hcached : s.store.cached = some c)
    (h : (s.machine.launch (e.executor.helperCall command c.secret)).1 = .error error) :
    e.run command s = (.error (.failed (.launchFailed e.executor.helper.text error)),
      { s with machine := (s.machine.launch (e.executor.helperCall command c.secret)).2 }) := by
  have hresult : (e.executor.runWithSecret command c.secret s.machine).1 =
      .error (.launchFailed e.executor.helper.text error) := by
    simp only [Executor.runWithSecret]
    split
    next he => rw [he] at h; cases h; rfl
    next ho => rw [ho] at h; cases h
  rw [run_of_cached e command hcached, hresult]
  rfl

/-- The helper ran and succeeded: nothing changes. -/
theorem run_of_succeeded {outcome : Outcome} (hcached : s.store.cached = some c)
    (h : (s.machine.launch (e.executor.helperCall command c.secret)).1 = .ok outcome)
    (hsucceeded : outcome.succeeded = true) :
    e.run command s = (.ok (Executor.outputOf outcome),
      { s with machine := (s.machine.launch (e.executor.helperCall command c.secret)).2 }) := by
  have hresult : (e.executor.runWithSecret command c.secret s.machine).1 =
      .ok (Executor.outputOf outcome) := by
    simp only [Executor.runWithSecret]
    split
    next he => rw [he] at h; cases h
    next ho => rw [ho] at h; cases h; rw [if_pos hsucceeded]
  rw [run_of_cached e command hcached, hresult]
  rfl

/-- The helper ran and failed: the secret is forgotten and a new one is asked for. -/
theorem run_of_not_succeeded {outcome : Outcome} (hcached : s.store.cached = some c)
    (h : (s.machine.launch (e.executor.helperCall command c.secret)).1 = .ok outcome)
    (hfailed : outcome.succeeded = false) :
    ∃ text, e.run command s = (.error (.rejected (.commandFailed text)),
      (Station.clearCredential { s with
        machine := (s.machine.launch (e.executor.helperCall command c.secret)).2 }
      ).requestCredential) := by
  have hresult : ∃ text, (e.executor.runWithSecret command c.secret s.machine).1 =
      .error (.commandFailed text) := by
    simp only [Executor.runWithSecret]
    split
    next he => rw [he] at h; cases h
    next ho => rw [ho] at h; cases h; rw [if_neg (by simp [hfailed])]; exact ⟨_, rfl⟩
  obtain ⟨text, htext⟩ := hresult
  refine ⟨text, ?_⟩
  rw [run_of_cached e command hcached, htext]
  rfl

/-- With a secret exactly one run is added, and that is the helper's. -/
theorem runs_of_cached (e : Elevator) (command : String) (hcached : s.store.cached = some c) :
    (e.run command s).2.machine.runs = s.machine.runs ++
      [⟨e.executor.helperCall command c.secret,
        (s.machine.launch (e.executor.helperCall command c.secret)).1⟩] := by
  rw [run_of_cached e command hcached, settle_runs]
  rfl

/-- Without a secret a command runs after consent, if that is allowed. -/
theorem run_of_consent (command : String) (hcached : s.store.cached = none)
    (hconsent : e.consentFallback = true) :
    (e.run command s).2 =
      { s with machine := (s.machine.launch (e.executor.consentCall command)).2 } := by
  rw [run, hcached]
  simp only [hconsent, if_true, Executor.runWithConsent, Executor.run_snd, Executor.consentCall]

/-- Without a secret and without consent nothing runs, and a secret is asked for. -/
theorem run_of_no_consent (command : String) (hcached : s.store.cached = none)
    (hconsent : e.consentFallback = false) :
    e.run command s = (.error .authorizationRequired, s.requestCredential) := by
  rw [run, hcached]
  simp [hconsent]

/-- What a command with administrator rights does to the store. -/
theorem store_run (e : Elevator) (command : String) (s : Station) :
    (e.run command s).2.store = s.store ∨
    (s.store.cached = none ∧ (e.run command s).2.store = s.store.request) ∨
    (e.run command s).2.store = CredentialStore.request { s.store with cached := none } := by
  cases hcached : s.store.cached with
  | some c =>
    cases hresult : (s.machine.launch (e.executor.helperCall command c.secret)).1 with
    | error error => exact .inl (by rw [run_of_launch_error hcached hresult])
    | ok outcome =>
      cases hsucceeded : outcome.succeeded with
      | true => exact .inl (by rw [run_of_succeeded hcached hresult hsucceeded])
      | false =>
        obtain ⟨text, hrun⟩ := run_of_not_succeeded hcached hresult hsucceeded
        refine .inr (.inr ?_)
        rw [hrun, Station.store_clear_request]
  | none =>
    cases hconsent : e.consentFallback with
    | true => exact .inl (by rw [run_of_consent command hcached hconsent])
    | false => exact .inr (.inl ⟨rfl, by rw [run_of_no_consent command hcached hconsent]; rfl⟩)

end Elevator

namespace AuthorityStep

variable {s : Station} {step : AuthorityStep} {steps : List AuthorityStep}

/-- What one step does to the store: a secret is supplied, or forgotten, or a command is run. -/
theorem store_perform (s : Station) (step : AuthorityStep) :
    (∃ c, step = .set c ∧ (perform s step).store =
      { s.store with cached := some c, requested := s.store.requested.send false }) ∨
    (perform s step).store = { s.store with cached := none } ∨
    (perform s step).store = s.store ∨
    (s.store.cached = none ∧ (perform s step).store = s.store.request) ∨
    (perform s step).store = CredentialStore.request { s.store with cached := none } := by
  cases step with
  | set c => exact .inl ⟨c, rfl, rfl⟩
  | clear => exact .inr (.inl (CredentialStore.clear_fst s.store s.disk))
  | elevate e command => exact .inr (.inr (e.store_run command s))

/-- A store that asks for a secret has none. -/
theorem cached_of_requested_perform
    (h : s.store.requested.value = true → s.store.cached = none)
    (hrequested : (perform s step).store.requested.value = true) :
    (perform s step).store.cached = none := by
  rcases store_perform s step with ⟨c, -, hstore⟩ | hstore | hstore | ⟨hnone, hstore⟩ | hstore
  · rw [hstore] at hrequested
    cases hrequested
  · rw [hstore]
  · rw [hstore] at hrequested ⊢
    exact h hrequested
  · rw [hstore]
    exact hnone
  · rw [hstore]
    rfl

/-- A secret is asked for until one is supplied. -/
theorem exists_set_of_requested (h : s.store.requested.value = true)
    (hafter : (perform s step).store.requested.value = false) : ∃ c, step = .set c := by
  rcases store_perform s step with ⟨c, hset, -⟩ | hstore | hstore | ⟨-, hstore⟩ | hstore
  · exact ⟨c, hset⟩
  · rw [hstore] at hafter
    cases h.symm.trans hafter
  · rw [hstore] at hafter
    cases h.symm.trans hafter
  · rw [hstore] at hafter
    cases hafter
  · rw [hstore] at hafter
    cases hafter

/-- A secret that is there after a step was there or has been supplied. -/
theorem cached_perform {c : Credential} (h : (perform s step).store.cached = some c) :
    s.store.cached = some c ∨ step = .set c := by
  rcases store_perform s step with ⟨c', hset, hstore⟩ | hstore | hstore | ⟨-, hstore⟩ | hstore
  · rw [hstore] at h
    cases h
    exact .inr hset
  · rw [hstore] at h
    cases h
  · rw [hstore] at h
    exact .inl h
  · rw [hstore] at h
    exact .inl h
  · rw [hstore] at h
    cases h

/-! ### Whole runs -/

/-- A store that asks for a secret has none, at any time. -/
theorem cached_of_requested_performAll
    (h : s.store.requested.value = true → s.store.cached = none)
    (hrequested : (performAll s steps).store.requested.value = true) :
    (performAll s steps).store.cached = none := by
  induction steps generalizing s with
  | nil => exact h hrequested
  | cons step steps ih => exact ih (cached_of_requested_perform h) hrequested

theorem isFolder_perform (htop : s.disk.top.isFolder = true) (step : AuthorityStep) :
    (perform s step).disk.top.isFolder = true := by
  cases step with
  | set c => exact s.store.isFolder_set c htop
  | clear => exact s.store.isFolder_clear htop
  | elevate e command =>
    rcases e.run_disk command s with ⟨-, hdisk⟩ | ⟨-, hdisk⟩
    · rw [perform, hdisk]
      exact s.store.isFolder_clear htop
    · rw [perform, hdisk]
      exact htop

theorem isFolder_performAll (htop : s.disk.top.isFolder = true) (steps : List AuthorityStep) :
    (performAll s steps).disk.top.isFolder = true := by
  induction steps generalizing s with
  | nil => exact htop
  | cons step steps ih => exact ih (isFolder_perform htop step)

/-- A program is called for consent, or is the helper and gets a secret of the given kind. -/
def Asks (given : Credential → Prop) (call : Call) : Prop :=
  (∃ x command, call = Executor.consentCall x command) ∨
    ∃ x command c, given c ∧ call = Executor.helperCall x command c.secret

/-- A step gives no secret to a program but the one of the store. -/
theorem perform_ranOnly {given : Credential → Prop}
    (hcached : ∀ c, s.store.cached = some c → given c) (step : AuthorityStep) :
    s.machine.RanOnly (Asks given) (perform s step).machine := by
  cases step with
  | set c => exact .of_runs_eq (s.setCredential_runs c)
  | clear => exact .of_runs_eq s.clearCredential_runs
  | elevate e command =>
    cases hstore : s.store.cached with
    | some c =>
      refine ⟨_, e.runs_of_cached command hstore, ?_⟩
      simp only [List.mem_singleton, forall_eq]
      exact .inr ⟨e.executor, command, c, hcached c hstore, rfl⟩
    | none =>
      cases hconsent : e.consentFallback with
      | true =>
        rw [perform, Elevator.run_of_consent command hstore hconsent]
        exact Machine.ranOnly_launch (.inl ⟨e.executor, command, rfl⟩)
      | false =>
        rw [perform, Elevator.run_of_no_consent command hstore hconsent]
        exact .refl _

/-- Secrets that are neither in the store nor supplied later are not given to any program. -/
theorem performAll_ranOnly {given : Credential → Prop}
    (hcached : ∀ c, s.store.cached = some c → given c)
    (hsupplied : ∀ c, .set c ∈ steps → given c) :
    s.machine.RanOnly (Asks given) (performAll s steps).machine := by
  induction steps generalizing s with
  | nil => exact .refl _
  | cons step steps ih =>
    refine (perform_ranOnly hcached step).trans (ih ?_ fun c hc =>
      hsupplied c (List.mem_cons_of_mem step hc))
    -- the secret of the store stays one of the given kind
    intro c hc
    rcases cached_perform hc with hbefore | rfl
    · exact hcached c hbefore
    · exact hsupplied c List.mem_cons_self

/-- Without a secret, and until the next one is supplied, the helper is not called. -/
theorem ranOnly_not_helperCall (hcached : s.store.cached = none) (hnone : ∀ c, .set c ∉ steps) :
    s.machine.RanOnly (fun call => ∀ x command secret, call ≠ Executor.helperCall x command secret)
      (performAll s steps).machine := by
  have hgiven : ∀ c, s.store.cached = some c → False := by simp [hcached]
  refine (performAll_ranOnly hgiven hnone).mono ?_
  rintro call (⟨x, command, rfl⟩ | ⟨x, command, c, hfalse, -⟩)
  · exact fun x' command' secret => x.consentCall_ne_helperCall x' command command' secret
  · exact hfalse.elim

/-- Without a secret, one that is not supplied is not given to any program. -/
theorem ranOnly_input_ne {c : Credential} (hcached : s.store.cached = none)
    (hnot : .set c ∉ steps) :
    s.machine.RanOnly (fun call => call.input ≠ c.secret ++ "\n") (performAll s steps).machine := by
  have hgiven : ∀ c', s.store.cached = some c' → c' ≠ c := by simp [hcached]
  refine (performAll_ranOnly hgiven fun c' hc' hsame => hnot (hsame ▸ hc')).mono ?_
  rintro call (⟨x, command, rfl⟩ | ⟨x, command, c', hother, rfl⟩)
  · intro hsame
    have hinput := congrArg String.toList hsame
    simp [Executor.consentCall] at hinput
  · intro hsame
    have hinput := congrArg String.toList hsame
    simp only [Executor.helperCall, String.toList_append, List.append_cancel_right_eq] at hinput
    exact hother (congrArg Credential.mk (String.toList_inj.mp hinput))

theorem requested_of_isNew (h : s.IsNew) : s.store.requested.value = false := by
  obtain ⟨path, persist, hstore | hstore⟩ := h
  · rw [hstore]
  · rw [hstore, CredentialStore.opened, CredentialStore.load]
    split <;> rfl

end AuthorityStep

/-! ### Commands at any time -/

/-- A command is run with the secret of the store: the helper is called once and reads the secret,
and its end decides about the secret. -/
structure Elevator.Spends (e : Elevator) (command : String) (s : Station) (c : Credential) :
    Prop where
  input : (e.executor.helperCall command c.secret).input = c.secret ++ "\n"
  runs : (e.run command s).2.machine.runs = s.machine.runs ++
    [⟨e.executor.helperCall command c.secret,
      (s.machine.launch (e.executor.helperCall command c.secret)).1⟩]
  succeeded : ∀ outcome,
    (s.machine.launch (e.executor.helperCall command c.secret)).1 = .ok outcome →
    outcome.succeeded = true →
      (e.run command s).1 = .ok (Executor.outputOf outcome) ∧
      (e.run command s).2.store = s.store ∧ (e.run command s).2.disk = s.disk
  /-- A helper that cannot be started decides nothing. -/
  unstarted : ∀ error,
    (s.machine.launch (e.executor.helperCall command c.secret)).1 = .error error →
      (e.run command s).1 = .error (.failed (.launchFailed e.executor.helper.text error)) ∧
      (e.run command s).2.store = s.store ∧ (e.run command s).2.disk = s.disk
  failed : ∀ outcome,
    (s.machine.launch (e.executor.helperCall command c.secret)).1 = .ok outcome →
    outcome.succeeded = false →
      (∃ text, (e.run command s).1 = .error (.rejected (.commandFailed text))) ∧
      s.Forgets (e.run command s).2

/-- A command is run without a secret: after consent if that is allowed, and not at all
otherwise. -/
structure Elevator.DoesWithout (e : Elevator) (command : String) (s : Station) : Prop where
  consented : e.consentFallback = true →
    (e.run command s).2.machine.runs = s.machine.runs ++
      [⟨e.executor.consentCall command, (s.machine.launch (e.executor.consentCall command)).1⟩] ∧
    (∀ x command' secret, e.executor.consentCall command ≠
      Executor.helperCall x command' secret) ∧
    (e.run command s).2.store = s.store ∧ (e.run command s).2.disk = s.disk
  refused : e.consentFallback = false →
    (e.run command s).1 = .error .authorizationRequired ∧
    (e.run command s).2.machine = s.machine ∧ (e.run command s).2.store = s.store.request

namespace Elevator

variable {s : Station} {c : Credential}

theorem spends (e : Elevator) (command : String) (htop : s.disk.top.isFolder = true)
    (hcached : s.store.cached = some c) : e.Spends command s c where
  input := rfl
  runs := e.runs_of_cached command hcached
  succeeded outcome hanswer hsucceeded := by
    rw [run_of_succeeded hcached hanswer hsucceeded]
    exact ⟨rfl, rfl, rfl⟩
  unstarted error hanswer := by
    rw [run_of_launch_error hcached hanswer]
    exact ⟨rfl, rfl, rfl⟩
  failed outcome hanswer hfailed := by
    obtain ⟨text, hrun⟩ := run_of_not_succeeded hcached hanswer hfailed
    rw [hrun]
    -- the call of the helper changes neither the store nor the files
    have hforgets : Station.Forgets { s with
        machine := (s.machine.launch (e.executor.helperCall command c.secret)).2 } _ :=
      Station.forgets_clear_request htop
    exact ⟨⟨text, rfl⟩, hforgets.forgotten, hforgets.part, hforgets.gone, hforgets.file,
      hforgets.linked⟩

theorem doesWithout (e : Elevator) (command : String) (hcached : s.store.cached = none) :
    e.DoesWithout command s where
  consented hconsent := by
    rw [run_of_consent command hcached hconsent]
    exact ⟨rfl, fun x => e.executor.consentCall_ne_helperCall x command, rfl, rfl⟩
  refused hconsent := by
    rw [run_of_no_consent command hcached hconsent]
    exact ⟨rfl, rfl, rfl⟩

end Elevator

namespace AuthorityStep

/-- Until a secret is supplied no helper is called, and until this one is supplied again it is given
to no program. -/
structure LeavesAlone (c : Credential) (s : Station) : Prop where
  helper : ∀ later, (∀ c', .set c' ∉ later) → s.machine.RanOnly
    (fun call => ∀ x command secret, call ≠ Executor.helperCall x command secret)
    (performAll s later).machine
  secret : ∀ later, .set c ∉ later →
    s.machine.RanOnly (fun call => call.input ≠ c.secret ++ "\n") (performAll s later).machine

/-- **The life of a secret.** A store has just been made or opened, and secrets are supplied and
forgotten and commands run with administrator rights, in any order and with any answers of the
programs.  At every time a store that asks for a secret has none, and it asks until one is supplied.
With a secret, a command makes one call, of the helper, which reads the secret.  If that succeeds or
cannot be started, nothing changes.  If it fails, the secret is forgotten: it is gone from memory, a
new one is asked for, and the entry at its path is gone, which takes the secret from the disk unless
it is a link.  The helper is not called before a secret is supplied, nor is the old one given to any
program before it is supplied again.  Without a secret, a command makes one call, for consent, and
nothing changes, or if that is not allowed no call, and a secret is asked for. -/
theorem performAll_lifecycle (s : Station) (hnew : s.IsNew) (htop : s.disk.top.isFolder = true)
    (steps : List AuthorityStep) :
    let t := performAll s steps
    (t.store.requested.value = true → t.store.cached = none) ∧
    (∀ step, t.store.requested.value = true →
      (perform t step).store.requested.value = false → ∃ c, step = .set c) ∧
    (∀ (e : Elevator) command c, t.store.cached = some c → e.Spends command t c ∧
      ∀ error, (e.run command t).1 = .error (.rejected error) →
        LeavesAlone c (e.run command t).2) ∧
    ∀ (e : Elevator) command, t.store.cached = none → e.DoesWithout command t := by
  intro t
  have hquiet : s.store.requested.value = true → s.store.cached = none := by
    simp [requested_of_isNew hnew]
  refine ⟨cached_of_requested_performAll hquiet, fun step => exists_set_of_requested, ?_,
    fun e command => e.doesWithout command⟩
  intro e command c hcached
  have hspends := e.spends command (isFolder_performAll htop steps) hcached
  refine ⟨hspends, fun error hrejected => ?_⟩
  have hforgotten : (e.run command t).2.HasForgotten := by
    cases hanswer : (t.machine.launch (e.executor.helperCall command c.secret)).1 with
    | error error => cases (hspends.unstarted error hanswer).1.symm.trans hrejected
    | ok outcome =>
      cases hsucceeded : outcome.succeeded with
      | true => cases (hspends.succeeded outcome hanswer hsucceeded).1.symm.trans hrejected
      | false => exact (hspends.failed outcome hanswer hsucceeded).2.forgotten
  exact ⟨fun later => ranOnly_not_helperCall hforgotten.cached,
    fun later => ranOnly_input_ne hforgotten.cached⟩

/-- A station whose programs all fail, with a new store. -/
def failing : Station where
  machine := { programs := fun _ _ _ => .ok { ending := .exit 1 } }
  store := { path := ⟨"/key"⟩ }

/-- A secret that fails is forgotten, and the helper is not called again. -/
theorem performAll_lifecycle_failing : failing.IsNew ∧ failing.disk.top.isFolder = true ∧
    (performAll failing [.set ⟨"pw"⟩]).store.cached = some ⟨"pw"⟩ ∧
    (({} : Elevator).run "true" (performAll failing [.set ⟨"pw"⟩])).2.HasForgotten ∧
    LeavesAlone ⟨"pw"⟩ (({} : Elevator).run "true" (performAll failing [.set ⟨"pw"⟩])).2 := by
  have hnew : failing.IsNew := ⟨⟨"/key"⟩, true, .inl rfl⟩
  have hcached : (performAll failing [.set ⟨"pw"⟩]).store.cached = some ⟨"pw"⟩ := rfl
  obtain ⟨-, -, hrun, -⟩ := performAll_lifecycle failing hnew rfl [.set ⟨"pw"⟩]
  obtain ⟨hspends, halone⟩ := hrun {} "true" ⟨"pw"⟩ hcached
  obtain ⟨⟨text, hrejected⟩, hforgets⟩ := hspends.failed _ rfl rfl
  exact ⟨hnew, rfl, hcached, hforgets.forgotten, halone _ hrejected⟩

/-- A station whose programs all fail, with a new store whose path is a link to a file. -/
def failingLinked : Station where
  machine :=
    { disk := ⟨.folder [("key", .link "/stash")]⟩
      programs := fun _ _ _ => .ok { ending := .exit 1 } }
  store := { path := ⟨"/key"⟩ }

/-- **A secret that fails can stay on the disk.** The path of the store is a link.  The secret is
written through it, but when it fails only the link goes. -/
theorem performAll_lifecycle_linked :
    let after := ({} : Elevator).run "true" (performAll failingLinked [.set ⟨"pw"⟩])
    failingLinked.IsNew ∧ (∃ text, after.1 = .error (.rejected (.commandFailed text))) ∧
      after.2.disk.readText ⟨"/stash"⟩ = .ok "pw" := by
  intro after
  have hnew : failingLinked.IsNew := ⟨⟨"/key"⟩, true, .inl rfl⟩
  have hcached : (performAll failingLinked [.set ⟨"pw"⟩]).store.cached = some ⟨"pw"⟩ := rfl
  have hspends := ({} : Elevator).spends "true" rfl hcached
  exact ⟨hnew, (hspends.failed { ending := .exit 1 } rfl rfl).1, by decide +kernel⟩

end AuthorityStep

end Reclaim
