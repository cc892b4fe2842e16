import Reclaim.Proofs.Authority.Lifecycle

/-!
# Commands with administrator rights that overlap

A command with administrator rights reads the secret, waits for the helper to end, and reacts to how
it ended.  While it waits, other commands are started and end, and secrets are supplied.  The
reaction to a failure does not look at the secret that the command had read: it forgets the one that
is there.  So a secret that has just been supplied is lost to the first failure that is reacted to,
be it that of a command with an older secret, and otherwise it stays.

## Main definitions

* `Attempt`, `SharedStation` : commands under way and the station that they share.
* `SharedStep`, `SharedStation.performAll` : the parts of commands in any order.
* `SharedStation.RejectedIn` : some step reacts to a failure.

## Main results

* `SharedStation.station_uninterrupted` : the parts of a command that nothing comes between.
* `SharedStation.performAll_after_set` : what becomes of a secret that is supplied.
-/

namespace Reclaim

/-! ### Commands in parts -/

/-- A command with administrator rights that has read a secret. -/
structure Attempt where
  elevator : Elevator
  command : String
  /-- The secret that it has read. -/
  credential : Credential
  /-- How the helper ended, as soon as it has. -/
  result : Option (Except ExecError Output) := none

/-- A station with the commands that are under way on it. -/
structure SharedStation where
  station : Station
  attempts : List Attempt := []

/-- A part of a command, or a secret that is supplied. -/
inductive SharedStep where
  /-- A command begins and reads the secret.  If there is none, nothing of it is left to do. -/
  | start (e : Elevator) (command : String)
  /-- The helper of a command ends. -/
  | finish (i : Nat)
  /-- A command reacts to how its helper ended. -/
  | react (i : Nat)
  /-- A secret is supplied. -/
  | set (c : Credential)

namespace SharedStation

/-- A step is taken. -/
def perform (σ : SharedStation) : SharedStep → SharedStation
  | .start e command =>
    match σ.station.store.cached with
    | some c => { σ with attempts := σ.attempts ++ [⟨e, command, c, none⟩] }
    | none => { σ with station := (e.run command σ.station).2 }
  | .finish i =>
    match σ.attempts[i]? with
    | some ⟨e, command, c, none⟩ =>
      let (result, machine) := e.executor.runWithSecret command c.secret σ.station.machine
      ⟨{ σ.station with machine }, σ.attempts.set i ⟨e, command, c, some result⟩⟩
    | _ => σ
  | .react i =>
    match σ.attempts[i]? with
    | some ⟨_, _, _, some result⟩ =>
      ⟨(Elevator.settle result σ.station).2, σ.attempts.eraseIdx i⟩
    | _ => σ
  | .set c => { σ with station := σ.station.setCredential c }

/-- Steps are taken one after the other. -/
def performAll (σ : SharedStation) (steps : List SharedStep) : SharedStation :=
  steps.foldl perform σ

@[simp] theorem performAll_nil (σ : SharedStation) : σ.performAll [] = σ := rfl

@[simp] theorem performAll_cons (σ : SharedStation) (step : SharedStep) (steps : List SharedStep) :
    σ.performAll (step :: steps) = (σ.perform step).performAll steps := rfl

/-- Nothing comes between the parts of a command: it is run as a whole. -/
theorem station_uninterrupted (e : Elevator) (command : String) (s : Station) :
    ((SharedStation.mk s []).performAll
      [.start e command, .finish 0, .react 0]).station = (e.run command s).2 := by
  cases hcached : s.store.cached with
  | some c =>
    simp only [performAll_cons, performAll_nil, perform, hcached, Elevator.run]
    rfl
  | none => simp [performAll, perform, hcached]

/-! ### Reactions to failures -/

/-- The step reacts to a helper that ran and failed, whatever secret it was given. -/
def Rejects (σ : SharedStation) : SharedStep → Prop
  | .react i => ∃ a text, σ.attempts[i]? = some a ∧ a.result = some (.error (.commandFailed text))
  | _ => False

/-- One of the steps reacts to a helper that ran and failed. -/
def RejectedIn (σ : SharedStation) : List SharedStep → Prop
  | [] => False
  | step :: steps => σ.Rejects step ∨ (σ.perform step).RejectedIn steps

variable {σ : SharedStation} {step : SharedStep} {steps : List SharedStep} {c : Credential}

/-- What a step that supplies no secret does to the station: it reacts to a failure, or it leaves
the files alone and at most asks for a secret if there is none. -/
theorem station_perform (σ : SharedStation) (hset : ∀ c, step ≠ .set c) :
    (σ.Rejects step ∧
      (σ.perform step).station = σ.station.clearCredential.requestCredential) ∨
    ¬σ.Rejects step ∧ (σ.perform step).station.disk = σ.station.disk ∧
      ((σ.perform step).station.store = σ.station.store ∨
        σ.station.store.cached = none ∧
          (σ.perform step).station.store = σ.station.store.request) := by
  cases step with
  | set c => exact absurd rfl (hset c)
  | start e command =>
    refine .inr ⟨id, ?_⟩
    cases hcached : σ.station.store.cached with
    | some c =>
      rw [perform, hcached]
      exact ⟨rfl, .inl rfl⟩
    | none =>
      have hstation : (σ.perform (.start e command)).station = (e.run command σ.station).2 := by
        rw [perform, hcached]
      rw [hstation]
      cases hconsent : e.consentFallback with
      | true =>
        rw [Elevator.run_of_consent command hcached hconsent]
        exact ⟨rfl, .inl rfl⟩
      | false =>
        rw [Elevator.run_of_no_consent command hcached hconsent]
        exact ⟨rfl, .inr ⟨rfl, rfl⟩⟩
  | finish i =>
    refine .inr ⟨id, ?_⟩
    rw [perform]
    split
    next e command c hattempt =>
      exact ⟨e.executor.runWithSecret_disk command c.secret σ.station.machine, .inl rfl⟩
    next => exact ⟨rfl, .inl rfl⟩
  | react i =>
    cases hattempt : σ.attempts[i]? with
    | none =>
      have hsame : σ.perform (.react i) = σ := by rw [perform, hattempt]
      have hkeeps : ¬σ.Rejects (.react i) := by simp [Rejects, hattempt]
      exact .inr ⟨hkeeps, by rw [hsame], .inl (by rw [hsame])⟩
    | some a =>
      obtain ⟨e, command, c, result⟩ := a
      have hrejects : σ.Rejects (.react i) ↔
          ∃ text, result = some (.error (.commandFailed text)) := by
        simp [Rejects, hattempt]
      rw [hrejects, perform, hattempt]
      match result with
      | none => exact .inr ⟨by simp, rfl, .inl rfl⟩
      | some (.ok output) => exact .inr ⟨by simp, rfl, .inl rfl⟩
      | some (.error (.launchFailed program error)) => exact .inr ⟨by simp, rfl, .inl rfl⟩
      | some (.error (.commandFailed text)) => exact .inl ⟨⟨text, rfl⟩, rfl⟩

/-- The top of the tree stays a folder. -/
theorem isFolder_perform (htop : σ.station.disk.top.isFolder = true) (step : SharedStep) :
    (σ.perform step).station.disk.top.isFolder = true := by
  by_cases hset : ∃ c, step = .set c
  · obtain ⟨c, rfl⟩ := hset
    exact σ.station.store.isFolder_set c htop
  · rcases σ.station_perform (not_exists.mp hset) with ⟨-, hstation⟩ | ⟨-, hdisk, -⟩
    · rw [hstation]
      exact σ.station.store.isFolder_clear htop
    · rw [hdisk]
      exact htop

/-- As long as no secret is supplied, a forgotten one stays forgotten. -/
theorem hasForgotten_perform (htop : σ.station.disk.top.isFolder = true)
    (hset : ∀ c, step ≠ .set c) (h : σ.station.HasForgotten) :
    (σ.perform step).station.HasForgotten := by
  obtain ⟨hcached, hfile, hreopened, hrequested⟩ := h
  rcases σ.station_perform hset with ⟨-, hstation⟩ | ⟨-, hdisk, hstore | ⟨-, hstore⟩⟩
  · rw [hstation]
    exact Station.hasForgotten_clear_request htop
  · refine ⟨?_, ?_, ?_, ?_⟩
    all_goals simpa only [hdisk, hstore]
  · refine ⟨?_, ?_, ?_, by rw [hstore]; rfl⟩
    all_goals simpa only [hdisk, hstore, CredentialStore.request]

/-- Steps that supply no secret, one by one. -/
theorem forall_set_cons (h : ∀ c, .set c ∉ step :: steps) :
    (∀ c, step ≠ .set c) ∧ ∀ c, .set c ∉ steps :=
  ⟨fun c hsame => h c (hsame ▸ List.mem_cons_self), fun c hc => h c (List.mem_cons_of_mem step hc)⟩

theorem hasForgotten_performAll (htop : σ.station.disk.top.isFolder = true)
    (hset : ∀ c, .set c ∉ steps) (h : σ.station.HasForgotten) :
    (σ.performAll steps).station.HasForgotten := by
  induction steps generalizing σ with
  | nil => exact h
  | cons step steps ih =>
    obtain ⟨hthis, hrest⟩ := forall_set_cons hset
    exact ih (isFolder_perform htop step) hrest (hasForgotten_perform htop hthis h)

/-- After a reaction to a failure the secret is gone. -/
theorem hasForgotten_of_rejectedIn (htop : σ.station.disk.top.isFolder = true)
    (hset : ∀ c, .set c ∉ steps) (h : σ.RejectedIn steps) :
    (σ.performAll steps).station.HasForgotten := by
  induction steps generalizing σ with
  | nil => cases h
  | cons step steps ih =>
    obtain ⟨hthis, hrest⟩ := forall_set_cons hset
    rw [performAll_cons]
    rcases h with hnow | hlater
    · -- nothing that follows the reaction brings the secret back
      rcases σ.station_perform hthis with ⟨-, hstation⟩ | ⟨hkeeps, -⟩
      · have hforgotten : (σ.perform step).station.HasForgotten :=
          hstation ▸ Station.hasForgotten_clear_request htop
        exact hasForgotten_performAll (isFolder_perform htop step) hrest hforgotten
      · exact absurd hnow hkeeps
    · exact ih (isFolder_perform htop step) hrest hlater

/-- A secret that is there stays as long as there is no reaction to a failure. -/
theorem station_of_not_rejectedIn (hcached : σ.station.store.cached.isSome)
    (hset : ∀ c, .set c ∉ steps) (h : ¬σ.RejectedIn steps) :
    (σ.performAll steps).station.store = σ.station.store ∧
      (σ.performAll steps).station.disk = σ.station.disk := by
  induction steps generalizing σ with
  | nil => exact ⟨rfl, rfl⟩
  | cons step steps ih =>
    obtain ⟨hthis, hrest⟩ := forall_set_cons hset
    obtain ⟨hnow, hlater⟩ := not_or.mp h
    rcases σ.station_perform hthis with ⟨hrejects, -⟩ | ⟨-, hdisk, hstore | ⟨hnone, -⟩⟩
    · exact absurd hrejects hnow
    · obtain ⟨hstore', hdisk'⟩ := ih (hstore ▸ hcached) hrest hlater
      exact ⟨hstore'.trans hstore, hdisk'.trans hdisk⟩
    · rw [hnone] at hcached
      cases hcached

/-- **What becomes of a secret that is supplied.** Commands are under way on a station, and a secret
is supplied.  Parts of these commands and of others follow in any order.  As soon as one of them
reacts to a failure, the secret is gone from memory and disk and is asked for, whatever secret the
command that failed had read.  If none does, the secret stays in memory and on disk and is not asked
for. -/
theorem performAll_after_set (σ : SharedStation) (htop : σ.station.disk.top.isFolder = true)
    (c : Credential) (steps : List SharedStep) (hset : ∀ c', .set c' ∉ steps) :
    let supplied := σ.perform (.set c)
    let after := supplied.performAll steps
    (supplied.RejectedIn steps → after.station.HasForgotten) ∧
    (¬supplied.RejectedIn steps → after.station.store.cached = some c ∧
      after.station.store.requested.value = false ∧
      after.station.disk = supplied.station.disk) := by
  intro supplied after
  have htop' : supplied.station.disk.top.isFolder = true := isFolder_perform htop (.set c)
  constructor
  · exact hasForgotten_of_rejectedIn htop' hset
  · intro hnone
    obtain ⟨hstore, hdisk⟩ := station_of_not_rejectedIn (Option.isSome_some) hset hnone
    rw [hstore]
    exact ⟨rfl, rfl, hdisk⟩

/-- A command has read a secret, and its helper has failed. -/
def waiting : SharedStation :=
  (SharedStation.mk AuthorityStep.failing []).performAll
    [.set ⟨"old"⟩, .start {} "true", .finish 0]

/-- A secret that has just been supplied is lost to the failure of a command that read the one
before. -/
theorem performAll_after_set_waiting : waiting.station.disk.top.isFolder = true ∧
    (∀ c, .set c ∉ [SharedStep.react 0]) ∧
    waiting.attempts.map Attempt.credential = [⟨"old"⟩] ∧
    (waiting.perform (.set ⟨"new"⟩)).station.store.cached = some ⟨"new"⟩ ∧
    (waiting.perform (.set ⟨"new"⟩)).station.store.requested.value = false ∧
    ((waiting.perform (.set ⟨"new"⟩)).performAll [.react 0]).station.HasForgotten := by
  have htop : waiting.station.disk.top.isFolder = true := by decide +kernel
  have hset : ∀ c, .set c ∉ [SharedStep.react 0] := by simp
  have hlost := (performAll_after_set waiting htop ⟨"new"⟩ [.react 0] hset).1
  exact ⟨htop, hset, rfl, rfl, rfl, hlost (.inl ⟨_, _, rfl, rfl⟩)⟩

end SharedStation

end Reclaim
