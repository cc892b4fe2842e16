import Reclaim.Proofs.Authority.Restart

/-!
# When a superseded secret comes back

A store that is not a lasting one reads the file when it is opened and deletes it when the secret is
forgotten, but does not touch it when a secret is supplied.  So a secret that is in the file at the
start stays there, whatever is supplied in its place, until a secret is forgotten, and the next
process works with it again.  A lasting store replaces the secret of the file, unless the file
cannot be written, and then it stays as well.

## Main definitions

* `AuthorityStep.Forgets`, `AuthorityStep.SomeForgets` : the secret is forgotten.

## Main results

* `AuthorityStep.performAll_of_not_persist` : the file of a store that is not a lasting one.
* `AuthorityStep.cached_opened_after_set` : what a store is opened with after a secret was supplied.
-/

namespace Reclaim

namespace CredentialStore

variable {store : CredentialStore} {d : Disk}

/-- A store that is not a lasting one leaves the files alone when a secret is supplied. -/
theorem set_snd_of_not_persist (c : Credential) (hpersist : store.persist = false) :
    (store.set c d).2 = d :=
  (store.set_snd c d).trans (if_neg (by simp [hpersist]))

/-- After a secret could not be written, a store is opened with what it was before. -/
theorem cached_opened_of_not_accepts {path : Path} {text : String} (htop : d.top.isFolder = true)
    (h : ¬d.Accepts path text) (persist : Bool) :
    (opened path persist (d.writeOwnerOnly path text)).cached = (opened path persist d).cached := by
  rcases Disk.writeOwnerOnly_of_not_accepts htop h with hsame | ⟨hbefore, hafter⟩
  · rw [hsame]
  · rw [cached_opened_of_not_isFile hbefore, cached_opened_of_not_isFile hafter]

end CredentialStore

namespace AuthorityStep

variable {s : Station} {step : AuthorityStep} {steps : List AuthorityStep}

/-! ### Forgetting -/

/-- The step makes the secret be forgotten. -/
def Forgets (s : Station) : AuthorityStep → Prop
  | set _ => False
  | clear => True
  | elevate e command => ∃ error, (e.run command s).1 = .error (.rejected error)

/-- One of the steps makes the secret be forgotten. -/
def SomeForgets (s : Station) : List AuthorityStep → Prop
  | [] => False
  | step :: steps => Forgets s step ∨ SomeForgets (perform s step) steps

/-- A step that makes the secret be forgotten leaves none in the file. -/
theorem cached_opened_of_forgets (htop : s.disk.top.isFolder = true) (h : Forgets s step)
    (persist : Bool) :
    (CredentialStore.opened s.store.path persist (perform s step).disk).cached = none := by
  have hclear : (perform s step).disk = (s.store.clear s.disk).2 := by
    cases step with
    | set c => exact h.elim
    | clear => rfl
    | elevate e command =>
      obtain ⟨error, hrejected⟩ := h
      rcases e.run_disk command s with ⟨-, hdisk⟩ | ⟨hnot, -⟩
      · exact hdisk
      · exact absurd hrejected (hnot error)
  rw [hclear]
  exact CredentialStore.cached_opened_of_not_isFile (s.store.isFile_clear htop) persist

/-- Any other step of a store that is not a lasting one leaves the files alone. -/
theorem disk_of_not_forgets (hpersist : s.store.persist = false) (h : ¬Forgets s step) :
    (perform s step).disk = s.disk := by
  cases step with
  | set c => exact CredentialStore.set_snd_of_not_persist c hpersist
  | clear => exact absurd trivial h
  | elevate e command =>
    rcases e.run_disk command s with ⟨hrejected, -⟩ | ⟨-, hdisk⟩
    · exact absurd hrejected h
    · exact hdisk

/-- The file of a store that is not a lasting one is as it was at the start, until a secret is
forgotten; then there is none. -/
theorem performAll_of_not_persist (htop : s.disk.top.isFolder = true)
    (hpersist : s.store.persist = false) (steps : List AuthorityStep) :
    (SomeForgets s steps → ∀ persist, (CredentialStore.opened s.store.path persist
      (performAll s steps).disk).cached = none) ∧
    (¬SomeForgets s steps → (performAll s steps).disk = s.disk) := by
  induction steps generalizing s with
  | nil => exact ⟨False.elim, fun _ => rfl⟩
  | cons step steps ih =>
    obtain ⟨hpath, hpersist'⟩ := path_perform s step
    obtain ⟨hforgotten, hkept⟩ := ih (isFolder_perform htop step) (hpersist'.trans hpersist)
    rw [hpath] at hforgotten
    constructor
    · intro h persist
      by_cases hlater : SomeForgets (perform s step) steps
      · exact hforgotten hlater persist
      · rw [performAll_cons, hkept hlater]
        exact cached_opened_of_forgets htop (h.resolve_right hlater) persist
    · intro h
      obtain ⟨hstep, hlater⟩ := not_or.mp h
      rw [performAll_cons, hkept hlater, disk_of_not_forgets hpersist hstep]

/-! ### Supplying a secret -/

/-- **When a superseded secret comes back.** After any steps of a store a secret is supplied, and
the store is opened again.  If it is a lasting one and the secret can be written, that is the secret
it is opened with.  If it cannot be written, it is the one of the file before.  If the store is not
a lasting one, it is the one that the file had at the start, whatever has been supplied since,
unless a secret was forgotten on the way; then there is none.  So a password that is given to a
login replaces the one before for the next process if the settings say that it is kept, and
otherwise the next process has the one before. -/
theorem cached_opened_after_set (s : Station) (htop : s.disk.top.isFolder = true)
    (steps : List AuthorityStep) (c : Credential) :
    let before := performAll s steps
    let after := performAll s (steps ++ [.set c])
    let found := fun (persist : Bool) (d : Disk) =>
      (CredentialStore.opened s.store.path persist d).cached
    (s.store.persist = true →
      (before.disk.Accepts s.store.path c.secret → ∀ persist, found persist after.disk = some c) ∧
      (¬before.disk.Accepts s.store.path c.secret →
        ∀ persist, found persist after.disk = found persist before.disk)) ∧
    (s.store.persist = false →
      (SomeForgets s steps → ∀ persist, found persist after.disk = none) ∧
      (¬SomeForgets s steps → ∀ persist, found persist after.disk = found persist s.disk)) ∧
    ∀ (j : CommandLine.Job) (console : CommandLine.Console) (settings : Config),
      Config.load j.home console.machine.disk = .ok settings →
      console.machine.disk.top.isFolder = true → ∀ secret ending rest, secret ≠ "" →
      '\r' ∉ secret.toList ∧ '\n' ∉ secret.toList → Text.IsLineEnd ending →
      console.input = Text.bytes (secret ++ ending) ++ rest →
      let key := Config.credentialPath j.home
      let next := fun persist => Process.start key persist (j.authLogin.run console).2.machine
      (settings.persistCredential = true → console.machine.disk.Accepts key secret →
        ∀ persist, (next persist).store.cached = some ⟨secret⟩) ∧
      (settings.persistCredential = false → ∀ persist, (next persist).store.cached =
        (Process.start key persist console.machine).store.cached) := by
  intro before after found
  have hafter : after = before.setCredential c := performAll_append s steps _
  have htop' : before.disk.top.isFolder = true := isFolder_performAll htop steps
  obtain ⟨hpath, hkind⟩ := path_performAll s steps
  refine ⟨fun hpersist => ?_, fun hpersist => ?_, ?_⟩
  · have hdisk : after.disk = before.disk.writeOwnerOnly s.store.path c.secret := by
      rw [hafter, Station.disk_set (hkind.trans hpersist), hpath]
    refine ⟨fun haccepts persist => ?_, fun hrefuses persist => ?_⟩
    · rw [hdisk]
      exact CredentialStore.cached_opened_writeOwnerOnly htop' haccepts persist
    · rw [hdisk]
      exact CredentialStore.cached_opened_of_not_accepts htop' hrefuses persist
  · have hdisk : after.disk = before.disk := by
      rw [hafter]
      exact CredentialStore.set_snd_of_not_persist c (hkind.trans hpersist)
    obtain ⟨hforgotten, hkept⟩ := performAll_of_not_persist htop hpersist steps
    refine ⟨fun h persist => ?_, fun h persist => ?_⟩
    · rw [hdisk]
      exact hforgotten h persist
    · rw [hdisk, show before.disk = s.disk from hkept h]
  · intro j console settings hsettings htopc secret ending rest hsecret hline hending hinput
      key next
    obtain ⟨-, hdisk⟩ := CommandLine.Job.disk_authLogin hsettings hsecret hline hending hinput
    have hnext : ∀ persist, (next persist).store = .opened key persist
        (if settings.persistCredential then console.machine.disk.writeOwnerOnly key secret
          else console.machine.disk) :=
      fun persist => congrArg (CredentialStore.opened key persist) hdisk
    refine ⟨fun hpersist haccepts persist => ?_, fun hpersist persist => ?_⟩
    · rw [hnext, if_pos hpersist]
      exact CredentialStore.cached_opened_writeOwnerOnly htopc haccepts persist
    · rw [hnext, if_neg (by simp [hpersist])]
      rfl

/-- On a machine with an old secret, a store that is not a lasting one is opened with it again after
another one was supplied, and a lasting one is not. -/
theorem cached_opened_after_set_careless :
    careless.disk.top.isFolder = true ∧ careless.disk.Accepts ⟨"/key"⟩ "new" ∧
    (CredentialStore.opened ⟨"/key"⟩ false (performAll (Process.start ⟨"/key"⟩ false careless)
      [.set ⟨"new"⟩]).disk).cached = some ⟨"old"⟩ ∧
    (CredentialStore.opened ⟨"/key"⟩ false (performAll (Process.start ⟨"/key"⟩ true careless)
      [.set ⟨"new"⟩]).disk).cached = some ⟨"new"⟩ := by
  have haccepts : careless.disk.Accepts ⟨"/key"⟩ "new" := by decide +kernel
  have hopened : (CredentialStore.opened ⟨"/key"⟩ false careless.disk).cached = some ⟨"old"⟩ := by
    decide +kernel
  obtain ⟨-, hbrief, -⟩ :=
    cached_opened_after_set (Process.start ⟨"/key"⟩ false careless) rfl [] ⟨"new"⟩
  obtain ⟨hlasting, -⟩ :=
    cached_opened_after_set (Process.start ⟨"/key"⟩ true careless) rfl [] ⟨"new"⟩
  have hold := ((hbrief rfl).2 not_false false).trans hopened
  exact ⟨rfl, haccepts, hold, (hlasting rfl).1 haccepts false⟩

end AuthorityStep

end Reclaim
