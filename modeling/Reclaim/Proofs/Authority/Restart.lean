import Reclaim.Proofs.Authority.Lifecycle
import Reclaim.Proofs.CommandLine.Login
import Reclaim.Proofs.Disk.Writing

/-!
# Secrets across restarts

A process opens its store with the secret of the file and works with the secret in memory from then
on.  As long as what is supplied can be written, the two are the same at any time: supplying a
secret puts it into both, forgetting takes it out of both, and a command with administrator rights
leaves both alone or forgets.  So it makes no difference whether a process goes on or ends and
another one opens the store again.

## Main definitions

* `Station.IsSaved` : a store that is opened now has the secret of the station.
* `AuthorityStep.AllWritten` : every secret that is supplied can be written.
* `Process`, `Process.runAll` : processes one after the other, each with a store of its own.
* `Machine.HasNoSecret` : no process finds a secret that none has supplied.
* `Station.Outlives`, `Machine.Hands`, `CommandLine.Job.Keeps` : what a restart makes no difference
  to, at any time, after a secret was written, and for logins and logouts.

## Main results

* `AuthorityStep.isSaved_perform` : what one step preserves.
* `Machine.hasNoSecret` : a secret that is gone stays gone.
* `AuthorityStep.performAll_restart` : restarts make no difference.
-/

namespace Reclaim

/-! ### What a store is opened with -/

namespace CredentialStore

variable {d d' : Disk} {path : Path}

/-- A store that is opened has the text of the file as its secret, if there is one. -/
theorem cached_opened (path : Path) (persist : Bool) (d : Disk) :
    (opened path persist d).cached = (d.readText path).toOption.map Credential.mk := by
  rw [opened, load]
  cases d.readText path <;> rfl

@[simp] theorem path_opened (path : Path) (persist : Bool) (d : Disk) :
    (opened path persist d).path = path := by
  rw [opened, load]
  split <;> rfl

@[simp] theorem persist_opened (path : Path) (persist : Bool) (d : Disk) :
    (opened path persist d).persist = persist := by
  rw [opened, load]
  split <;> rfl

/-- Of a secret that is supplied only a lasting store changes the files. -/
theorem set_snd (store : CredentialStore) (c : Credential) (d : Disk) :
    (store.set c d).2 = if store.persist then d.writeOwnerOnly store.path c.secret else d :=
  rfl

/-- After a secret has been written, a store is opened with it. -/
theorem cached_opened_writeOwnerOnly {c : Credential} (htop : d.top.isFolder = true)
    (h : d.Accepts path c.secret) (persist : Bool) :
    (opened path persist (d.writeOwnerOnly path c.secret)).cached = some c := by
  rw [cached_opened, Disk.readText_writeOwnerOnly htop h]
  rfl

end CredentialStore

/-! ### Memory and file -/

namespace Station

variable {s t : Station}

/-- A store that is opened now at the same path has the secret of the station. -/
def IsSaved (s : Station) : Prop :=
  ∀ persist, (CredentialStore.opened s.store.path persist s.disk).cached = s.store.cached

theorem IsSaved.congr (h : s.IsSaved) (hpath : t.store.path = s.store.path)
    (hdisk : t.disk = s.disk) (hcached : t.store.cached = s.store.cached) : t.IsSaved := by
  intro persist
  rw [hpath, hdisk, hcached]
  exact h persist

theorem isSaved_of_opened {path : Path} {persist : Bool}
    (h : s.store = .opened path persist s.disk) : s.IsSaved := by
  intro persist'
  rw [h, CredentialStore.path_opened, CredentialStore.cached_opened, CredentialStore.cached_opened]

theorem store_clear (s : Station) : s.clearCredential.store = { s.store with cached := none } :=
  CredentialStore.clear_fst s.store s.disk

/-- Forgetting takes the secret out of memory and file. -/
theorem isSaved_clear (htop : s.disk.top.isFolder = true) : s.clearCredential.IsSaved := by
  intro persist
  rw [s.store_clear]
  exact CredentialStore.cached_opened_of_not_isFile (s.store.isFile_clear htop) persist

theorem disk_set {c : Credential} (hpersist : s.store.persist = true) :
    (s.setCredential c).disk = s.disk.writeOwnerOnly s.store.path c.secret :=
  (s.store.set_snd c s.disk).trans (if_pos hpersist)

/-- Supplying puts the secret into memory and, if it can be written, into the file. -/
theorem isSaved_set {c : Credential} (htop : s.disk.top.isFolder = true)
    (hpersist : s.store.persist = true) (h : s.disk.Accepts s.store.path c.secret) :
    (s.setCredential c).IsSaved := by
  intro persist
  rw [disk_set hpersist]
  exact CredentialStore.cached_opened_writeOwnerOnly htop h persist

end Station

/-- A command with administrator rights leaves memory and file alone, or forgets the secret. -/
theorem Elevator.isSaved_run {s : Station} (e : Elevator) (command : String)
    (htop : s.disk.top.isFolder = true) (h : s.IsSaved) : (e.run command s).2.IsSaved := by
  cases hcached : s.store.cached with
  | some c =>
    cases hresult : (s.machine.launch (e.executor.helperCall command c.secret)).1 with
    | error error =>
      rw [run_of_launch_error hcached hresult]
      exact h.congr rfl rfl rfl
    | ok outcome =>
      cases hsucceeded : outcome.succeeded with
      | true =>
        rw [run_of_succeeded hcached hresult hsucceeded]
        exact h.congr rfl rfl rfl
      | false =>
        obtain ⟨text, hrun⟩ := run_of_not_succeeded hcached hresult hsucceeded
        rw [hrun]
        exact (Station.isSaved_clear htop).congr rfl rfl rfl
  | none =>
    cases hconsent : e.consentFallback with
    | true =>
      rw [run_of_consent command hcached hconsent]
      exact h.congr rfl rfl rfl
    | false =>
      rw [run_of_no_consent command hcached hconsent]
      exact h.congr rfl rfl rfl

namespace AuthorityStep

variable {s : Station} {step : AuthorityStep} {steps : List AuthorityStep}

/-- The file of a store and whether it is used never change. -/
theorem path_perform (s : Station) (step : AuthorityStep) :
    (perform s step).store.path = s.store.path ∧
      (perform s step).store.persist = s.store.persist := by
  rcases store_perform s step with ⟨c, -, hstore⟩ | hstore | hstore | ⟨-, hstore⟩ | hstore
  all_goals rw [hstore]
  all_goals exact ⟨rfl, rfl⟩

theorem path_performAll (s : Station) (steps : List AuthorityStep) :
    (performAll s steps).store.path = s.store.path ∧
      (performAll s steps).store.persist = s.store.persist := by
  induction steps generalizing s with
  | nil => exact ⟨rfl, rfl⟩
  | cons step steps ih =>
    obtain ⟨hpath, hpersist⟩ := ih (perform s step)
    obtain ⟨hpath', hpersist'⟩ := path_perform s step
    exact ⟨hpath.trans hpath', hpersist.trans hpersist'⟩

/-- A secret that the step supplies can be written. -/
def IsWritten (s : Station) (step : AuthorityStep) : Prop :=
  ∀ c, step = .set c → s.disk.Accepts s.store.path c.secret

/-- What one step preserves: the secret in memory is that of the file. -/
theorem isSaved_perform (htop : s.disk.top.isFolder = true) (hsaved : s.IsSaved)
    (hstep : ∀ c, step = .set c →
      s.store.persist = true ∧ s.disk.Accepts s.store.path c.secret) :
    (perform s step).IsSaved := by
  cases step with
  | set c =>
    obtain ⟨hpersist, haccepts⟩ := hstep c rfl
    exact Station.isSaved_set htop hpersist haccepts
  | clear => exact Station.isSaved_clear htop
  | elevate e command => exact e.isSaved_run command htop hsaved

/-- Every secret that is supplied can be written at the time. -/
def AllWritten (s : Station) : List AuthorityStep → Prop
  | [] => True
  | step :: steps => IsWritten s step ∧ AllWritten (perform s step) steps

theorem performAll_append (s : Station) (steps later : List AuthorityStep) :
    performAll s (steps ++ later) = performAll (performAll s steps) later :=
  List.foldl_append

theorem allWritten_append {later : List AuthorityStep} : AllWritten s (steps ++ later) ↔
    AllWritten s steps ∧ AllWritten (performAll s steps) later := by
  induction steps generalizing s with
  | nil => simp [AllWritten]
  | cons step steps ih => rw [List.cons_append, AllWritten, AllWritten, ih, and_assoc]; rfl

/-- In a lasting store whose secrets can be written, the secret in memory is that of the file. -/
theorem isSaved_performAll (htop : s.disk.top.isFolder = true) (hpersist : s.store.persist = true)
    (hsaved : s.IsSaved) (hwritten : AllWritten s steps) : (performAll s steps).IsSaved := by
  induction steps generalizing s with
  | nil => exact hsaved
  | cons step steps ih =>
    obtain ⟨hstep, hsteps⟩ := hwritten
    refine ih (isFolder_perform htop step) ?_ ?_ hsteps
    · rw [(path_perform s step).2, hpersist]
    · exact isSaved_perform htop hsaved fun c hc => ⟨hpersist, hstep c hc⟩

/-- The file of the secret that has just been supplied is for its owner only. -/
theorem modeOf?_set {c : Credential} (htop : s.disk.top.isFolder = true)
    (hpersist : s.store.persist = true) (h : s.disk.Accepts s.store.path c.secret) :
    (perform s (.set c)).disk.modeOf? s.store.path = some ownerOnly := by
  rw [perform, Station.disk_set hpersist]
  exact Disk.modeOf?_writeOwnerOnly htop h

/-- Without a secret in memory and file, and until one is supplied, there is none. -/
theorem isSaved_performAll_of_no_set (htop : s.disk.top.isFolder = true) (hsaved : s.IsSaved)
    (hcached : s.store.cached = none) (hnone : ∀ c, .set c ∉ steps) :
    (performAll s steps).IsSaved ∧ (performAll s steps).store.cached = none := by
  induction steps generalizing s with
  | nil => exact ⟨hsaved, hcached⟩
  | cons step steps ih =>
    have hstep : ∀ c, step ≠ .set c := fun c hc => hnone c (hc ▸ List.mem_cons_self)
    have hcached' : (perform s step).store.cached = none := by
      rw [Option.eq_none_iff_forall_ne_some]
      intro c hc
      rcases cached_perform hc with hbefore | hset
      · rw [hcached] at hbefore
        cases hbefore
      · exact hstep c hset
    exact ih (isFolder_perform htop step)
      (isSaved_perform htop hsaved fun c hc => absurd hc (hstep c)) hcached'
      fun c hc => hnone c (List.mem_cons_of_mem step hc)

end AuthorityStep

/-! ### Processes -/

open AuthorityStep

/-- A process: it opens the store, which may be a lasting one, and takes steps with it. -/
structure Process where
  persist : Bool
  steps : List AuthorityStep

namespace Process

/-- The station of a process that opens the store at a path. -/
def start (path : Path) (persist : Bool) (m : Machine) : Station where
  machine := m
  store := .opened path persist m.disk

/-- The machine after a process. -/
def run (path : Path) (m : Machine) (p : Process) : Machine :=
  (performAll (start path p.persist m) p.steps).machine

/-- The machine after processes one after the other. -/
def runAll (path : Path) (m : Machine) (processes : List Process) : Machine :=
  processes.foldl (run path) m

end Process

/-- A process that opens the store at the path now, or after others that supply no secret, finds
none. -/
def Machine.HasNoSecret (path : Path) (m : Machine) : Prop :=
  ∀ processes : List Process, (∀ p ∈ processes, ∀ c, .set c ∉ p.steps) → ∀ persist,
    (Process.start path persist (Process.runAll path m processes)).store.cached = none

/-- A secret that is gone stays gone. -/
theorem Machine.hasNoSecret {path : Path} {m : Machine} (htop : m.disk.top.isFolder = true)
    (h : ∀ persist, (CredentialStore.opened path persist m.disk).cached = none) :
    m.HasNoSecret path := by
  intro processes hnone persist
  induction processes generalizing m with
  | nil => exact h persist
  | cons p processes ih =>
    obtain ⟨hp, hprocesses⟩ := List.forall_mem_cons.mp hnone
    have hsaved : (Process.start path p.persist m).IsSaved := Station.isSaved_of_opened rfl
    have htop' : (Process.start path p.persist m).disk.top.isFolder = true := htop
    obtain ⟨hsaved', hcached'⟩ :=
      isSaved_performAll_of_no_set htop' hsaved (h p.persist) hp
    refine ih (isFolder_performAll htop' p.steps) ?_ hprocesses
    intro persist'
    have hpath := (path_performAll (Process.start path p.persist m) p.steps).1
    rw [Process.start, CredentialStore.path_opened] at hpath
    rw [← hcached', ← hsaved' persist']
    exact congrArg (fun path => (CredentialStore.opened path persist' _).cached) hpath.symm

/-- After the secret of a store was forgotten, no process finds one. -/
theorem Machine.hasNoSecret_of_clear {m : Machine} {store : CredentialStore} {d : Disk}
    (htop : d.top.isFolder = true) (h : m.disk = (store.clear d).2) :
    m.HasNoSecret store.path := by
  refine hasNoSecret ?_ fun persist => ?_
  · rw [h]
    exact store.isFolder_clear htop
  · rw [h]
    exact CredentialStore.cached_opened_of_not_isFile (store.isFile_clear htop) persist

/-- After a command that failed with a secret, no process finds one. -/
theorem Elevator.hasNoSecret_run {s : Station} {e : Elevator} {command : String}
    (htop : s.disk.top.isFolder = true) {error : ExecError}
    (h : (e.run command s).1 = .error (.rejected error)) :
    (e.run command s).2.machine.HasNoSecret s.store.path := by
  rcases e.run_disk command s with ⟨-, hdisk⟩ | ⟨hnot, -⟩
  · exact Machine.hasNoSecret_of_clear htop hdisk
  · exact absurd h (hnot error)

/-- Of a login only one that is to last changes the files. -/
theorem CommandLine.Job.disk_authLogin {j : Job} {console : Console} {settings : Config}
    (hsettings : Config.load j.home console.machine.disk = .ok settings)
    {secret ending : String} {rest : List UInt8} (hsecret : secret ≠ "")
    (hline : '\r' ∉ secret.toList ∧ '\n' ∉ secret.toList) (hending : Text.IsLineEnd ending)
    (hinput : console.input = Text.bytes (secret ++ ending) ++ rest) :
    (j.authLogin.run console).1 = .ok () ∧ (j.authLogin.run console).2.machine.disk =
      if settings.persistCredential
        then console.machine.disk.writeOwnerOnly (Config.credentialPath j.home) secret
        else console.machine.disk := by
  obtain ⟨output, hlogin⟩ := run_authLogin hsettings hsecret hline hending hinput
  refine ⟨congrArg Prod.fst hlogin, ?_⟩
  rw [hlogin]
  simp only [CredentialStore.set_snd, CredentialStore.path_opened, CredentialStore.persist_opened]

/-! ### Restarts -/

/-- A restart makes no difference to a station after some steps: a store that is opened now has its
secret, the file of a secret just supplied is for its owner only, and after a command that fails
with the secret no later process finds one. -/
structure Station.Outlives (path : Path) (earlier : List AuthorityStep) (t : Station) : Prop where
  reopened : ∀ persist, (CredentialStore.opened path persist t.disk).cached = t.store.cached
  mode : ∀ before c, earlier = before ++ [.set c] → t.disk.modeOf? path = some 0o600
  rejected : ∀ (e : Elevator) command error, (e.run command t).1 = .error (.rejected error) →
    (e.run command t).2.machine.HasNoSecret path

/-- A process that is started on the machine gives the helper exactly the secret with a line feed,
and when that fails no later process finds one. -/
structure Machine.Hands (key : Path) (secret : String) (m : Machine) : Prop where
  input : ∀ (x : Executor) command, (x.helperCall command secret).input = secret ++ "\n"
  runs : ∀ persist (e : Elevator) command,
    (e.run command (Process.start key persist m)).2.machine.runs = m.runs ++
      [⟨e.executor.helperCall command secret,
        (m.launch (e.executor.helperCall command secret)).1⟩]
  rejected : ∀ persist (e : Elevator) command error,
    (e.run command (Process.start key persist m)).1 = .error (.rejected error) →
      (e.run command (Process.start key persist m)).2.machine.HasNoSecret key

/-- A login keeps the password for later processes, and after a logout none finds one. -/
structure CommandLine.Job.Keeps (j : Job) (console : Console) (settings : Config) : Prop where
  login : ∀ secret ending rest, settings.persistCredential = true → secret ≠ "" →
    '\r' ∉ secret.toList ∧ '\n' ∉ secret.toList → Text.IsLineEnd ending →
    console.input = Text.bytes (secret ++ ending) ++ rest →
    console.machine.disk.Accepts (Config.credentialPath j.home) secret →
      (j.authLogin.run console).1 = .ok () ∧
      (j.authLogin.run console).2.machine.Hands (Config.credentialPath j.home) secret
  logout : (j.authLogout.run console).1 = .ok ()
  forgotten : (j.authLogout.run console).2.machine.HasNoSecret (Config.credentialPath j.home)

/-- A process that opens the store after a secret has been written has it. -/
theorem Machine.hands_of_written {key : Path} {secret : String} {m : Machine} {d : Disk}
    (htop : d.top.isFolder = true) (haccepts : d.Accepts key secret)
    (hdisk : m.disk = d.writeOwnerOnly key secret) : m.Hands key secret := by
  have hcached (persist : Bool) : (Process.start key persist m).store.cached = some ⟨secret⟩ := by
    have hopen := CredentialStore.cached_opened_writeOwnerOnly htop haccepts persist
    rwa [← hdisk] at hopen
  have htop' : m.disk.top.isFolder = true := by
    rw [hdisk]
    exact Disk.isFolder_writeOwnerOnly htop key secret
  refine ⟨fun _ _ => rfl, fun persist e command => e.runs_of_cached command (hcached persist),
    fun persist e command error hrejected => ?_⟩
  have hnone := Elevator.hasNoSecret_run (s := Process.start key persist m) htop' hrejected
  have hpath : (Process.start key persist m).store.path = key :=
    CredentialStore.path_opened key persist m.disk
  rwa [hpath] at hnone

theorem CommandLine.Job.keeps {j : Job} {console : Console} {settings : Config}
    (hsettings : Config.load j.home console.machine.disk = .ok settings)
    (htop : console.machine.disk.top.isFolder = true) : j.Keeps console settings := by
  obtain ⟨output, hlogout⟩ := run_authLogout hsettings
  refine ⟨?_, congrArg Prod.fst hlogout, ?_⟩
  · intro secret ending rest hpersisted hsecret hline hending hinput haccepts
    obtain ⟨hlogin, hdisk⟩ := disk_authLogin hsettings hsecret hline hending hinput
    rw [if_pos hpersisted] at hdisk
    exact ⟨hlogin, Machine.hands_of_written htop haccepts hdisk⟩
  · have hforgotten := Machine.hasNoSecret_of_clear htop
      (congrArg (fun run => run.2.machine.disk) hlogout)
    rwa [CredentialStore.path_opened] at hforgotten

namespace AuthorityStep

/-- What a station is after some steps outlives it. -/
theorem outlives_performAll {path : Path} {s : Station}
    (hopened : s.store = .opened path true s.disk) (htop : s.disk.top.isFolder = true)
    {earlier : List AuthorityStep} (hwritten : AllWritten s earlier) :
    (performAll s earlier).Outlives path earlier := by
  have hpath : s.store.path = path := by rw [hopened, CredentialStore.path_opened]
  have hpersist : s.store.persist = true := by rw [hopened, CredentialStore.persist_opened]
  have htpath : (performAll s earlier).store.path = path :=
    (path_performAll s earlier).1.trans hpath
  refine ⟨fun persist => ?_, ?_, fun e command error hrejected => ?_⟩
  · have hsaved : (performAll s earlier).IsSaved :=
      isSaved_performAll htop hpersist (Station.isSaved_of_opened hopened) hwritten
    rw [← hsaved persist, htpath]
  · rintro before c rfl
    have hset := (allWritten_append.mp hwritten).2.1
    obtain ⟨hpath', hpersist'⟩ := path_performAll s before
    have hmode := modeOf?_set (isFolder_performAll htop before) (hpersist'.trans hpersist)
      (hset c rfl)
    rw [hpath', hpath] at hmode
    rw [performAll_append]
    exact hmode
  · exact htpath ▸ Elevator.hasNoSecret_run (isFolder_performAll htop earlier) hrejected

/-- **Restarts make no difference.** A lasting store is opened, and secrets are supplied and
forgotten and commands run with administrator rights, in any order and with any answers of the
programs, every secret supplied being one that can be written.  At any time a store that is opened
at the same path has the secret of this one, or none if this one has none; the file of a secret just
supplied is for its owner only; and after a command that failed with its secret no later process
finds one.  So a password that is given to a login reaches the helper in a later process exactly as
it was given, with a line feed behind it, and after a logout no later process finds one. -/
theorem performAll_restart (path : Path) (s : Station)
    (hopened : s.store = .opened path true s.disk)
    (htop : s.disk.top.isFolder = true) (steps : List AuthorityStep)
    (hwritten : AllWritten s steps) :
    (∀ earlier later, steps = earlier ++ later →
      (performAll s earlier).Outlives path earlier) ∧
    ∀ (j : CommandLine.Job) (console : CommandLine.Console) (settings : Config),
      Config.load j.home console.machine.disk = .ok settings →
      console.machine.disk.top.isFolder = true → j.Keeps console settings := by
  constructor
  · rintro earlier later rfl
    exact outlives_performAll hopened htop (allWritten_append.mp hwritten).1
  · exact fun j console settings hsettings htopc => CommandLine.Job.keeps hsettings htopc

/-- A machine whose programs all fail, with a secret that everyone can read. -/
def careless : Machine where
  disk := ⟨.folder [("key", .file 0o644 (.bytes "old".toUTF8))]⟩
  programs := fun _ _ _ => .ok { ending := .exit 1 }

/-- A login on that machine, with a line that ends in two characters. -/
def carelessLogin : CommandLine.Console where
  machine := careless
  input := Text.bytes "pässword\r\n"

/-- A secret is replaced, used without success and gone; another one is given to a login. -/
theorem performAll_restart_careless :
    let s := Process.start ⟨"/key"⟩ true careless
    let t := performAll s [.set ⟨"two\nlines"⟩]
    let j : CommandLine.Job := ⟨{ home := some ⟨"/home"⟩ }, { task := .authLogin }⟩
    let key := Config.credentialPath j.home
    s.disk.top.isFolder = true ∧ AllWritten s [.set ⟨"two\nlines"⟩] ∧
    Config.load j.home careless.disk = .ok {} ∧ careless.disk.Accepts key "pässword" ∧
    (CredentialStore.opened ⟨"/key"⟩ false t.disk).cached = some ⟨"two\nlines"⟩ ∧
    t.disk.modeOf? ⟨"/key"⟩ = some 0o600 ∧
    (({} : Elevator).run "true" t).2.machine.HasNoSecret ⟨"/key"⟩ ∧
    (j.authLogin.run carelessLogin).1 = .ok () ∧
    (j.authLogout.run carelessLogin).2.machine.HasNoSecret key := by
  intro s t j key
  have hwritten : AllWritten s [.set ⟨"two\nlines"⟩] := by
    refine ⟨fun c hc => ?_, trivial⟩
    cases hc
    decide +kernel
  have hload : Config.load j.home careless.disk = .ok {} := by decide +kernel
  have haccepts : careless.disk.Accepts key "pässword" := by decide +kernel
  obtain ⟨hrun, hprocesses⟩ := performAll_restart ⟨"/key"⟩ s rfl rfl _ hwritten
  have houtlives := hrun [.set ⟨"two\nlines"⟩] [] rfl
  have hkeeps := hprocesses j carelessLogin {} hload rfl
  refine ⟨rfl, hwritten, hload, haccepts, houtlives.reopened false, houtlives.mode [] _ rfl, ?_, ?_,
    hkeeps.forgotten⟩
  · exact houtlives.rejected {} "true" _ rfl
  · have hline : '\r' ∉ "pässword".toList ∧ '\n' ∉ "pässword".toList := by simp
    exact (hkeeps.login "pässword" "\r\n" [] rfl (by decide) hline (.inr rfl)
      (by simp [carelessLogin]) haccepts).1

end AuthorityStep

end Reclaim
