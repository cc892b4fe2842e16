import Reclaim.Proofs.Authority.Elevation
import Reclaim.Proofs.Clean.Survival

/-!
# What a clean says and what it did

A clean reports a phase for the part of the system, it may use up the secret, and it publishes a
line and a number of bytes.  The three agree: from the phase alone it is known whether a program
ran, what is left of the secret, and what the last line says.

The user's part is over before anything else happens.  The one program that may run afterwards
finds the disk as the sweeps left it, and the figures of the sweeps are those of the directories
and the disk, whatever the program answers.

## Main definitions

* `SystemPhase.Tells` : the last line of a clean, by its phase.
* `Cleaner.Spares` : no directory of the user holds anything on the way to a file.
* `Cleaner.SystemOutcome` : a phase with what it means for programs, secret and published values.
* `Cleaner.Accounts` : a report with what it says of the station that is left.

## Main results

* `Cleaner.systemOutcome_runSystem` : the part of the system.
* `Cleaner.exists_runUser_eq` : the part of the user changes the disk and the line only.
* `Cleaner.runOn_published` : what is published in the end.
* `Cleaner.runOn_outcome` : a whole clean.
-/

namespace Reclaim

open Node

/-- The last line of a clean, by the phase that it ends in. -/
def SystemPhase.Tells : SystemPhase → String → Prop
  | .notNeeded, line => line = "Cleaned"
  | .cleaned, line => line = "Cleaned"
  | .needsAuthorization, line => line = "Requires Authorization"
  | .credentialRejected, line => line = "Password Incorrect/Expired"
  | .failed text, line => line = "Error: " ++ text ∨ line = "Cleanup Cancelled by User"

/-- The line `Cleaned` is shown exactly if nothing is left to do. -/
theorem SystemPhase.Tells.eq_cleaned_iff {phase : SystemPhase} {line : String}
    (h : phase.Tells line) : line = "Cleaned" ↔ phase = .notNeeded ∨ phase = .cleaned := by
  have herror (text : String) : "Error: " ++ text ≠ "Cleaned" := by
    intro hsame
    have hfirst := congrArg (fun line => line.toList.head?) hsame
    simp at hfirst
  cases phase with
  | notNeeded => simp [show line = _ from h]
  | cleaned => simp [show line = _ from h]
  | needsAuthorization => simp [show line = _ from h]
  | credentialRejected => simp [show line = _ from h]
  | failed text =>
    rcases h with rfl | rfl
    · simp [herror]
    · simp

theorem Station.HasForgotten.of_eq {s s' : Station} (h : s.HasForgotten)
    (hstore : s'.store = s.store) (hdisk : s'.disk = s.disk) : s'.HasForgotten where
  cached := by rw [hstore, h.cached]
  file := by rw [hstore, hdisk, h.file]
  reopened := by simpa only [hstore, hdisk] using h.reopened
  requested := by rw [hstore, h.requested]

/-! ### Files outside the directories of the user -/

/-- The top of a part of a tree is a folder if that of the tree is. -/
theorem Node.IsPartOf.isFolder_eq {top top' : Node} (h : IsPartOf top' top) :
    top'.isFolder = top.isFolder := by
  have hsame : bareAt? top' [] = bareAt? top [] := h.bareAt?_eq (Way.bareAt?_nil_ne_none top')
  have hbare : top'.bare = top.bare := by simpa [bareAt?, Node.at?] using hsame
  rw [← isFolder_bare, hbare, isFolder_bare]

/-- In a part of a tree a file reads the same if nothing on the way to it has gone. -/
theorem Disk.toOption_readText_of_isPartOf {d d' : Disk} {p : Path} (hpart : IsPartOf d'.top d.top)
    (hway : ∀ seen place, d.Leads true p seen place → ∀ q ∈ seen, d'.top.bareAt? q ≠ none) :
    (d'.readText p).toOption = (d.readText p).toOption := by
  by_cases h : ∃ seen place, d.Leads true p seen place
  · obtain ⟨seen, place, hleads⟩ := h
    have hleads' := hleads.mono hpart (hway seen place hleads)
    obtain ⟨node, hat⟩ := hleads.exists_at?
    obtain ⟨node', hat'⟩ := hleads'.exists_at?
    have hbare : node'.bare = node.bare := by
      have hsame : d'.top.bareAt? place = d.top.bareAt? place :=
        hpart.bareAt?_eq (by simp [bareAt?, hat'])
      simpa [bareAt?, hat, hat'] using hsame
    rw [readText, read, hleads'.status_eq hat', readText, read, hleads.status_eq hat]
    cases node <;> cases node' <;> simp_all [bare]
    rfl
  · have h' : ¬∃ seen place, d'.Leads true p seen place := by
      rintro ⟨seen, place, hleads⟩
      exact h ⟨seen, place, hleads.of_isPartOf hpart⟩
    obtain ⟨e, he⟩ := exists_locate_error h
    obtain ⟨e', he'⟩ := exists_locate_error h'
    rw [readText, read, status, he', readText, read, status, he]
    rfl

namespace Cleaner

variable (home : Option Path) (present : Path → Bool) (c : Cleaner)

/-- No directory of the user holds, when it has its turn, anything on the way to the file. -/
def Spares (d : Disk) (p : Path) : Prop :=
  ∀ seen place, d.Leads true p seen place →
    ∀ q ∈ seen, ∀ v ∈ visits home c.catalog.user d, ¬v.Covers q

variable {home c}

/-- A file that is spared reads the same when all directories have had their turns. -/
theorem Spares.toOption_readText {d : Disk} {p : Path} (h : c.Spares home d p)
    (hsound : d.top.Sound) : ((sweepAll home c.catalog.user d).2.readText p).toOption =
      (d.readText p).toOption := by
  refine Disk.toOption_readText_of_isPartOf (isPartOf_sweepAll home hsound _) ?_
  intro seen place hleads q hq
  rw [bareAt?_sweepAll home hsound _ (h seen place hleads q hq)]
  exact hleads.bareAt?_ne_none hq

/-! ### The part of the user -/

variable (home c) in
/-- The part of the user changes the disk and the line only. -/
theorem exists_runUser_eq (s : Station) : ∃ line, (c.runUser home s).2 =
    { s.withDisk (sweepAll home c.catalog.user s.disk).2 with
      signals := { s.signals with line } } := by
  have hfold : ∀ (roots : List ReclaimRoot) (total : Sweep) (s : Station), ∃ d line,
      (roots.foldl (visit home) (total, s)).2 =
        { s.withDisk d with signals := { s.signals with line } } := by
    intro roots
    induction roots with
    | nil => exact fun _ s => ⟨s.disk, s.signals.line, rfl⟩
    | cons root roots ih =>
      intro total s
      obtain ⟨d, line, hrest⟩ := ih (visit home (total, s) root).1 (visit home (total, s) root).2
      refine ⟨d, ?_⟩
      rw [List.foldl_cons, hrest, visit]
      split
      · exact ⟨line, rfl⟩
      · exact ⟨line, rfl⟩
  obtain ⟨d, line, hall⟩ := hfold c.catalog.user {} s
  have hdisk := (runUser_eq home c s).2
  rw [runUser, hall] at hdisk
  refine ⟨line, ?_⟩
  rw [runUser, hall, ← hdisk]
  rfl

/-! ### The part of the system -/

/-- The part of the system, begun at a station: its phase and bytes and the station that it leaves,
with what the phase means for programs, secret and published values. -/
structure SystemOutcome (present : Path → Bool) (c : Cleaner) (s : Station) (phase : SystemPhase)
    (bytes : Nat) (after : Station) : Prop where
  runs : after.machine.runs = s.machine.runs ∨
    ∃ call, after.machine.runs = s.machine.runs ++ [s.machine.next call]
  notNeeded_iff : phase = .notNeeded ↔ c.catalog.eligibleRoots present = []
  idle : phase = .notNeeded → after = s
  kept : (phase = .cleaned ∨ ∃ text, phase = .failed text) →
    after.store = s.store ∧ after.disk = s.disk
  asked : phase = .needsAuthorization →
    after.store.cached = none ∧ after.store.requested.value = true
  rejected : phase = .credentialRejected → after.HasForgotten
  bytes_eq_zero : phase ≠ .cleaned → bytes = 0
  signals : after.signals.bytes = s.signals.bytes
  tells : phase ≠ .notNeeded → phase ≠ .cleaned → phase.Tells after.signals.line.value

theorem systemCommand?_eq_none_iff (present : Path → Bool) (c : Cleaner) :
    c.catalog.systemCommand? present = none ↔ c.catalog.eligibleRoots present = [] := by
  rw [Catalog.systemCommand?]
  split
  next hnone => simp [hnone]
  next hsome => simpa using hsome

/-- A command that ran after the line that announces it, and left the secret alone. -/
theorem SystemOutcome.of_call {present : Path → Bool} {c : Cleaner} {s after : Station}
    {phase : SystemPhase} {bytes : Nat} {call : Call}
    (hsome : c.catalog.eligibleRoots present ≠ [])
    (hphase : phase = .cleaned ∨ ∃ text, phase = .failed text)
    (hmachine : after.machine = (s.machine.launch call).2) (hstore : after.store = s.store)
    (hsignals : after.signals.bytes = s.signals.bytes) (hbytes : phase ≠ .cleaned → bytes = 0)
    (htells : phase ≠ .cleaned → phase.Tells after.signals.line.value) :
    SystemOutcome present c s phase bytes after where
  runs := .inr ⟨call, by rw [hmachine]; rfl⟩
  notNeeded_iff := by rcases hphase with rfl | ⟨text, rfl⟩ <;> simp [hsome]
  idle := by rcases hphase with rfl | ⟨text, rfl⟩ <;> simp
  kept := fun _ => ⟨hstore, by rw [Station.disk, hmachine]; rfl⟩
  asked := by rcases hphase with rfl | ⟨text, rfl⟩ <;> simp
  rejected := by rcases hphase with rfl | ⟨text, rfl⟩ <;> simp
  bytes_eq_zero := hbytes
  signals := hsignals
  tells := fun _ => htells

theorem tells_failed (error : ExecError) : (SystemPhase.failed error.message).Tells
    (if error.isCancelled then "Cleanup Cancelled by User" else "Error: " ++ error.message) := by
  split
  · exact .inr rfl
  · exact .inl rfl

/-- The phase tells what became of programs, secret and published values. -/
theorem systemOutcome_runSystem (present : Path → Bool) (c : Cleaner) {s : Station}
    (htop : s.disk.top.isFolder = true) :
    SystemOutcome present c s (c.runSystem present s).1.1 (c.runSystem present s).1.2
      (c.runSystem present s).2 := by
  cases hcommand : c.catalog.systemCommand? present with
  | none =>
    have hnone := (systemCommand?_eq_none_iff present c).mp hcommand
    rw [show c.runSystem present s = ((.notNeeded, 0), s) by rw [runSystem, hcommand]]
    constructor <;> simp [hnone]
  | some command =>
    have hsome : c.catalog.eligibleRoots present ≠ [] := by
      rw [Ne, ← systemCommand?_eq_none_iff, hcommand]
      exact Option.some_ne_none command
    have helevation := c.elevator.elevation_run command (s.log "Authorizing System Cleanup...")
    simp only [runSystem, hcommand]
    generalize c.elevator.run command (s.log "Authorizing System Cleanup...") = outcome
      at helevation ⊢
    obtain ⟨result, after⟩ := outcome
    cases helevation with
    | granted => exact .of_call hsome (.inl rfl) rfl rfl rfl (absurd rfl) (absurd rfl)
    | @unstarted c error =>
      exact .of_call hsome (.inr ⟨error.message, rfl⟩) rfl rfl rfl (fun _ => rfl)
        fun _ => tells_failed error
    | rejected =>
      exact {
        runs := .inr ⟨_, rfl⟩
        notNeeded_iff := by simp [hsome]
        idle := by simp
        kept := by simp
        asked := by simp
        rejected := fun _ => (Station.hasForgotten_clear_request htop).of_eq rfl rfl
        bytes_eq_zero := fun _ => rfl
        signals := rfl
        tells := fun _ _ => rfl }
    | consented => exact .of_call hsome (.inl rfl) rfl rfl rfl (absurd rfl) (absurd rfl)
    | @declined error =>
      exact .of_call hsome (.inr ⟨error.message, rfl⟩) rfl rfl rfl (fun _ => rfl)
        fun _ => tells_failed error
    | refused hcached =>
      exact {
        runs := .inl rfl
        notNeeded_iff := by simp [hsome]
        idle := by simp
        kept := by simp
        asked := fun _ => ⟨hcached, rfl⟩
        rejected := by simp
        bytes_eq_zero := fun _ => rfl
        signals := rfl
        tells := fun _ _ => rfl }

/-! ### A whole clean -/

/-- What is published in the end changes neither programs nor secret: nothing is busy, and if
nothing is left to do, the line is `Cleaned` and there are no bytes. -/
theorem runOn_published (home : Option Path) (present : Disk → Path → Bool) (c : Cleaner)
    (s : Station) :
    let s' := (c.runUser home (s.setBusy true)).2
    let t := (c.runSystem (present s'.disk) s').2
    let outcome := (c.runOn home present s).1
    let after := (c.runOn home present s).2
    let finished := outcome.system = .notNeeded ∨ outcome.system = .cleaned
    after.machine = t.machine ∧ after.store = t.store ∧ after.signals.busy.value = false ∧
      (finished → after.signals.bytes.value = 0 ∧ after.signals.line.value = "Cleaned") ∧
      (¬finished → after.signals.bytes = t.signals.bytes ∧
        after.signals.line = t.signals.line) := by
  intro s' t outcome after finished
  have hrun : after = Station.setBusy (if outcome.system == .notNeeded ||
      outcome.system == .cleaned then (t.setBytes 0).log "Cleaned" else t) false := rfl
  rw [hrun]
  split
  next hfin =>
    have hfin : finished := by simpa using hfin
    exact ⟨rfl, rfl, rfl, fun _ => ⟨rfl, rfl⟩, fun hnot => absurd hfin hnot⟩
  next hnot =>
    have hnot : ¬finished := by simpa [finished] using hnot
    exact ⟨rfl, rfl, rfl, fun hfin => absurd hfin hnot, fun _ => ⟨rfl, rfl⟩⟩

/-- What a clean says and what it did, by its report and the station that it leaves. -/
structure Accounts (home : Option Path) (present : Disk → Path → Bool) (c : Cleaner) (s : Station)
    (report : Cleaning) (after : Station) : Prop where
  /-- The figures of the user's part are those of the sweeps. -/
  user : report.user = (sweepAll home c.catalog.user s.disk).1
  /-- At most one program runs, when the sweeps are done. -/
  runs : after.machine.runs = s.machine.runs ∨ ∃ call, after.machine.runs = s.machine.runs ++
    [⟨call, s.machine.programs (sweepAll home c.catalog.user s.disk).2 s.machine.runs call⟩]
  notNeeded_iff : report.system = .notNeeded ↔ ∀ root ∈ Safety.systemRoots,
    ¬((∃ entry ∈ c.catalog.system, entry.path.same ⟨root⟩ = true) ∧
      present (sweepAll home c.catalog.user s.disk).2 ⟨root⟩ = true)
  idle : report.system = .notNeeded → after.machine.runs = s.machine.runs
  /-- Without a reason to doubt it, the secret stays in memory and in its file. -/
  kept : (report.system = .notNeeded ∨ report.system = .cleaned ∨
      ∃ text, report.system = .failed text) →
    after.store = s.store ∧ (after.disk.readText s.store.path).toOption =
      (s.disk.readText s.store.path).toOption
  asked : report.system = .needsAuthorization →
    after.store.cached = none ∧ after.store.requested.value = true
  rejected : report.system = .credentialRejected → after.HasForgotten
  systemBytes : report.system ≠ .cleaned → report.systemBytes = 0
  notBusy : after.signals.busy.value = false
  finished_iff : after.signals.bytes.value = 0 ∧ after.signals.line.value = "Cleaned" ↔
    report.system = .notNeeded ∨ report.system = .cleaned
  bytes : ¬(report.system = .notNeeded ∨ report.system = .cleaned) →
    after.signals.bytes = s.signals.bytes
  tells : report.system.Tells after.signals.line.value

/-- **What a clean says and what it did.** Let a catalog be cleaned, with any credential store whose
file no directory of the user holds, any rule for consent, any test for the directories of the
system and any answers of the programs.  The figures of the user's part are those of the sweeps, one
after the other.  At most one program runs, and it finds the disk as the sweeps left it.  The part
of the system is not needed exactly if no directory that may be emptied is in the catalog and there,
and then no program runs.  If it is not needed, or done, or fails for another reason than the
secret, the store and the secret in its file are as before.  If it waits for a secret, there is none
and one is asked for; if the secret was turned down, its file is gone as well.  Bytes of the system
count only if they are freed.  In the end nothing is busy, and the number of bytes is zero with the
line `Cleaned` exactly if there is nothing left to do; otherwise that number is as before and the
line says why. -/
theorem runOn_outcome (home : Option Path) (present : Disk → Path → Bool) (c : Cleaner)
    (s : Station) (hsound : s.disk.top.Sound) (htop : s.disk.top.isFolder = true)
    (hspares : c.Spares home s.disk s.store.path) :
    Accounts home present c s (c.runOn home present s).1 (c.runOn home present s).2 := by
  let swept := sweepAll home c.catalog.user s.disk
  let report := (c.runOn home present s).1
  let after := (c.runOn home present s).2
  -- the station between the two parts
  let s' := (c.runUser home (s.setBusy true)).2
  obtain ⟨line, huser⟩ : ∃ line, s' =
      { s.withDisk swept.2 with signals := { (s.setBusy true).signals with line } } :=
    exists_runUser_eq home c (s.setBusy true)
  have hdisk' : s'.disk = swept.2 := by rw [huser]; rfl
  have htop' : s'.disk.top.isFolder = true := by
    rw [hdisk', (isPartOf_sweepAll home hsound c.catalog.user).isFolder_eq, htop]
  have h : SystemOutcome (present s'.disk) c s' report.system report.systemBytes
      (c.runSystem (present s'.disk) s').2 :=
    systemOutcome_runSystem (present s'.disk) c htop'
  obtain ⟨hmachine, hstore, hbusy, hfinished, hunfinished⟩ :
      after.machine = (c.runSystem (present s'.disk) s').2.machine ∧
        after.store = (c.runSystem (present s'.disk) s').2.store ∧ _ :=
    runOn_published home present c s
  generalize (c.runSystem (present s'.disk) s').2 = t at h hmachine hstore hunfinished
  have htells : report.system.Tells after.signals.line.value := by
    by_cases hfin : report.system = .notNeeded ∨ report.system = .cleaned
    · rw [(hfinished hfin).2]
      rcases hfin with hphase | hphase <;> rw [hphase] <;> rfl
    · rw [(hunfinished hfin).2]
      exact h.tells (fun hphase => hfin (.inl hphase)) fun hphase => hfin (.inr hphase)
  constructor
  case user => exact (runUser_eq home c (s.setBusy true)).1
  case runs =>
    rw [hmachine]
    rcases h.runs with hruns | ⟨call, hruns⟩
    · exact .inl (by rw [hruns, huser]; rfl)
    · exact .inr ⟨call, by rw [hruns, huser]; rfl⟩
  case notNeeded_iff =>
    rw [h.notNeeded_iff, hdisk']
    simp [Catalog.eligibleRoots, swept]
  case idle =>
    intro hphase
    rw [hmachine, h.idle hphase, huser]
    rfl
  case kept =>
    intro hphase
    obtain ⟨hstore', hdisk''⟩ : t.store = s'.store ∧ t.disk = s'.disk := by
      rcases hphase with hphase | hphase | hphase
      · rw [h.idle hphase]
        exact ⟨rfl, rfl⟩
      · exact h.kept (.inl hphase)
      · exact h.kept (.inr hphase)
    refine ⟨by rw [hstore, hstore', huser]; rfl, ?_⟩
    rw [show after.disk = swept.2 by rw [Station.disk, hmachine, ← hdisk', ← hdisk'']; rfl]
    exact hspares.toOption_readText hsound
  case asked =>
    rw [hstore]
    exact h.asked
  case rejected =>
    exact fun hphase => (h.rejected hphase).of_eq hstore (by rw [Station.disk, hmachine]; rfl)
  case systemBytes => exact h.bytes_eq_zero
  case notBusy => exact hbusy
  case finished_iff => exact ⟨fun hshown => htells.eq_cleaned_iff.mp hshown.2, hfinished⟩
  case bytes =>
    intro hfin
    rw [(hunfinished hfin).1, h.signals, huser]
    rfl
  case tells => exact htells

/-- A directory of caches with one file, and the file of a secret beside it. -/
def keyBeside : Disk :=
  ⟨.folder [("cache", .folder [("f", .file 0 (.bytes ⟨#[1, 2, 3]⟩))]),
    ("key", .file 0o600 (.bytes ⟨#[112, 119]⟩))]⟩

theorem sound_keyBeside : keyBeside.top.Sound := by decide

/-- A station with this disk and the secret, where every program fails. -/
def turnedDown : Station where
  machine := { disk := keyBeside, programs := fun _ _ _ => .ok { ending := .exit 1 } }
  store := { path := ⟨"/key"⟩, cached := some ⟨"pw"⟩ }

/-- The cleaner of the caches and of a directory of the system. -/
def cacheCleaner : Cleaner :=
  ⟨Catalog.ofRoots none [⟨⟨"/cache"⟩, .user⟩, ⟨⟨"/Library/Logs"⟩, .system⟩], {}⟩

/-- No part of the way to the secret is inside the caches. -/
theorem spares_keyBeside : cacheCleaner.Spares none keyBeside ⟨"/key"⟩ := by
  intro seen place hleads q hq v hv hcovers
  have hstraight : keyBeside.IsStraight true ⟨"/key"⟩ := by decide +kernel
  obtain ⟨hplace, habove⟩ := hleads.of_isStraight hstraight (by decide) (by decide +kernel)
  have hcomponents : (Path.mk "/key").components = [.root, .name "key"] := by decide +kernel
  have hkey : place = ["key"] := by
    rw [hcomponents] at hplace
    have hnames : place.map Component.name = ["key"].map Component.name :=
      (List.cons.inj hplace).2.symm
    exact List.map_injective_iff.mpr (fun _ _ h => Component.name.inj h) hnames
  -- the turn is that of the caches
  have hturns : ∀ v ∈ visits none cacheCleaner.catalog.user keyBeside,
      (v.before.folderAt? v.root).map Prod.fst = some ["cache"] := by
    decide +kernel
  obtain ⟨place', entries, hfolder, hinside, -⟩ := hcovers
  have hcache : place' = ["cache"] := by simpa [hfolder] using hturns v hv
  have hwithin := hinside.trans (habove q hq)
  rw [hcache, hkey] at hwithin
  revert hwithin
  decide

/-- A clean that frees three bytes of the user and loses a secret that is turned down. -/
theorem runOn_outcome_turnedDown : turnedDown.disk.top.Sound ∧
    turnedDown.disk.top.isFolder = true ∧
    cacheCleaner.Spares none turnedDown.disk turnedDown.store.path ∧
    (cacheCleaner.runOn none (fun _ _ => true) turnedDown).1 =
      ⟨⟨3, 1, 0⟩, .credentialRejected, 0⟩ ∧
    (cacheCleaner.runOn none (fun _ _ => true) turnedDown).2.HasForgotten ∧
    (cacheCleaner.runOn none (fun _ _ => true) turnedDown).2.signals.line.value =
      "Password Incorrect/Expired" := by
  have houtcome : (cacheCleaner.runOn none (fun _ _ => true) turnedDown).1 =
      ⟨⟨3, 1, 0⟩, .credentialRejected, 0⟩ := by
    decide +kernel
  have haccounts := runOn_outcome none (fun _ _ => true) cacheCleaner turnedDown sound_keyBeside rfl
    spares_keyBeside
  rw [houtcome] at haccounts
  exact ⟨sound_keyBeside, rfl, spares_keyBeside, houtcome, haccounts.rejected rfl, haccounts.tells⟩

end Cleaner

end Reclaim
