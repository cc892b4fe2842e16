import Reclaim.Proofs.Secrecy.Applications
import Reclaim.Proofs.Secrecy.Commands

/-!
# Sessions that do not tell the secret

A session scans, lists applications, cleans, uninstalls and runs maintenance on one machine, and
secrets are supplied and forgotten on the way.  Two runs of the same session with different secrets
are compared.  What they are allowed to differ in is what the helper reads and what is in the file
of the secret; these contents are hidden, and the two runs resemble each other all the time.

Two things are asked of the files where an operation begins.  No tree that it walks through holds a
hidden file; and no descriptor of an application leads to one.  The second does not follow from the
first, for a descriptor may be a link to anywhere, and a secret that is read as a descriptor decides
what is uninstalled.

## Main definitions

* `Session`, `Session.Operation`, `Session.performAll` : sessions and what they report.
* `Session.Operation.StaysOutside` : the hidden files are those of the secret, and no tree that an
  operation walks through holds one.
* `Session.Operation.ReadsShown` : no descriptor that an operation reads leads to a hidden file.
* `Session.Resembles` : what two sessions work on differs in nothing but secrets.

## Main results

* `Session.perform_resembles` : one operation.
* `Session.performAll_resembles` : two runs of a session.
-/

namespace Reclaim

/-- What a session works on.  Every engine publishes values of its own. -/
structure Session where
  machine : Machine := {}
  store : CredentialStore
  inventory : Inventory
  signals : Nat → Signals := fun _ => {}

namespace Session

/-! ### Operations -/

/-- What is done in a session.  An engine is known by its number, and so is a secret. -/
inductive Operation where
  /-- The directories of a catalog are measured; the clock says how long it took. -/
  | scan (engine : Nat) (scanner : Scanner) (seconds : Double)
  /-- The applications are listed. -/
  | list
  /-- The directories of a catalog are emptied. -/
  | clean (engine : Nat) (cleaner : Cleaner)
  /-- An application goes. -/
  | uninstall (engine : Nat) (remover : Remover) (app : AppRecord)
  /-- Maintenance made of any steps. -/
  | maintain (engine : Nat) (elevator : Elevator) (steps : List MaintenanceStep)
  /-- A secret is supplied. -/
  | set (number : Nat)
  /-- The secret is forgotten. -/
  | clear

/-- What an operation reports. -/
inductive Report where
  | scanned (result : ScanResult) (phase : Published ScanPhase)
  | listed (result : Except AppError Nat)
  | cleaned (cleaning : Cleaning)
  | uninstalled (result : Except AppError Uninstall) (handed : List (Path × Signals))
  | maintained (report : MaintenanceReport)
  /-- Nothing. -/
  | silent

/-- What an engine that uses the store works on. -/
def station (w : Session) (engine : Nat) : Station :=
  ⟨w.machine, w.store, w.signals engine⟩

/-- What is left by an engine that uses the store. -/
def withStation (w : Session) (engine : Nat) (s : Station) : Session :=
  { w with
    machine := s.machine
    store := s.store
    signals := Function.update w.signals engine s.signals }

/-- What an uninstall works on. -/
def removing (w : Session) (engine : Nat) : Removing :=
  { disk := w.machine.disk, inventory := w.inventory, signals := w.signals engine }

/-- What is left by an uninstall. -/
def withRemoving (w : Session) (engine : Nat) (s : Removing) : Session :=
  { w with
    machine := { w.machine with disk := s.disk }
    inventory := s.inventory
    signals := Function.update w.signals engine s.signals }

/-- An operation is carried out. -/
def perform (home : Option Path) (secrets : Nat → Credential) (w : Session) :
    Operation → Report × Session
  | .scan engine scanner seconds =>
    let (result, scanner, signals) :=
      scanner.run home seconds w.machine.disk (w.signals engine)
    (.scanned result scanner.phase, { w with signals := Function.update w.signals engine signals })
  | .list =>
    let (result, inventory) := w.inventory.scan w.machine.disk
    (.listed result, { w with inventory })
  | .clean engine cleaner =>
    let (cleaning, s) := cleaner.runOn home Disk.isPresent (w.station engine)
    (.cleaned cleaning, w.withStation engine s)
  | .uninstall engine remover app =>
    let (result, s) := remover.run home app (w.removing engine)
    (.uninstalled result s.handed, w.withRemoving engine s)
  | .maintain engine elevator steps =>
    let (report, s) := Maintenance.run elevator steps (w.station engine)
    (.maintained report, w.withStation engine s)
  | .set number =>
    let (store, d) := w.store.set (secrets number) w.machine.disk
    (.silent, { w with store, machine := { w.machine with disk := d } })
  | .clear =>
    let (store, d) := w.store.clear w.machine.disk
    (.silent, { w with store, machine := { w.machine with disk := d } })

/-- Operations are carried out one after the other. -/
def performAll (home : Option Path) (secrets : Nat → Credential) (w : Session) :
    List Operation → List Report × Session
  | [] => ([], w)
  | op :: ops =>
    let (report, next) := perform home secrets w op
    let (reports, last) := performAll home secrets next ops
    (report :: reports, last)

/-- A condition holds of every operation when it begins. -/
def Throughout (home : Option Path) (secrets : Nat → Credential)
    (condition : Session → Operation → Prop) (w : Session) : List Operation → Prop
  | [] => True
  | op :: ops => condition w op ∧
      Throughout home secrets condition (perform home secrets w op).2 ops

/-! ### Where the secret is kept -/

/-- A secret is written to hidden files only, and no tree that is scanned, swept or uninstalled
holds a hidden file. -/
def StaysOutside (keys : Place → Bool) (w : Session) : Operation → Prop
  | .scan _ scanner _ =>
    ∀ root ∈ scanner.catalog.toList, w.machine.disk.ShowsTree keys root.path
  | .list => ∀ r ∈ w.inventory.toMeasure w.machine.disk, w.machine.disk.ShowsTree keys r.path
  | .clean _ cleaner => cleaner.ShowsClean keys w.machine.disk
  | .uninstall engine remover app => ∀ record,
    Remover.verified app (w.removing engine) = .ok record →
      remover.ShowsRemoval keys record w.machine.disk
  | .set _ => w.store.persist = true → w.machine.disk.WritesIn keys w.store.path
  | .maintain .. | .clear => True

/-- No descriptor of an application that is listed or uninstalled leads to a hidden file. -/
def ReadsShown (keys : Place → Bool) (w : Session) : Operation → Prop
  | .list => ∀ r ∈ w.inventory.toMeasure w.machine.disk,
    w.machine.disk.ShowsFile keys (Bundle.descriptor r.path)
  | .uninstall engine _ app => ∀ record, Remover.verified app (w.removing engine) = .ok record →
    w.machine.disk.ShowsFile keys (Bundle.descriptor record.path)
  | _ => True

section

variable {keys : Place → Bool}

instance [DecidablePred (ShowsAll keys)] (w : Session) :
    (op : Operation) → Decidable (w.StaysOutside keys op)
  | .scan _ scanner _ => inferInstanceAs
    (Decidable (∀ root ∈ scanner.catalog.toList, w.machine.disk.ShowsTree keys root.path))
  | .list => inferInstanceAs (Decidable
    (∀ r ∈ w.inventory.toMeasure w.machine.disk, w.machine.disk.ShowsTree keys r.path))
  | .clean _ cleaner => inferInstanceAs (Decidable (cleaner.ShowsClean keys w.machine.disk))
  | .uninstall engine remover app => inferInstanceAs (Decidable (∀ record,
    Remover.verified app (w.removing engine) = .ok record →
      remover.ShowsRemoval keys record w.machine.disk))
  | .set _ => inferInstanceAs
    (Decidable (w.store.persist = true → w.machine.disk.WritesIn keys w.store.path))
  | .maintain .. | .clear => .isTrue trivial

instance (w : Session) : (op : Operation) → Decidable (w.ReadsShown keys op)
  | .list => inferInstanceAs (Decidable (∀ r ∈ w.inventory.toMeasure w.machine.disk,
    w.machine.disk.ShowsFile keys (Bundle.descriptor r.path)))
  | .uninstall engine _ app => inferInstanceAs (Decidable (∀ record,
    Remover.verified app (w.removing engine) = .ok record →
      w.machine.disk.ShowsFile keys (Bundle.descriptor record.path)))
  | .scan .. | .clean .. | .maintain .. | .set _ | .clear => .isTrue trivial

instance decideThroughout {condition : Session → Operation → Prop}
    [∀ w op, Decidable (condition w op)] (home : Option Path) (secrets : Nat → Credential)
    (w : Session) : (ops : List Operation) → Decidable (w.Throughout home secrets condition ops)
  | [] => .isTrue trivial
  | op :: ops =>
    have : Decidable ((perform home secrets w op).2.Throughout home secrets condition ops) :=
      decideThroughout home secrets _ ops
    inferInstanceAs (Decidable (condition w op ∧ _))

end

/-- What two sessions work on differs in nothing but secrets and hidden contents. -/
structure Resembles (keys : Place → Bool) (w w' : Session) : Prop where
  machine : w.machine.Resembles keys w'.machine
  store : w.store.Resembles w'.store
  inventory : w.inventory = w'.inventory
  signals : w.signals = w'.signals

theorem Resembles.refl {keys : Place → Bool} (w : Session) : w.Resembles keys w :=
  ⟨⟨rfl, List.forall₂_same.mpr fun r _ => ⟨.same r.call, rfl⟩⟩, ⟨rfl, rfl, rfl, rfl⟩, rfl, rfl⟩

variable {keys : Place → Bool} {home : Option Path} {secrets secrets' : Nat → Credential}
  {w w' : Session} {op : Operation} {ops : List Operation}

theorem Resembles.station (h : w.Resembles keys w') (engine : Nat) :
    (w.station engine).Resembles keys (w'.station engine) :=
  ⟨h.machine, h.store, congrFun h.signals engine⟩

theorem Resembles.withStation {s s' : Station} (h : w.Resembles keys w')
    (hs : s.Resembles keys s') (engine : Nat) :
    (w.withStation engine s).Resembles keys (w'.withStation engine s') where
  machine := hs.machine
  store := hs.store
  inventory := h.inventory
  signals := by simp only [Session.withStation, h.signals, hs.signals]

theorem Resembles.removing (h : w.Resembles keys w') (engine : Nat) :
    (w.removing engine).Resembles keys (w'.removing engine) :=
  ⟨h.machine.disk, h.inventory, congrFun h.signals engine, rfl, rfl⟩

theorem Resembles.withRemoving {s s' : Removing} (h : w.Resembles keys w')
    (hs : s.Resembles keys s') (engine : Nat) :
    (w.withRemoving engine s).Resembles keys (w'.withRemoving engine s') where
  machine := ⟨hs.disk, h.machine.runs⟩
  store := h.store
  inventory := hs.inventory
  signals := by simp only [Session.withRemoving, h.signals, hs.signals]

/-! ### One operation -/

theorem runs_prefix_perform (home : Option Path) (secrets : Nat → Credential) (w : Session)
    (op : Operation) : w.machine.runs <+: (perform home secrets w op).2.machine.runs := by
  cases op with
  | clean engine cleaner => exact cleaner.runs_prefix_runOn home Disk.isPresent (w.station engine)
  | maintain engine elevator steps =>
    exact Maintenance.runs_prefix_run elevator steps (w.station engine)
  | scan | list | uninstall | set | clear => exact List.prefix_refl _

/-- One operation, with two secrets: the report is the same, and nothing differs afterwards but
secrets. -/
theorem perform_resembles (h : w.Resembles keys w')
    (hblind : ∀ engine remover app, op = .uninstall engine remover app →
      remover.trash.IsBlind keys)
    (houtside : w.StaysOutside keys op) (hshown : w.ReadsShown keys op)
    (halike : (perform home secrets w op).2.machine.AnsweredAlike
      (perform home secrets' w' op).2.machine) :
    (perform home secrets w op).1 = (perform home secrets' w' op).1 ∧
      (perform home secrets w op).2.Resembles keys (perform home secrets' w' op).2 := by
  cases op with
  | scan engine scanner seconds =>
    have hscan : scanner.run home seconds w.machine.disk (w.signals engine) =
        scanner.run home seconds w'.machine.disk (w'.signals engine) := by
      rw [← h.signals]
      exact Scanner.run_congr h.machine.disk home seconds houtside (w.signals engine)
    have hreport := congrArg (fun (scanned : ScanResult × Scanner × Signals) =>
      Report.scanned scanned.1 scanned.2.1.phase) hscan
    have hsignals := congrArg₂ (fun signals (scanned : ScanResult × Scanner × Signals) =>
      Function.update signals engine scanned.2.2) h.signals hscan
    exact ⟨hreport, h.machine, h.store, h.inventory, hsignals⟩
  | list =>
    have hscan : w.inventory.scan w.machine.disk = w'.inventory.scan w'.machine.disk := by
      rw [← h.inventory]
      exact Inventory.scan_congr h.machine.disk houtside hshown
    have hreport := congrArg (fun (listed : Except AppError Nat × Inventory) =>
      Report.listed listed.1) hscan
    exact ⟨hreport, h.machine, h.store, congrArg Prod.snd hscan, h.signals⟩
  | clean engine cleaner =>
    obtain ⟨hcleaning, hs⟩ := Cleaner.runOn_resembles (h.station engine) houtside halike
    exact ⟨congrArg Report.cleaned hcleaning, h.withStation hs engine⟩
  | uninstall engine remover app =>
    obtain ⟨hresult, hs⟩ := Remover.run_resembles (hblind engine remover app rfl)
      (h.removing engine) houtside hshown
    exact ⟨congrArg₂ Report.uninstalled hresult hs.handed, h.withRemoving hs engine⟩
  | maintain engine elevator steps =>
    obtain ⟨hreport, hs⟩ := Maintenance.run_resembles (h.station engine) halike
    exact ⟨congrArg Report.maintained hreport, h.withStation hs engine⟩
  | set number =>
    have hs := Station.setCredential_resembles (h.station 0) (secrets number) (secrets' number)
      houtside
    exact ⟨rfl, hs.machine, hs.store, h.inventory, h.signals⟩
  | clear =>
    have hs := Station.clearCredential_resembles (h.station 0)
    exact ⟨rfl, hs.machine, hs.store, h.inventory, h.signals⟩

/-! ### All operations -/

theorem runs_prefix_performAll (home : Option Path) (secrets : Nat → Credential) (w : Session)
    (ops : List Operation) : w.machine.runs <+: (performAll home secrets w ops).2.machine.runs := by
  induction ops generalizing w with
  | nil => exact List.prefix_refl _
  | cons op ops ih => exact (runs_prefix_perform home secrets w op).trans (ih _)

/-- Two runs of a session from a beginning that differs in nothing but secrets: every operation
reports the same, and nothing differs in the end but secrets. -/
theorem performAll_resembles (h : w.Resembles keys w')
    (hblind : ∀ engine remover app, .uninstall engine remover app ∈ ops →
      remover.trash.IsBlind keys)
    (houtside : w.Throughout home secrets (StaysOutside keys) ops)
    (hshown : w.Throughout home secrets (ReadsShown keys) ops)
    (halike : (performAll home secrets w ops).2.machine.AnsweredAlike
      (performAll home secrets' w' ops).2.machine) :
    (performAll home secrets w ops).1 = (performAll home secrets' w' ops).1 ∧
      (performAll home secrets w ops).2.Resembles keys (performAll home secrets' w' ops).2 := by
  induction ops generalizing w w' with
  | nil => exact ⟨rfl, h⟩
  | cons op ops ih =>
    obtain ⟨houtside, hrest⟩ := houtside
    obtain ⟨hshown, hrest'⟩ := hshown
    have hfirst := halike.of_prefix_runs
      (runs_prefix_performAll home secrets (perform home secrets w op).2 ops)
      (runs_prefix_performAll home secrets' (perform home secrets' w' op).2 ops)
    obtain ⟨hreport, hnext⟩ := perform_resembles h
      (fun engine remover app hop => hblind engine remover app (hop ▸ List.mem_cons_self))
      houtside hshown hfirst
    obtain ⟨hreports, hlast⟩ := ih hnext
      (fun engine remover app hop => hblind engine remover app (List.mem_cons_of_mem op hop))
      hrest hrest' halike
    exact ⟨congrArg₂ List.cons hreport hreports, hlast⟩

/-- **The secret is told to nobody but the helper.** A session begins anywhere and is run twice,
with any secrets in place of others wherever one is supplied, and the programs give the same answers
both times.  The trash looks at no hidden contents but those that it is handed.  The secret is
written to hidden files only, no tree that is scanned, swept or uninstalled holds one of them, and
no descriptor of an application that is listed or uninstalled leads to one.

Then all reports are the same, and so are all published values, the list of applications, whether
there is a secret and whether one is asked for, and what is shown of the secret, of the store and of
any rule for administrator rights.  The calls are the same with the same arguments, and they read
the same unless they are calls of the helper, which reads the secret.  The files are the same but
for the contents of the hidden ones. -/
theorem performAll_tells_nothing (home : Option Path) (keys : Place → Bool) (w : Session)
    (secrets secrets' : Nat → Credential) (ops : List Operation)
    (hblind : ∀ engine remover app, .uninstall engine remover app ∈ ops →
      remover.trash.IsBlind keys)
    (houtside : w.Throughout home secrets (StaysOutside keys) ops)
    (hshown : w.Throughout home secrets (ReadsShown keys) ops)
    (halike : (performAll home secrets w ops).2.machine.AnsweredAlike
      (performAll home secrets' w ops).2.machine) :
    let after := (performAll home secrets w ops).2
    let after' := (performAll home secrets' w ops).2
    (performAll home secrets w ops).1 = (performAll home secrets' w ops).1 ∧
      after.signals = after'.signals ∧ after.inventory = after'.inventory ∧
      (after.store.cached.isSome = after'.store.cached.isSome ∧
        after.store.requested = after'.store.requested) ∧
      (after.store.cached.map Credential.description =
          after'.store.cached.map Credential.description ∧
        after.store.description = after'.store.description ∧
        ∀ e : Elevator, e.description after.store = e.description after'.store) ∧
      (after.machine.runs.map fun r => (r.call.program, r.call.arguments)) =
        (after'.machine.runs.map fun r => (r.call.program, r.call.arguments)) ∧
      List.Forall₂ (fun r r' => r.call.SameButSecret r'.call)
        after.machine.runs after'.machine.runs ∧
      after.machine.disk.hide keys = after'.machine.disk.hide keys := by
  have hstart : w.Resembles keys w := .refl w
  obtain ⟨hreports, hafter⟩ := performAll_resembles hstart hblind houtside hshown halike
  have hcalls := hafter.machine.runs.imp fun r r' hr => hr.call
  exact ⟨hreports, hafter.signals, hafter.inventory,
    ⟨hafter.store.cached, hafter.store.requested⟩, hafter.store.description_eq,
    hafter.machine.map_call_eq, hcalls, hafter.machine.disk⟩

/-- An application beside the file of the secret and a folder that may be emptied, and programs that
always succeed. -/
def housekeeping : Session where
  machine :=
    { disk := ⟨.folder [("A.app", .folder []),
        ("junk", .folder [("old", .file 0o644 (.bytes "x".toUTF8))])]⟩
      programs := fun _ _ _ => .ok {} }
  store := { path := ⟨"/key"⟩ }
  inventory := { dir := ⟨"/"⟩ }

/-- The catalog of the folder that may be emptied. -/
def junk : Catalog :=
  { user := [⟨⟨"/junk"⟩, .user⟩] }

/-- Everything that can be done in a session, each once. -/
def chores : List Operation :=
  [.set 0, .scan 0 (.ofCatalog junk 1) (.ofNat 0), .list, .clean 1 ⟨junk, {}⟩,
    .maintain 2 {} [⟨"Purging...", .elevated "purge", false⟩],
    .uninstall 3 ⟨⟨"/Library"⟩, Trash.ofUser (some ⟨"/home"⟩)⟩
      ⟨⟨1⟩, "A", ⟨"/A.app"⟩, none, "", none⟩,
    .clear]

theorem performAll_tells_nothing_housekeeping :
    (∀ engine remover app, .uninstall engine remover app ∈ chores →
      remover.trash.IsBlind (onlyAt ["key"])) ∧
    housekeeping.Throughout none (fun _ => ⟨"hunter2"⟩) (StaysOutside (onlyAt ["key"])) chores ∧
    housekeeping.Throughout none (fun _ => ⟨"hunter2"⟩) (ReadsShown (onlyAt ["key"])) chores ∧
    (performAll none (fun _ => ⟨"hunter2"⟩) housekeeping chores).2.machine.AnsweredAlike
      (performAll none (fun _ => ⟨"swordfish"⟩) housekeeping chores).2.machine ∧
    (performAll none (fun _ => ⟨"hunter2"⟩) housekeeping chores).1 =
      (performAll none (fun _ => ⟨"swordfish"⟩) housekeeping chores).1 := by
  have hblind : ∀ engine remover app, .uninstall engine remover app ∈ chores →
      remover.trash.IsBlind (onlyAt ["key"]) := by
    intro engine remover app hmem
    simp only [chores, List.mem_cons, reduceCtorEq, Operation.uninstall.injEq, List.not_mem_nil,
      false_or, or_false] at hmem
    obtain ⟨-, rfl, -⟩ := hmem
    exact Trash.isBlind_ofUser _ _
  have houtside : housekeeping.Throughout none (fun _ => ⟨"hunter2"⟩)
      (StaysOutside (onlyAt ["key"])) chores := by decide +kernel
  have hshown : housekeeping.Throughout none (fun _ => ⟨"hunter2"⟩)
      (ReadsShown (onlyAt ["key"])) chores := by decide +kernel
  have halike : (performAll none (fun _ => ⟨"hunter2"⟩) housekeeping chores).2.machine.AnsweredAlike
      (performAll none (fun _ => ⟨"swordfish"⟩) housekeeping chores).2.machine := by decide +kernel
  exact ⟨hblind, houtside, hshown, halike,
    (performAll_tells_nothing none (onlyAt ["key"]) housekeeping (fun _ => ⟨"hunter2"⟩)
      (fun _ => ⟨"swordfish"⟩) chores hblind houtside hshown halike).1⟩

/-! ### A descriptor that leads to the secret -/

/-- The identifier that an uninstall reports. -/
def Report.identifier? : Report → Option String
  | .uninstalled (.ok report) _ => report.identifier
  | _ => none

/-- An uninstall reports the identifier that is read when it begins. -/
theorem identifier?_uninstalled {engine : Nat} {remover : Remover} {app record : AppRecord}
    (h : Remover.verified app (w.removing engine) = .ok record)
    (hrunning : w.inventory.running = true) :
    (perform home secrets w (.uninstall engine remover app)).1.identifier? =
      Bundle.identifier? record.path w.machine.disk := by
  have hplan : remover.plan app (w.removing engine) =
      .ok (RemovalPlan.of remover.library record w.machine.disk) :=
    Remover.plan_eq_ok_iff.mpr ⟨record, h, rfl, rfl⟩
  obtain ⟨hreport, -⟩ := Remover.handAll_eq home remover record
    (RemovalPlan.of remover.library record w.machine.disk) (w.removing engine)
  have hidentifier := congrArg Uninstall.identifier hreport
  have hruns := Remover.runs_run home remover Plist.read? app (w.removing engine)
  simp only [perform]
  generalize remover.run home app (w.removing engine) = outcome at hruns ⊢
  cases hruns with
  | refused hunfound => cases h.symm.trans hunfound
  | lost hfound hlost => cases hlost
  | stopped hfound hp hremoved hstopped => cases hrunning.symm.trans hstopped
  | withdrawn hfound hp =>
    cases h.symm.trans hfound
    cases hplan.symm.trans hp
    exact hidentifier
  | kept hfound hp =>
    cases h.symm.trans hfound
    cases hplan.symm.trans hp
    exact hidentifier

/-- An application whose descriptor is a link to the file of the secret, which lies beside it. -/
def borrower : AppRecord :=
  ⟨⟨1⟩, "A", ⟨"/A.app"⟩, none, "", some 0⟩

/-- The application is listed, and there is no secret yet. -/
def borrowing : Session where
  machine := { disk := ⟨.folder [("A.app", .folder [("Contents",
    .folder [("Info.plist", .link "/key")])])]⟩ }
  store := { path := ⟨"/key"⟩ }
  inventory := { dir := ⟨"/"⟩, owner := ⟨[borrower], ⟨[borrower], 1⟩⟩, nextId := 2 }

/-- A secret is supplied, and the application is uninstalled. -/
def borrowingOps : List Operation :=
  [.set 0, .uninstall 0 ⟨⟨"/Library"⟩, Trash.ofUser (some ⟨"/home"⟩)⟩ borrower]

/-- A secret that reads like a descriptor. -/
def marker (_ : Nat) : Credential :=
  ⟨"<key>CFBundleIdentifier</key><string>a</string>"⟩

/-- A secret that does not. -/
def plain (_ : Nat) : Credential :=
  ⟨"pw"⟩

/-- **A descriptor can tell the secret.** The file of the secret lies outside of the bundle, and no
program is called; but the descriptor of the bundle is a link to that file.  A secret that reads
like a descriptor gives the application another identifier than one that does not, and the uninstall
reports it. -/
theorem performAll_tells_borrowing :
    (∀ engine remover app, .uninstall engine remover app ∈ borrowingOps →
      remover.trash.IsBlind (onlyAt ["key"])) ∧
    borrowing.Throughout none marker (StaysOutside (onlyAt ["key"])) borrowingOps ∧
    (performAll none marker borrowing borrowingOps).2.machine.AnsweredAlike
      (performAll none plain borrowing borrowingOps).2.machine ∧
    (performAll none marker borrowing borrowingOps).1 ≠
      (performAll none plain borrowing borrowingOps).1 := by
  refine ⟨?_, by decide +kernel, ?_, ?_⟩
  · intro engine remover app hmem
    simp only [borrowingOps, List.mem_cons, reduceCtorEq, Operation.uninstall.injEq,
      List.not_mem_nil, false_or, or_false] at hmem
    obtain ⟨-, rfl, -⟩ := hmem
    exact Trash.isBlind_ofUser _ _
  · have hruns : (performAll none marker borrowing borrowingOps).2.machine.runs = [] := by
      simp only [borrowingOps, performAll, perform, withRemoving]
      rfl
    intro i r r' hr
    simp [hruns] at hr
  · intro hsame
    have htold : ∀ secrets : Nat → Credential,
        Remover.verified borrower ((perform none secrets borrowing (.set 0)).2.removing 0) =
          .ok borrower →
        (performAll none secrets borrowing borrowingOps).1.map Report.identifier? =
          [none, Bundle.identifier? borrower.path
            (perform none secrets borrowing (.set 0)).2.machine.disk] := by
      intro secrets hverified
      simp only [borrowingOps, performAll, List.map_cons, List.map_nil,
        identifier?_uninstalled hverified rfl]
      rfl
    have hmarker : Bundle.identifier? borrower.path
        (perform none marker borrowing (.set 0)).2.machine.disk = some "a" := by decide +kernel
    have hplain : Bundle.identifier? borrower.path
        (perform none plain borrowing (.set 0)).2.machine.disk = none := by decide +kernel
    have hreports := congrArg (List.map Report.identifier?) hsame
    rw [htold marker (by decide +kernel), htold plain (by decide +kernel), hmarker, hplain]
      at hreports
    simp at hreports

end Session

end Reclaim
