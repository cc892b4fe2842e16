import Reclaim.Proofs.App.Containment
import Reclaim.Proofs.App.Ownership

/-!
# The books of an uninstall

An uninstall hands the items of a plan to the trash one after the other, and each call either takes
its item away or fails and changes nothing.  Whatever fails on the way, every item has its call, and
the report is read off the calls: what has gone with its bytes, what has failed with its message,
and whether the bundle is among what has gone.  The list of applications follows the bundle, as long
as it takes commands; if it does not, the uninstall ends there.

## Main definitions

* `TrashCall`, `Remover.calls` : the calls of the trash for some items.
* `Uninstall.after` : a report after some calls.
* `Uninstall.Books` : a report agrees with its plan and the calls of the trash.
* `Remover.Ends` : how an uninstall ends when its items have been handed over.
* `Remover.Refuses`, `Remover.LosesPlan`, `Remover.Follows` : an uninstall by what becomes of its
  plan.

## Main results

* `Remover.foldl_step` : what the calls add to report, files and signals.
* `RemovalPlan.targets_of` : the items of a plan.
* `Remover.refuses_run`, `Remover.losesPlan_run`, `Remover.exists_follows_run` : which of them
  it is.
* `Remover.run_bookkeeping` : an uninstall against its plan and its calls.
-/

namespace Reclaim

/-! ### Calls of the trash -/

/-- An item that is handed to the trash, the disk that the trash finds, and what it answers. -/
structure TrashCall where
  target : RemovalTarget
  before : Disk
  result : Except AppError Disk

namespace TrashCall

/-- The item has gone. -/
def succeeded (c : TrashCall) : Bool :=
  match c.result with
  | .ok _ => true
  | .error _ => false

/-- The message of a call that failed. -/
def error? (c : TrashCall) : Option String :=
  match c.result with
  | .ok _ => none
  | .error error => some error.message

/-- The disk after a call; one that fails changes nothing. -/
def after (c : TrashCall) : Disk :=
  match c.result with
  | .ok d => d
  | .error _ => c.before

end TrashCall

namespace Remover

/-- The calls of the trash for some items, one after the other. -/
def calls (e : Remover) : List RemovalTarget → Disk → List TrashCall
  | [], _ => []
  | target :: targets, d =>
    let call : TrashCall := ⟨target, d, e.trash target.path d⟩
    call :: e.calls targets call.after

/-- The disk after all calls. -/
def diskAfter (calls : List TrashCall) (d : Disk) : Disk :=
  (calls.getLast?.map TrashCall.after).getD d

/-- Every item has one call, in order. -/
theorem map_target_calls (e : Remover) (targets : List RemovalTarget) (d : Disk) :
    (e.calls targets d).map TrashCall.target = targets := by
  induction targets generalizing d with
  | nil => rfl
  | cons target targets ih => rw [calls, List.map_cons, ih]

theorem diskAfter_cons (call : TrashCall) (calls : List TrashCall) (d : Disk) :
    diskAfter (call :: calls) d = diskAfter calls call.after := by
  cases calls with
  | nil => rfl
  | cons next calls => simp [diskAfter, List.getLast?_cons]

end Remover

/-- A report after some more calls. -/
def Uninstall.after (report : Uninstall) (calls : List TrashCall) : Uninstall :=
  { report with
    trashed := report.trashed ++ (calls.filter TrashCall.succeeded).map fun c => c.target.path
    bytesFreed := ((calls.filter TrashCall.succeeded).map fun c => c.target.sizeBytes).foldl
      Bytes.add report.bytesFreed
    errors := report.errors ++ calls.filterMap TrashCall.error?
    bundleRemoved :=
      report.bundleRemoved || calls.any fun c => c.succeeded && c.target.kind.isNone }

namespace Remover

variable (home : Option Path) (e : Remover)

/-- What one call adds. -/
theorem step_eq (report : Uninstall) (s : Removing) (target : RemovalTarget) :
    let call : TrashCall := ⟨target, s.disk, e.trash target.path s.disk⟩
    (step home e (report, s) target).1 = report.after [call] ∧
      (step home e (report, s) target).2.disk = call.after := by
  intro call
  rw [step]
  cases hresult : e.trash target.path s.disk with
  | ok d =>
    simp [call, hresult, Uninstall.after, List.filter_cons, TrashCall.succeeded, TrashCall.error?,
      TrashCall.after]
  | error error =>
    simp [call, hresult, Uninstall.after, TrashCall.succeeded, TrashCall.error?, TrashCall.after]

theorem after_cons (report : Uninstall) (call : TrashCall) (calls : List TrashCall) :
    report.after (call :: calls) = (report.after [call]).after calls := by
  cases hsucceeded : call.succeeded <;>
    simp [Uninstall.after, hsucceeded, List.filterMap_cons, Bool.or_assoc] <;>
    cases call.error? <;> simp

/-- What the calls for some items add. -/
theorem foldl_step (targets : List RemovalTarget) (report : Uninstall) (s : Removing) :
    (targets.foldl (step home e) (report, s)).1 = report.after (e.calls targets s.disk) ∧
      (targets.foldl (step home e) (report, s)).2.disk =
        diskAfter (e.calls targets s.disk) s.disk := by
  induction targets generalizing report s with
  | nil => simp [calls, diskAfter, Uninstall.after]
  | cons target targets ih =>
    obtain ⟨hreport, hdisk⟩ := step_eq home e report s target
    obtain ⟨hreport', hdisk'⟩ := ih (step home e (report, s) target).1
      (step home e (report, s) target).2
    rw [List.foldl_cons, calls, after_cons, diskAfter_cons]
    exact ⟨by rw [hreport', hreport, hdisk], by rw [hdisk', hdisk]⟩

theorem busy_foldl_step (targets : List RemovalTarget) (state : Uninstall × Removing) :
    (targets.foldl (step home e) state).2.signals.busy = state.2.signals.busy := by
  induction targets generalizing state with
  | nil => rfl
  | cons target targets ih =>
    rw [List.foldl_cons, ih]
    simp only [step]
    split <;> rfl

/-- Report and files when all items of a plan have had their turn are those of the calls, and the
signals are busy. -/
theorem handAll_eq (record : AppRecord) (p : RemovalPlan) (s : Removing) :
    let calls := e.calls p.targets s.disk
    (handAll home e record p s).1 =
        Uninstall.after { appName := record.name, identifier := p.identifier } calls ∧
      (handAll home e record p s).2.disk = diskAfter calls s.disk ∧
      (handAll home e record p s).2.signals.busy.value = true := by
  obtain ⟨hreport, hdisk⟩ := foldl_step home e p.targets
    { appName := record.name, identifier := p.identifier } (begun record s)
  refine ⟨hreport, hdisk, ?_⟩
  rw [handAll, busy_foldl_step]
  rfl

end Remover

/-- The report of an uninstall agrees with its plan and the calls of the trash. -/
structure Uninstall.Books (report : Uninstall) (record : AppRecord) (p : RemovalPlan)
    (calls : List TrashCall) : Prop where
  name : report.appName = record.name
  identifier : report.identifier = p.identifier
  trashed : report.trashed = (calls.filter TrashCall.succeeded).map fun c => c.target.path
  errors : report.errors = calls.filterMap TrashCall.error?
  freed : report.bytesFreed =
    Bytes.sum ((calls.filter TrashCall.succeeded).map fun c => c.target.sizeBytes)
  /-- If nothing fails, the bytes are those of the plan. -/
  total : calls.filter TrashCall.succeeded = calls → report.bytesFreed = p.totalBytes
  bundle : report.bundleRemoved = true ↔ ∃ c ∈ calls, c.succeeded = true ∧ c.target.kind = none

/-- The report that the calls for the items of a plan make agrees with them. -/
theorem Uninstall.books_after (record : AppRecord) (p : RemovalPlan) {calls : List TrashCall}
    (hcalls : calls.map TrashCall.target = p.targets) :
    (Uninstall.after { appName := record.name, identifier := p.identifier } calls).Books record p
      calls where
  name := rfl
  identifier := rfl
  trashed := List.nil_append _
  errors := List.nil_append _
  freed := rfl
  total hall := by
    rw [after, hall, RemovalPlan.totalBytes, ← hcalls, List.map_map]
    rfl
  bundle := by simp [after]

/-! ### Plans -/

namespace RemovalTarget

/-- A place where an application has left something, as an item. -/
def ofResidual (library : Path) (identifier : String) (d : Disk) (kind : ResidualKind) :
    RemovalTarget :=
  let path := (Residual.of library identifier kind).path
  ⟨path, some kind, d.entrySize path⟩

/-- The bundle of an application as an item. -/
def ofBundle (record : AppRecord) (d : Disk) : RemovalTarget :=
  ⟨record.path, none, record.sizeBytes.getD (d.folderSize record.path)⟩

end RemovalTarget

theorem Bundle.isIdentifier_of_identifier? {bundle : Path} {d : Disk} {read : Plist.Reader}
    {identifier : String} (h : identifier? bundle d read = some identifier) :
    Safety.isIdentifier identifier = true :=
  (Option.filter_eq_some_iff.mp h).2

/-- The items of a plan: what is there of the leftovers, in the order of the kinds, and then the
bundle. -/
theorem RemovalPlan.targets_of (library : Path) (record : AppRecord) (d : Disk)
    (read : Plist.Reader) : (RemovalPlan.of library record d read).targets =
      ((Bundle.identifier? record.path d read).toList.flatMap fun identifier =>
        (ResidualKind.all.filter fun kind =>
          d.hasEntry (Residual.of library identifier kind).path).map
            (RemovalTarget.ofResidual library identifier d)) ++
        [RemovalTarget.ofBundle record d] := by
  rw [RemovalPlan.of]
  cases hidentifier : Bundle.identifier? record.path d read with
  | none => rfl
  | some identifier =>
    have hname := Bundle.isIdentifier_of_identifier? hidentifier
    simp only [Residual.existing, Residual.candidates_eq, hname, if_true, List.filter_map,
      List.map_map, Option.toList_some, List.flatMap_singleton]
    rfl

/-! ### The list of applications -/

/-- An application that is listed goes from the list, and all others stay. -/
theorem Inventory.remove_of_get? {v : Inventory} {id : AppId} {record : AppRecord}
    (hrunning : v.running = true) (hseen : v.apps.value = v.owner.records)
    (h : v.get? id = some record) :
    ∃ before behind, v.apps.value = before ++ record :: behind ∧
      (v.remove record.id).2 = { v with owner := v.owner.publish (before ++ behind) } := by
  rw [get?, AppList.find?, List.find?_eq_some_iff_append] at h
  obtain ⟨hid, before, behind, hrecords, hbefore⟩ := h
  have hid : record.id = id := by simpa using hid
  have hbefore : ∀ r ∈ before, ¬(r.id == record.id) = true := by simpa [hid] using hbefore
  have hfind : AppList.find? record.id v.owner.records = some record := by
    rw [← hseen, AppList.find?, List.find?_eq_some_iff_append]
    exact ⟨by simp, before, behind, hrecords, by simpa using hbefore⟩
  refine ⟨before, behind, hrecords, ?_⟩
  rw [remove_snd hrunning, AppOwner.receive, hfind]
  simp only [← hseen, hrecords, List.eraseP_append_right _ hbefore, beq_self_eq_true,
    List.eraseP_cons_of_pos]

namespace Remover

/-- An application that is not found, by the plan and by the uninstall; nothing changes. -/
structure Refuses (e : Remover) (read : Plist.Reader) (app : AppRecord) (s : Removing)
    (error : AppError) (result : Except AppError Uninstall) (after : Removing) : Prop where
  planned : plan e app s read = .error error
  reported : result = .error error
  unchanged : after = s

theorem refuses_run (home : Option Path) (e : Remover) (read : Plist.Reader)
    {app : AppRecord} {s : Removing} {error : AppError} (h : verified app s = .error error) :
    Refuses e read app s error (run home e app s read).1 (run home e app s read).2 := by
  have hrun : run home e app s read = (.error error, s) := by rw [run, h]
  exact ⟨by rw [plan, h]; rfl, congrArg Prod.fst hrun, congrArg Prod.snd hrun⟩

/-- A plan that is lost, for whoever asks and for the uninstall; nothing is handed over. -/
structure LosesPlan (e : Remover) (read : Plist.Reader) (app : AppRecord) (s : Removing)
    (text : String) (result : Except AppError Uninstall) (after : Removing) : Prop where
  planned : plan e app s read = .error (.other ("planning removal failed: " ++ text))
  reported : result = .error (.other ("planning removal failed: " ++ text))
  handed : after.handed = s.handed
  disk : after.disk = s.disk
  inventory : after.inventory = s.inventory
  idle : after.signals.busy.value = false

theorem losesPlan_run (home : Option Path) (e : Remover) (read : Plist.Reader)
    {app record : AppRecord} {s : Removing} {text : String} (h : verified app s = .ok record)
    (hlost : s.lostPlan = some text) :
    LosesPlan e read app s text (run home e app s read).1 (run home e app s read).2 := by
  have hplan : plan e app s read = .error (.other ("planning removal failed: " ++ text)) := by
    rw [plan, h]
    simp only [bind, Except.bind, hlost]
  have hruns := runs_run home e read app s
  generalize run home e app s read = outcome at hruns ⊢
  cases hruns with
  | refused hunfound => cases h.symm.trans hunfound
  | lost hfound hlost' =>
    cases hlost.symm.trans hlost'
    exact ⟨hplan, rfl, rfl, rfl, rfl, rfl⟩
  | stopped hfound hp => cases hplan.symm.trans hp
  | withdrawn hfound hp => cases hplan.symm.trans hp
  | kept hfound hp => cases hplan.symm.trans hp

/-- How an uninstall ends when its items have been handed over: the report, and whether the list of
applications has followed it. -/
structure Ends (record : AppRecord) (report : Uninstall) (s : Removing)
    (result : Except AppError Uninstall) (after : Removing) : Prop where
  /-- The bundle is still there, and so is the application in the list. -/
  kept : report.bundleRemoved = false →
    result = .ok report ∧ after.inventory = s.inventory ∧ after.signals.busy.value = false
  /-- The bundle has gone, and the application goes from the list; all else in it stays. -/
  gone : report.bundleRemoved = true → s.inventory.running = true →
    result = .ok report ∧ after.signals.busy.value = false ∧
    ∃ before behind, s.inventory.apps.value = before ++ record :: behind ∧
      after.inventory = { s.inventory with owner := s.inventory.owner.publish (before ++ behind) }
  /-- The bundle has gone, but the list takes no commands any more. -/
  stopped : report.bundleRemoved = true → s.inventory.running = false →
    result = .error (.other "app inventory is no longer running") ∧
    after.inventory = s.inventory ∧ after.signals.busy.value = true

namespace Ends

variable {record : AppRecord} {report report' : Uninstall} {s after : Removing}
  {result : Except AppError Uninstall}

/-- A report that is given is the report of the calls. -/
theorem eq_of_ok (h : Ends record report s result after) (hresult : result = .ok report') :
    report = report' := by
  cases hremoved : report.bundleRemoved with
  | false => exact Except.ok.inj ((h.kept hremoved).1.symm.trans hresult)
  | true =>
    cases hrunning : s.inventory.running with
    | true => exact Except.ok.inj ((h.gone hremoved hrunning).1.symm.trans hresult)
    | false => cases (h.stopped hremoved hrunning).1.symm.trans hresult

/-- There is a report if the list takes commands. -/
theorem exists_ok (h : Ends record report s result after) (hrunning : s.inventory.running = true) :
    ∃ report, result = .ok report := by
  cases hremoved : report.bundleRemoved with
  | false => exact ⟨report, (h.kept hremoved).1⟩
  | true => exact ⟨report, (h.gone hremoved hrunning).1⟩

end Ends

/-- An uninstall with a plan. -/
theorem run_of_plan (home : Option Path) (e : Remover) (read : Plist.Reader)
    {app record : AppRecord} {s : Removing} {p : RemovalPlan} (h : verified app s = .ok record)
    (hseen : s.inventory.apps.value = s.inventory.owner.records)
    (hplan : plan e app s read = .ok p) :
    let calls := e.calls p.targets s.disk
    let report := Uninstall.after { appName := record.name, identifier := p.identifier } calls
    let after := (run home e app s read).2
    after.disk = diskAfter calls s.disk ∧
      Ends record report s (run home e app s read).1 after := by
  intro calls report after
  obtain ⟨hreport, hdisk, hbusy⟩ := handAll_eq home e record p s
  have hinventory := inventory_handAll home e record p s
  have hlisted := (verified_eq_ok h).1
  have hsame : report = (handAll home e record p s).1 := hreport.symm
  rw [hsame]
  have hruns := runs_run home e read app s
  simp only [after]
  generalize run home e app s read = outcome at hruns ⊢
  cases hruns with
  | refused hunfound => cases h.symm.trans hunfound
  | lost hfound hlost =>
    obtain ⟨-, -, hnone, -⟩ := plan_eq_ok_iff.mp hplan
    cases hnone.symm.trans hlost
  | stopped hfound hp hremoved hstopped =>
    cases h.symm.trans hfound
    cases hplan.symm.trans hp
    refine ⟨hdisk, ?_, ?_, fun _ _ => ⟨rfl, hinventory, hbusy⟩⟩
    · exact fun hkept => absurd (hremoved.symm.trans hkept) (by simp)
    · exact fun _ hrunning => absurd (hrunning.symm.trans hstopped) (by simp)
  | withdrawn hfound hp hremoved hrunning =>
    cases h.symm.trans hfound
    cases hplan.symm.trans hp
    refine ⟨hdisk, ?_, fun _ _ => ⟨rfl, rfl, ?_⟩, ?_⟩
    · exact fun hkept => absurd (hremoved.symm.trans hkept) (by simp)
    · exact Inventory.remove_of_get? hrunning hseen hlisted
    · exact fun _ hstopped => absurd (hrunning.symm.trans hstopped) (by simp)
  | kept hfound hp hkept =>
    cases h.symm.trans hfound
    cases hplan.symm.trans hp
    refine ⟨hdisk, fun _ => ⟨rfl, hinventory, rfl⟩, ?_, ?_⟩
    · exact fun hremoved => absurd (hremoved.symm.trans hkept) (by simp)
    · exact fun hremoved => absurd (hremoved.symm.trans hkept) (by simp)

/-- An uninstall takes a plan, and a report is made that agrees with it. -/
structure Follows (e : Remover) (read : Plist.Reader) (app record : AppRecord) (s : Removing)
    (p : RemovalPlan) (report : Uninstall) (result : Except AppError Uninstall)
    (after : Removing) : Prop where
  /-- The plan is the one that is shown beforehand. -/
  planned : plan e app s read = .ok p
  identifier : p.identifier = Bundle.identifier? record.path s.disk read
  /-- The leftovers that are there in the order of their kinds, and the bundle last. -/
  targets : p.targets = (p.identifier.toList.flatMap fun identifier =>
      (ResidualKind.all.filter fun kind =>
        s.disk.hasEntry (Residual.of e.library identifier kind).path).map
          (RemovalTarget.ofResidual e.library identifier s.disk)) ++
    [RemovalTarget.ofBundle record s.disk]
  /-- Every item is handed over once, in the order of the plan. -/
  handed : after.handed.map Prod.fst = s.handed.map Prod.fst ++ p.targets.map RemovalTarget.path
  called : (e.calls p.targets s.disk).map TrashCall.target = p.targets
  books : report.Books record p (e.calls p.targets s.disk)
  disk : after.disk = diskAfter (e.calls p.targets s.disk) s.disk
  ends : Ends record report s result after

theorem exists_follows_run (home : Option Path) (e : Remover) (read : Plist.Reader)
    {app record : AppRecord} {s : Removing} (h : verified app s = .ok record)
    (hseen : s.inventory.apps.value = s.inventory.owner.records) (hlost : s.lostPlan = none) :
    ∃ p report, Follows e read app record s p report (run home e app s read).1
      (run home e app s read).2 := by
  let p := RemovalPlan.of e.library record s.disk read
  have hplan : plan e app s read = .ok p := plan_eq_ok_iff.mpr ⟨record, h, hlost, rfl⟩
  have hhanded := handed_run home e read app s
  rw [hplan] at hhanded
  have htargets := map_target_calls e p.targets s.disk
  obtain ⟨hdisk, hends⟩ := run_of_plan home e read h hseen hplan
  exact ⟨p, _, hplan, rfl, RemovalPlan.targets_of e.library record s.disk read, hhanded, htargets,
    Uninstall.books_after record p htargets, hdisk, hends⟩

/-- **The books of an uninstall.** The list of applications has come about by any commands.  Of an
application that is listed and whose bundle is there, an uninstall takes the plan that is shown
beforehand: the bundle last, and before it what is there of the leftovers, in the order of the
kinds.  Every item is handed to the trash once and in this order, whatever fails on the way, and the
report is that of the calls: the paths that have gone with their bytes, the messages of the calls
that failed, and whether the bundle has gone.  If nothing fails, the bytes are those of the plan.
The application leaves the list exactly if its bundle has gone, and all else in the list stays.
There are two other ways out.  If the plan is lost, nothing happens.  If the list takes no commands
any more when the bundle has gone, the report is lost, the application stays listed, and the signals
stay busy.  An application that is not listed, or whose bundle is not there, is not found, by the
plan and by the uninstall, and nothing changes. -/
theorem run_bookkeeping (home : Option Path) (e : Remover) (read : Plist.Reader) (app : AppRecord)
    (s : Removing) {commands : List AppCommand}
    (hlist : s.inventory.owner = ({} : AppOwner).receiveAll commands) :
    let result := (run home e app s read).1
    let after := (run home e app s read).2
    (∀ record, s.inventory.get? app.id = some record → s.disk.hasEntry record.path = true →
      (∀ text, s.lostPlan = some text → LosesPlan e read app s text result after) ∧
      (s.lostPlan = none →
        ∃ p report, Follows e read app record s p report result after)) ∧
    (s.inventory.get? app.id = none →
      Refuses e read app s (.notFound app.name app.path) result after) ∧
    (∀ record, s.inventory.get? app.id = some record → s.disk.hasEntry record.path = false →
      Refuses e read app s (.notFound record.name record.path) result after) := by
  intro result after
  have hseen : s.inventory.apps.value = s.inventory.owner.records := by
    rw [Inventory.apps, hlist]
    exact AppOwner.published_receiveAll rfl commands
  refine ⟨fun record hrecord hthere => ?_, fun hunknown => ?_, fun record hrecord hgone => ?_⟩
  · have hverified : verified app s = .ok record := by
      simp only [verified, hrecord, hthere, if_true]
    exact ⟨fun text => losesPlan_run home e read hverified,
      exists_follows_run home e read hverified hseen⟩
  · exact refuses_run home e read (by simp only [verified, hunknown])
  · exact refuses_run home e read (by simp [verified, hrecord, hgone])

/-- A bundle with a descriptor that tells its identifier, and two leftovers. -/
def twoLeftovers : Disk :=
  let descriptor := "<key>CFBundleIdentifier</key><string>x</string>"
  ⟨.folder [("a.app", .folder [("Contents", .folder [
      ("Info.plist", .file 0 (.bytes descriptor.toUTF8))])]),
    ("Library", .folder [("Caches", .folder [("x", .link "/")]),
      ("Logs", .folder [("x", .file 0 (.bytes ⟨#[1]⟩))])])]⟩

/-- A trash that cannot take one of the leftovers. -/
def reluctant : Remover where
  library := ⟨"/Library"⟩
  trash := fun p d =>
    if p = ⟨"/Library/Caches/x"⟩ then .error (.trash p "busy")
    else (d.removeTree p).mapError (.io p)

/-- The record of the bundle. -/
def leftoversRecord : AppRecord :=
  { id := ⟨1⟩, name := "a", path := ⟨"/a.app"⟩, sizeBytes := some 5 }

/-- What an uninstall finds there: the bundle is listed, and the owner of the list takes commands or
does not. -/
def leftoversListed (running : Bool) : Removing where
  disk := twoLeftovers
  inventory :=
    { dir := ⟨"/"⟩, owner := ({} : AppOwner).receiveAll [.populate [leftoversRecord]], running }
  signals := {}

/-- The uninstall of an application one of whose leftovers stays: the other goes, then the bundle.
The list is empty then, unless its owner has stopped; if it has, the application stays listed, there
is no report, and the signals stay busy. -/
theorem run_bookkeeping_reluctant :
    (∀ running, (leftoversListed running).inventory.owner =
        ({} : AppOwner).receiveAll [.populate [leftoversRecord]] ∧
      (leftoversListed running).inventory.get? leftoversRecord.id = some leftoversRecord ∧
      (leftoversListed running).disk.hasEntry leftoversRecord.path = true) ∧
    ((reluctant.run none leftoversRecord (leftoversListed true)).1 = .ok {
        appName := "a", identifier := some "x", trashed := [⟨"/Library/Logs/x"⟩, ⟨"/a.app"⟩]
        bytesFreed := 6, errors := ["Failed to trash '/Library/Caches/x': busy"]
        bundleRemoved := true } ∧
      (reluctant.run none leftoversRecord (leftoversListed true)).2.inventory.apps.value = []) ∧
    let halted := reluctant.run none leftoversRecord (leftoversListed false)
    halted.1 = .error (.other "app inventory is no longer running") ∧
      halted.2.disk.hasEntry leftoversRecord.path = false ∧
      halted.2.inventory.apps.value = [leftoversRecord] ∧ halted.2.signals.busy.value = true := by
  have hlisted (running : Bool) :
      (leftoversListed running).inventory.get? leftoversRecord.id = some leftoversRecord := by
    cases running <;> decide +kernel
  have hthere (running : Bool) :
      (leftoversListed running).disk.hasEntry leftoversRecord.path = true := by
    cases running <;> decide +kernel
  have hone (running : Bool) :
      (leftoversListed running).inventory.apps.value = [leftoversRecord] := rfl
  refine ⟨fun running => ⟨rfl, hlisted running, hthere running⟩, ?_, ?_⟩
  · have hreport : (reluctant.run none leftoversRecord (leftoversListed true)).1 = .ok {
        appName := "a", identifier := some "x", trashed := [⟨"/Library/Logs/x"⟩, ⟨"/a.app"⟩]
        bytesFreed := 6, errors := ["Failed to trash '/Library/Caches/x': busy"]
        bundleRemoved := true } := by
      decide +kernel
    obtain ⟨hknown, -⟩ :=
      run_bookkeeping none reluctant Plist.read? leftoversRecord (leftoversListed true) rfl
    obtain ⟨p, report, hfollows⟩ := (hknown leftoversRecord (hlisted true) (hthere true)).2 rfl
    have hends := hfollows.ends
    have hremoved : report.bundleRemoved = true := by
      cases hkept : report.bundleRemoved with
      | true => rfl
      | false =>
        have hresult := hreport.symm.trans (hends.kept hkept).1
        cases hresult
        cases hkept
    obtain ⟨-, -, before, behind, happs, hinventory⟩ := hends.gone hremoved rfl
    refine ⟨hreport, ?_⟩
    rw [hone, eq_comm, List.append_eq_singleton_iff] at happs
    obtain ⟨rfl, hbehind⟩ | ⟨-, hfalse⟩ := happs
    · rw [hinventory, (List.cons.inj hbehind).2]
      rfl
    · cases hfalse
  · have hresult : (reluctant.run none leftoversRecord (leftoversListed false)).1 =
        .error (.other "app inventory is no longer running") := by
      decide +kernel
    obtain ⟨hknown, -⟩ :=
      run_bookkeeping none reluctant Plist.read? leftoversRecord (leftoversListed false) rfl
    obtain ⟨p, report, hfollows⟩ := (hknown leftoversRecord (hlisted false) (hthere false)).2 rfl
    have hends := hfollows.ends
    have hremoved : report.bundleRemoved = true := by
      cases hkept : report.bundleRemoved with
      | true => rfl
      | false => cases hresult.symm.trans (hends.kept hkept).1
    obtain ⟨-, hinventory, hbusy⟩ := hends.stopped hremoved rfl
    refine ⟨hresult, by decide +kernel, ?_, hbusy⟩
    rw [hinventory]
    rfl

end Remover

end Reclaim
