import Reclaim.Proofs.App.Bookkeeping
import Reclaim.Proofs.App.Filling
import Reclaim.Proofs.Walk.Totals

/-!
# The bytes that an uninstall frees

The bytes of a plan come from two measurements.  A leftover is measured when the plan is made, as
the entry that it is.  The bundle was measured when it was scanned, and that measurement follows a
link: for a bundle that is a link to a folder it gives what is in the folder, which stays, while
only the link goes.  For all other entries both measurements agree, and give the bytes that the
entry occupies, as far as paths reach them.

## Main definitions

* `Disk.occupied`, `Disk.counted` : the bytes that an entry occupies, and those of them that paths
  reach.
* `Disk.InReach` : paths reach everything.
* `Disk.isLink` : a path that is itself a link.
* `Inventory.ScannedFrom` : the inventories that scans and removals lead to on a disk.

## Main results

* `Disk.wrap_entrySize`, `Disk.wrap_folderSize_of_not_isLink`, `Disk.folderSize_of_isLink` : the two
  measurements.
* `Disk.counted_eq_occupied` : what is counted if paths reach everything.
* `Inventory.ScannedFrom.sizeBytes_eq` : what is known of the size of a scanned application.
* `Remover.run_frees` : the bytes of a plan and of an uninstall that succeeds.
-/

namespace Reclaim

open Node

namespace Disk

variable {d : Disk} {p : Path} {node : Node}

/-! ### Two measurements -/

/-- The bytes that an entry occupies: the length of a file or of the text of a link, and for a
folder the lengths of all files in it. -/
def occupied (d : Disk) (p : Path) : Nat :=
  match d.status false p with
  | .ok (.file _ content) => content.size
  | .ok (.link target) => target.utf8ByteSize
  | .ok (.folder entries) => (Node.folder entries).fileBytes
  | .error _ => 0

/-- The bytes that an entry occupies, as far as paths reach the files in it. -/
def counted (d : Disk) (p : Path) : Nat :=
  match d.status false p with
  | .ok node => (node.within p).fileBytes + linkBytes node
  | .error _ => 0

/-- The path is itself a link. -/
def isLink (d : Disk) (p : Path) : Bool :=
  match d.status false p with
  | .ok (.link _) => true
  | _ => false

/-- No path below the entry is too long. -/
def InReach (d : Disk) (p : Path) : Prop :=
  ∀ node, d.status false p = .ok node →
    ∀ place, node.at? place ≠ none → (p.descend place).isTooLong = false

/-- What is found at a path is at the place that the path leads to. -/
theorem exists_leads_of_status {follow : Bool} (h : d.status follow p = .ok node) :
    ∃ seen place, d.Leads follow p seen place ∧ d.top.at? place = some node := by
  rw [status] at h
  cases hlocate : d.locate follow p with
  | error e =>
    rw [hlocate] at h
    cases h
  | ok found =>
    obtain ⟨place, found⟩ := found
    rw [hlocate] at h
    cases h
    obtain ⟨⟨seen, hleads⟩, hat⟩ := locate_eq_ok_iff.mp hlocate
    exact ⟨seen, place, hleads, hat⟩

/-- If paths reach everything in an entry, all is counted that it occupies. -/
theorem counted_eq_occupied (hsound : d.top.Sound) (h : d.InReach p) :
    d.counted p = d.occupied p := by
  rw [counted, occupied]
  cases hstatus : d.status false p with
  | error e => rfl
  | ok node =>
    obtain ⟨seen, place, -, hat⟩ := exists_leads_of_status hstatus
    have hall := within_eq_self (hsound.at? hat) (h node hstatus)
    simp only
    rw [hall]
    cases node with
    | folder entries => rfl
    | file mode content => rfl
    | link target => exact Nat.zero_add _

/-- Of a link its text is counted, which is what it occupies. -/
theorem counted_of_isLink (h : d.isLink p = true) : d.counted p = d.occupied p := by
  rw [isLink] at h
  rw [counted, occupied]
  split at h
  next target hstatus =>
    rw [hstatus]
    exact Nat.zero_add _
  next => cases h

/-- An entry is measured as what is counted of it. -/
theorem wrap_entrySize (d : Disk) (p : Path) :
    Bytes.wrap (d.entrySize p) = Bytes.wrap (d.counted p) := by
  cases h : d.status false p with
  | error e => simp [entrySize, counted, h]
  | ok node =>
    obtain ⟨seen, place, hleads, hat⟩ := exists_leads_of_status h
    rw [hleads.wrap_entrySize hat, counted, h]

/-- So is a directory, unless it is a link. -/
theorem wrap_folderSize_of_not_isLink (h : d.isLink p = false) :
    Bytes.wrap (d.folderSize p) = Bytes.wrap (d.counted p) := by
  rw [isLink] at h
  cases hstatus : d.status false p with
  | error e => simp [folderSize, walkStart, counted, hstatus, bind, Except.bind]
  | ok node =>
    cases node with
    | folder | file =>
      rw [folderSize_eq (walkStart_of_status hstatus (by simp)), counted, hstatus, Bytes.wrap_wrap]
      rfl
    | link => rw [hstatus] at h; cases h

/-- Of a link the folder is measured that it leads to, if it leads to one. -/
theorem folderSize_of_isLink (h : d.isLink p = true) :
    d.folderSize p = Bytes.wrap (d.inFolder Node.fileBytes p) := by
  obtain ⟨target, hlink⟩ : ∃ target, d.status false p = .ok (.link target) := by
    rw [isLink] at h
    split at h
    next target hlink => exact ⟨target, hlink⟩
    next => cases h
  have hstart := walkStart_link hlink
  rw [inFolder, folderAt?]
  cases hlocate : d.locate true p with
  | error e =>
    have hstatus : d.status true p = .error e := by rw [status, hlocate]; rfl
    rw [hstatus] at hstart
    rw [folderSize, hstart]
    rfl
  | ok found =>
    obtain ⟨place, node⟩ := found
    have hstatus : d.status true p = .ok node := by rw [status, hlocate]; rfl
    rw [hstatus] at hstart
    rw [folderSize_eq hstart]
    cases node <;> rfl

end Disk

/-! ### Scanned applications -/

/-- An inventory that scans and removals have led to while the disk has stayed as it is.  Its owner
may have stopped. -/
inductive Inventory.ScannedFrom (d : Disk) : Inventory → Prop
  | made (dir : Path) : ScannedFrom d { dir }
  | scan {v : Inventory} (h : ScannedFrom d v) : ScannedFrom d (v.scan d).2
  | remove {v : Inventory} (h : ScannedFrom d v) (id : AppId) : ScannedFrom d (v.remove id).2
  | stop {v : Inventory} (h : ScannedFrom d v) : ScannedFrom d { v with running := false }

namespace Inventory

variable {v : Inventory} {d : Disk} {R : List AppRecord} {r : AppRecord}

/-- A list whose applications are measured one after the other. -/
theorem records_receiveAll_measure (owner : AppOwner) (honce : (R.map AppRecord.id).Nodup) :
    ((owner.publish R).receiveAll (R.map (measure d))).records = R.map (AppRecord.measured d) := by
  have hkept : ((owner.publish R).records.filter fun r => .remove r.id ∉ R.map (measure d)) = R :=
    List.filter_eq_self.mpr fun r _ => by simp [measure]
  rw [AppOwner.records_receiveAll honce populate_notMem_measure, hkept]
  exact List.map_congr_left fun r hr =>
    AppRecord.absorbAll_eq_fillRecord (nodup_filledIds_measure honce) (List.mem_map_of_mem hr)

/-- What is seen is the list, and its applications have been measured on the disk. -/
theorem ScannedFrom.measured (h : ScannedFrom d v) : v.apps.value = v.owner.records ∧
    ∀ r ∈ v.owner.records, r.sizeBytes = some (d.folderSize r.path) := by
  induction h with
  | made dir => exact ⟨rfl, fun r hr => absurd hr List.not_mem_nil⟩
  | @scan v h ih =>
    by_cases hempty : v.apps.value = []
    · have hrecords : v.owner.records = [] := ih.1.symm.trans hempty
      cases hlist : AppRecord.listFolder v.nextId v.dir d with
      | error e =>
        rw [scan_of_error hempty hlist]
        exact ih
      | ok R =>
        cases hrunning : v.running with
        | false =>
          rw [scan_of_stopped hrunning hempty hlist]
          exact ih
        | true =>
          rw [scan_of_ok hrunning hempty hrecords hlist]
          refine ⟨AppOwner.published_receiveAll rfl _, fun r hr => ?_⟩
          rw [records_receiveAll_measure _ (AppRecord.nodup_listFolder hlist)] at hr
          obtain ⟨r', -, rfl⟩ := List.mem_map.mp hr
          rfl
    · rw [scan_of_ne_nil hempty]
      exact ih
  | @remove v h id ih =>
    cases hrunning : v.running with
    | false =>
      rw [remove_of_stopped hrunning]
      exact ih
    | true =>
      rw [remove_snd hrunning]
      refine ⟨AppOwner.published_receive ih.1 _, fun r hr => ?_⟩
      rw [AppOwner.receive] at hr
      split at hr
      · exact ih.2 r (List.mem_of_mem_eraseP hr)
      · exact ih.2 r hr
  | stop h ih => exact ih

/-- A listed application has the size that its bundle has. -/
theorem ScannedFrom.sizeBytes_eq (h : ScannedFrom d v) {id : AppId} (hr : v.get? id = some r) :
    r.sizeBytes = some (d.folderSize r.path) := by
  obtain ⟨hseen, hmeasured⟩ := h.measured
  rw [get?, AppList.find?, hseen] at hr
  exact hmeasured r (List.mem_of_find?_eq_some hr)

end Inventory

/-! ### Plans and uninstalls -/

namespace TrashCall

theorem succeeded_of_error?_eq_none {c : TrashCall} (h : c.error? = none) :
    c.succeeded = true := by
  rw [error?] at h
  rw [succeeded]
  split at h
  next => rfl
  next => cases h

end TrashCall

/-- The bytes of a plan against what is counted of its items: for the bundle the plan has what was
measured when it was scanned. -/
theorem RemovalPlan.totalBytes_of (library : Path) {record : AppRecord} {d : Disk}
    (read : Plist.Reader) (hsize : record.sizeBytes = some (d.folderSize record.path)) :
    let p := RemovalPlan.of library record d read
    ∃ others, (p.targets.map fun t => d.counted t.path).sum = others + d.counted record.path ∧
      p.totalBytes = Bytes.wrap (others + d.folderSize record.path) := by
  intro p
  have htargets : p.targets = _ := RemovalPlan.targets_of library record d read
  set leftovers := (Bundle.identifier? record.path d read).toList.flatMap fun identifier =>
    (ResidualKind.all.filter fun kind => d.hasEntry (Residual.of library identifier kind).path).map
      (RemovalTarget.ofResidual library identifier d)
  have hleftovers : Bytes.wrap (leftovers.map RemovalTarget.sizeBytes).sum =
      Bytes.wrap (leftovers.map fun t => d.counted t.path).sum := by
    refine Bytes.wrap_sum_congr fun t ht => ?_
    obtain ⟨identifier, -, ht⟩ := List.mem_flatMap.mp ht
    obtain ⟨kind, -, rfl⟩ := List.mem_map.mp ht
    exact d.wrap_entrySize _
  have hbundle : (RemovalTarget.ofBundle record d).sizeBytes = d.folderSize record.path := by
    rw [RemovalTarget.ofBundle, hsize, Option.getD_some]
  refine ⟨(leftovers.map fun t => d.counted t.path).sum, ?_, ?_⟩
  · rw [htargets, List.map_append, List.sum_append]
    rfl
  · rw [totalBytes, Bytes.sum_eq, htargets, List.map_append, List.sum_append, List.map_singleton,
      List.sum_singleton, hbundle, ← Bytes.wrap_wrap_add, hleftovers, Bytes.wrap_wrap_add]

namespace Remover

/-- The bytes of a plan, and what its items occupy. -/
structure Weighs (d : Disk) (record : AppRecord) (p : RemovalPlan) : Prop where
  /-- If the bundle is no link, what is counted of all items. -/
  plain : d.isLink record.path = false →
    p.totalBytes = Bytes.wrap (p.targets.map fun t => d.counted t.path).sum
  /-- If it is one, what is in the folder that it leads to in the place of the link. -/
  linked : d.isLink record.path = true → Bytes.wrap (p.totalBytes + d.occupied record.path) =
    Bytes.wrap ((p.targets.map fun t => d.counted t.path).sum +
      d.inFolder Node.fileBytes record.path)
  /-- If paths reach everything in the items and a count can hold it, the bytes are what the items
  occupy, except that a link as bundle has to be as long as what is behind it. -/
  exact : (∀ t ∈ p.targets, d.InReach t.path) →
    (p.targets.map fun t => d.occupied t.path).sum +
      (if d.isLink record.path then d.inFolder Node.fileBytes record.path else 0) < Bytes.limit →
    (d.isLink record.path = true → p.totalBytes + d.occupied record.path =
      (p.targets.map fun t => d.occupied t.path).sum + d.inFolder Node.fileBytes record.path) ∧
    (p.totalBytes = (p.targets.map fun t => d.occupied t.path).sum ↔
      (d.isLink record.path = true →
        d.inFolder Node.fileBytes record.path = d.occupied record.path))

theorem weighs_of (library : Path) {record : AppRecord} {d : Disk} (read : Plist.Reader)
    (hsound : d.top.Sound) (hsize : record.sizeBytes = some (d.folderSize record.path)) :
    Weighs d record (RemovalPlan.of library record d read) := by
  obtain ⟨others, hcounted, htotal⟩ := RemovalPlan.totalBytes_of library read hsize
  have hplain (hlink : d.isLink record.path = false) :
      (RemovalPlan.of library record d read).totalBytes =
        Bytes.wrap (others + d.counted record.path) := by
    rw [htotal, ← Bytes.wrap_add_wrap, Disk.wrap_folderSize_of_not_isLink hlink,
      Bytes.wrap_add_wrap]
  have hlinked (hlink : d.isLink record.path = true) :
      (RemovalPlan.of library record d read).totalBytes =
        Bytes.wrap (others + d.inFolder Node.fileBytes record.path) := by
    rw [htotal, Disk.folderSize_of_isLink hlink, Bytes.wrap_add_wrap]
  refine ⟨fun hlink => by rw [hplain hlink, hcounted], fun hlink => ?_, fun hreach hsmall => ?_⟩
  · rw [hlinked hlink, hcounted, Disk.counted_of_isLink hlink, Bytes.wrap_wrap_add,
      Nat.add_right_comm]
  · have hoccupied : ((RemovalPlan.of library record d read).targets.map
        fun t => d.occupied t.path).sum = others + d.counted record.path := by
      rw [← hcounted]
      exact congrArg List.sum (List.map_congr_left fun t ht =>
        (Disk.counted_eq_occupied hsound (hreach t ht)).symm)
    rw [hoccupied] at hsmall ⊢
    cases hlink : d.isLink record.path with
    | false =>
      rw [hlink, if_neg Bool.false_ne_true] at hsmall
      have hsame := (hplain hlink).trans (Bytes.wrap_of_lt (by omega))
      exact ⟨fun h => absurd h Bool.false_ne_true,
        iff_of_true hsame fun h => absurd h Bool.false_ne_true⟩
    | true =>
      rw [Disk.counted_of_isLink hlink, hlink, if_pos rfl] at hsmall
      have hsame := (hlinked hlink).trans (Bytes.wrap_of_lt (by omega))
      rw [Disk.counted_of_isLink hlink, hsame]
      refine ⟨fun _ => by omega, ?_⟩
      simp only [forall_const]
      omega

/-- **The bytes that an uninstall frees.** An inventory has come about by scans and removals, and
the disk is still as it was.  Then the plan for a listed application whose bundle is there has as
its bytes what its items occupy, as far as paths reach it, if the bundle is no link.  If it is one,
the plan has what is in the folder that the link leads to in the place of the link, so its bytes are
those that its items occupy only if the text of the link is just as long.  An uninstall in which
nothing fails takes away every item of the plan and reports the bytes of the plan. -/
theorem run_frees (home : Option Path) (e : Remover) (read : Plist.Reader) {app record : AppRecord}
    {s : Removing} (hsound : s.disk.top.Sound) (hscanned : s.inventory.ScannedFrom s.disk)
    (hlisted : s.inventory.get? app.id = some record)
    (hthere : s.disk.hasEntry record.path = true) :
    (∀ p, plan e app s read = .ok p → Weighs s.disk record p ∧
      ∀ report, (run home e app s read).1 = .ok report → report.errors = [] →
        report.trashed = p.targets.map RemovalTarget.path ∧ report.bytesFreed = p.totalBytes) ∧
    (s.lostPlan = none → ∃ p, plan e app s read = .ok p) ∧
    (s.lostPlan = none → s.inventory.running = true →
      ∃ report, (run home e app s read).1 = .ok report) := by
  have hverified : verified app s = .ok record := by simp only [verified, hlisted, hthere, if_true]
  have hseen := hscanned.measured.1
  have hplans (hlost : s.lostPlan = none) :
      plan e app s read = .ok (RemovalPlan.of e.library record s.disk read) :=
    plan_eq_ok_iff.mpr ⟨record, hverified, hlost, rfl⟩
  refine ⟨fun p hplan => ⟨?_, fun report hreport hnone => ?_⟩, fun hlost => ⟨_, hplans hlost⟩,
    fun hlost hrunning => ?_⟩
  · obtain ⟨record', hverified', -, rfl⟩ := plan_eq_ok_iff.mp hplan
    cases hverified.symm.trans hverified'
    exact weighs_of e.library read hsound (hscanned.sizeBytes_eq hlisted)
  · let calls := e.calls p.targets s.disk
    have htargets : calls.map TrashCall.target = p.targets := map_target_calls e p.targets s.disk
    obtain ⟨-, hends⟩ := run_of_plan home e read hverified hseen hplan
    have hreport' := hends.eq_of_ok hreport
    have hbooks : report.Books record p calls :=
      hreport' ▸ Uninstall.books_after record p htargets
    have hall : calls.filter TrashCall.succeeded = calls := by
      refine List.filter_eq_self.mpr fun c hc => TrashCall.succeeded_of_error?_eq_none ?_
      exact List.filterMap_eq_nil_iff.mp (hbooks.errors.symm.trans hnone) c hc
    refine ⟨?_, hbooks.total hall⟩
    rw [hbooks.trashed, hall, ← htargets, List.map_map]
    rfl
  · obtain ⟨-, hends⟩ := run_of_plan home e read hverified hseen (hplans hlost)
    exact hends.exists_ok hrunning

/-- A directory of applications with one that is a link to a bundle elsewhere. -/
def linkedBundle : Disk :=
  ⟨.folder [("A", .folder [("b.app", .link "/E/b.app")]),
    ("E", .folder [("b.app", .folder [("x", .file 0 (.bytes ⟨#[1, 2, 3]⟩))])])]⟩

/-- A trash that takes what it is given. -/
def willing : Remover where
  library := ⟨"/L"⟩
  trash := fun p d => (d.removeTree p).mapError (.io p)

/-- The record of the link. -/
def linkedRecord : AppRecord :=
  { id := ⟨1⟩, name := "b", path := ⟨"/A/b.app"⟩, size := "3 B", sizeBytes := some 3 }

/-- What an uninstall finds there after a scan. -/
def linkedListed : Removing where
  disk := linkedBundle
  inventory := (({ dir := ⟨"/A"⟩ } : Inventory).scan linkedBundle).2
  signals := {}

/-- An uninstall that removes a link of eight bytes and reports the three bytes behind it. -/
theorem run_frees_linkedBundle :
    linkedListed.disk.top.Sound ∧
    linkedListed.inventory.ScannedFrom linkedListed.disk ∧
    linkedListed.inventory.get? linkedRecord.id = some linkedRecord ∧
    linkedListed.disk.hasEntry linkedRecord.path = true ∧
    ∃ p report, plan willing linkedRecord linkedListed = .ok p ∧
      (willing.run none linkedRecord linkedListed).1 = .ok report ∧
      report.trashed = [⟨"/A/b.app"⟩] ∧ report.bytesFreed = 3 ∧ p.totalBytes = 3 ∧
      (p.targets.map fun t => linkedBundle.occupied t.path).sum = 8 := by
  have hsound : linkedListed.disk.top.Sound := by decide +kernel
  have hscanned : linkedListed.inventory.ScannedFrom linkedListed.disk := .scan (.made _)
  have hlisted : linkedListed.inventory.get? linkedRecord.id = some linkedRecord := by
    decide +kernel
  have hthere : linkedListed.disk.hasEntry linkedRecord.path = true := by decide +kernel
  have hlength : linkedBundle.occupied ⟨"/A/b.app"⟩ = 8 := by decide +kernel
  have hreport : (willing.run none linkedRecord linkedListed).1 =
      .ok { appName := "b", identifier := none, trashed := [⟨"/A/b.app"⟩], bytesFreed := 3,
            bundleRemoved := true } := by
    decide +kernel
  obtain ⟨hplans, hplan, -⟩ :=
    run_frees none willing Plist.read? hsound hscanned hlisted hthere
  obtain ⟨p, hp⟩ := hplan rfl
  obtain ⟨htrashed, hfreed⟩ := (hplans p hp).2 _ hreport rfl
  refine ⟨hsound, hscanned, hlisted, hthere, p, _, hp, hreport, rfl, rfl, hfreed.symm, ?_⟩
  have hpaths : (p.targets.map fun t => linkedBundle.occupied t.path) =
      (p.targets.map RemovalTarget.path).map linkedBundle.occupied := by
    rw [List.map_map]
    rfl
  rw [hpaths, ← htrashed]
  exact hlength

end Remover

end Reclaim
