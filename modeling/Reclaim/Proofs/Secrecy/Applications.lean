import Reclaim.App.TrashFolder
import Reclaim.Proofs.App.Bookkeeping
import Reclaim.Proofs.Secrecy.Trees

/-!
# Applications without hidden contents

Of an application two things are looked at: the tree of its bundle is measured, and the descriptor
is read.  The descriptor is a path like any other, and a link there leads wherever it says; so it
takes more than a bundle without hidden contents to tell nothing of them.  If the descriptor leads
to no hidden file, then the list of applications, the plan of an uninstall and the uninstall itself
are the same whatever the hidden contents are.

## Main definitions

* `Inventory.toMeasure` : the applications that are measured when they are listed.
* `Trash.IsBlind` : a trash that looks at no hidden contents but those that it is handed.
* `Remover.ShowsRemoval` : nothing is hidden of the trees that an uninstall looks at.
* `Removing.Resembles` : what two uninstalls work on is the same but for hidden contents.

## Main results

* `Bundle.identifier?_hide`, `Bundle.icon?_hide` : what a bundle says about itself.
* `Inventory.scan_congr` : the list of applications.
* `RemovalPlan.of_congr` : what would go with an application.
* `Remover.run_resembles` : two uninstalls.
* `Trash.isBlind_ofUser` : the trash of a user.
-/

namespace Reclaim

open Node (at? beneath)

variable {keys : Place → Bool} {d d' : Disk}

/-! ### What a bundle says about itself -/

namespace Bundle

variable {bundle : Path}

theorem textAt?_hide (h : d.ShowsFile keys (descriptor bundle)) (key : String) :
    textAt? bundle key (d.hide keys) = textAt? bundle key d := by
  rw [textAt?, textAt?, Disk.read_hide h]

theorem identifier?_hide (h : d.ShowsFile keys (descriptor bundle)) :
    identifier? bundle (d.hide keys) = identifier? bundle d := by
  rw [identifier?, identifier?, textAt?_hide h, scrapedAt?, scrapedAt?, Disk.read_hide h]

theorem icon?_hide (h : d.ShowsFile keys (descriptor bundle)) :
    icon? bundle (d.hide keys) = icon? bundle d := by
  have hfile : (d.hide keys).isFile = d.isFile := funext fun p => Disk.isFile_hide keys d p
  rw [icon?, icon?, textAt?_hide h, hfile]

end Bundle

/-! ### The list of applications -/

theorem AppRecord.listFolder_hide (first : Nat) (dir : Path) (keys : Place → Bool) (d : Disk) :
    listFolder first dir (d.hide keys) = listFolder first dir d := by
  obtain ⟨inside, hlist⟩ := Disk.exists_list_hide keys d dir
  rw [listFolder, listFolder, hlist]
  cases d.list dir with
  | error e => rfl
  | ok entries =>
    simp only [Except.map, Node.hideEntries_eq_map, List.map_map]
    rfl

namespace Inventory

/-- The applications that are measured when the directory is listed, if it is. -/
def toMeasure (v : Inventory) (d : Disk) : List AppRecord :=
  if v.apps.value.isEmpty then
    match AppRecord.listFolder v.nextId v.dir d with
    | .ok records => records
    | .error _ => []
  else []

theorem measure_hide {r : AppRecord} (htree : d.ShowsTree keys r.path)
    (hdescriptor : d.ShowsFile keys (Bundle.descriptor r.path)) :
    measure (d.hide keys) r = measure d r := by
  rw [measure, measure, Bundle.icon?_hide hdescriptor, Disk.folderSize_hide htree]

/-- Listing and measuring applications of which nothing is hidden. -/
theorem scan_hide {v : Inventory} (htrees : ∀ r ∈ v.toMeasure d, d.ShowsTree keys r.path)
    (hdescriptors : ∀ r ∈ v.toMeasure d, d.ShowsFile keys (Bundle.descriptor r.path)) :
    v.scan (d.hide keys) = v.scan d := by
  rw [scan, scan, AppRecord.listFolder_hide]
  split
  next hempty =>
    cases hlist : AppRecord.listFolder v.nextId v.dir d with
    | error e => rfl
    | ok records =>
      have hrecords : v.toMeasure d = records := by rw [toMeasure, if_pos hempty, hlist]
      rw [hrecords] at htrees hdescriptors
      have hmeasure : records.map (measure (d.hide keys)) = records.map (measure d) :=
        List.map_congr_left fun r hr => measure_hide (htrees r hr) (hdescriptors r hr)
      simp only [hmeasure]
  next => rfl

theorem toMeasure_congr (h : d.hide keys = d'.hide keys) (v : Inventory) :
    v.toMeasure d = v.toMeasure d' := by
  rw [toMeasure, toMeasure, ← AppRecord.listFolder_hide v.nextId v.dir keys d, h,
    AppRecord.listFolder_hide]

theorem scan_congr {v : Inventory} (h : d.hide keys = d'.hide keys)
    (htrees : ∀ r ∈ v.toMeasure d, d.ShowsTree keys r.path)
    (hdescriptors : ∀ r ∈ v.toMeasure d, d.ShowsFile keys (Bundle.descriptor r.path)) :
    v.scan d = v.scan d' := by
  rw [← scan_hide htrees hdescriptors, h]
  rw [toMeasure_congr h] at htrees hdescriptors
  exact scan_hide (fun r hr => (htrees r hr).congr h) fun r hr => (hdescriptors r hr).congr h

end Inventory

/-! ### Planning -/

theorem Residual.existing_congr (h : d.hide keys = d'.hide keys) (library : Path)
    (identifier : String) : existing library identifier d = existing library identifier d' := by
  rw [existing, existing, Disk.hasEntry_congr h]

/-- What would go with an application, if nothing of that is hidden. -/
theorem RemovalPlan.of_congr {library : Path} {record : AppRecord} (h : d.hide keys = d'.hide keys)
    (htree : d.ShowsTree keys record.path)
    (hdescriptor : d.ShowsFile keys (Bundle.descriptor record.path))
    (hplanned : ∀ target ∈ (of library record d).targets, d.ShowsEntry keys target.path) :
    of library record d = of library record d' := by
  have hidentifier : Bundle.identifier? record.path d = Bundle.identifier? record.path d' := by
    rw [← Bundle.identifier?_hide hdescriptor, h, Bundle.identifier?_hide (hdescriptor.congr h)]
  have hbundle : d.folderSize record.path = d'.folderSize record.path := by
    rw [← Disk.folderSize_hide htree, h, Disk.folderSize_hide (htree.congr h)]
  rw [of, of, ← hidentifier, ← hbundle]
  rw [of] at hplanned
  cases hsome : Bundle.identifier? record.path d with
  | none => rfl
  | some identifier =>
    rw [hsome] at hplanned
    have hsizes : ∀ r ∈ Residual.existing library identifier d,
        d.entrySize r.path = d'.entrySize r.path := by
      intro r hr
      have hentry := hplanned _ (List.mem_append_left _ (List.mem_map_of_mem hr))
      rw [← Disk.entrySize_hide hentry, h, Disk.entrySize_hide (hentry.congr h)]
    simp only [← Residual.existing_congr h]
    congr 2
    exact List.map_congr_left fun r hr => by rw [hsizes r hr]

/-! ### Uninstalling -/

/-- The trash looks at no hidden contents, as long as it is handed none. -/
def Trash.IsBlind (keys : Place → Bool) (trash : Trash) : Prop :=
  ∀ (p : Path) (d d' : Disk), d.hide keys = d'.hide keys → d.ShowsEntry keys p →
    (trash p d).map (Disk.hide keys) = (trash p d').map (Disk.hide keys)

/-- What two uninstalls work on is the same but for the contents of hidden files. -/
structure Removing.Resembles (keys : Place → Bool) (s s' : Removing) : Prop where
  disk : s.disk.hide keys = s'.disk.hide keys
  inventory : s.inventory = s'.inventory
  signals : s.signals = s'.signals
  handed : s.handed = s'.handed
  lostPlan : s.lostPlan = s'.lostPlan

namespace Remover

variable {home : Option Path} {e : Remover} {app record : AppRecord} {s s' : Removing}
  {report : Uninstall} {target : RemovalTarget} {targets : List RemovalTarget}

/-- Nothing is hidden of the trees that an uninstall looks at: of the bundle, of what would go with
it, and of each item when it is handed to the trash. -/
structure ShowsRemoval (keys : Place → Bool) (e : Remover) (record : AppRecord) (d : Disk) :
    Prop where
  bundle : d.ShowsTree keys record.path
  planned : ∀ target ∈ (RemovalPlan.of e.library record d).targets, d.ShowsEntry keys target.path
  handed : ∀ call ∈ e.calls (RemovalPlan.of e.library record d).targets d,
    call.before.ShowsEntry keys call.target.path

instance [DecidablePred (ShowsAll keys)] (e : Remover) (record : AppRecord) (d : Disk) :
    Decidable (e.ShowsRemoval keys record d) :=
  decidable_of_iff (d.ShowsTree keys record.path ∧
      (∀ target ∈ (RemovalPlan.of e.library record d).targets, d.ShowsEntry keys target.path) ∧
      ∀ call ∈ e.calls (RemovalPlan.of e.library record d).targets d,
        call.before.ShowsEntry keys call.target.path)
    ⟨fun h => ⟨h.1, h.2.1, h.2.2⟩, fun h => ⟨h.bundle, h.planned, h.handed⟩⟩

theorem verified_resembles (h : s.Resembles keys s') (app : AppRecord) :
    verified app s = verified app s' := by
  simp only [verified, h.inventory, Disk.hasEntry_congr h.disk]

/-- One item of which nothing is hidden goes in the same way. -/
theorem step_resembles (hblind : e.trash.IsBlind keys) (h : s.Resembles keys s')
    (hitem : s.disk.ShowsEntry keys target.path) (report : Uninstall) :
    (step home e (report, s) target).1 = (step home e (report, s') target).1 ∧
      (step home e (report, s) target).2.Resembles keys (step home e (report, s') target).2 := by
  simp only [step, ← h.signals, ← h.handed]
  rcases cases_of_map_eq (hblind target.path s.disk s'.disk h.disk hitem) with
    ⟨error, herror, herror'⟩ | ⟨after, after', hafter, hafter', hsame⟩
  · rw [herror, herror']
    exact ⟨rfl, h.disk, h.inventory, rfl, rfl, h.lostPlan⟩
  · rw [hafter, hafter']
    exact ⟨rfl, hsame, h.inventory, rfl, rfl, h.lostPlan⟩

/-- Items of which nothing is hidden when they are handed over go in the same way. -/
theorem foldl_step_resembles (hblind : e.trash.IsBlind keys) (h : s.Resembles keys s')
    (hitems : ∀ call ∈ e.calls targets s.disk, call.before.ShowsEntry keys call.target.path)
    (report : Uninstall) :
    (targets.foldl (step home e) (report, s)).1 = (targets.foldl (step home e) (report, s')).1 ∧
      (targets.foldl (step home e) (report, s)).2.Resembles keys
        (targets.foldl (step home e) (report, s')).2 := by
  induction targets generalizing report s s' with
  | nil => exact ⟨rfl, h⟩
  | cons target targets ih =>
    rw [calls, List.forall_mem_cons] at hitems
    obtain ⟨hitem, hitems⟩ := hitems
    obtain ⟨hreport, hstep⟩ := step_resembles hblind h hitem report
    obtain ⟨-, hdisk⟩ := step_eq home e report s target
    rw [← hdisk] at hitems
    have hrest := ih hstep hitems (step home e (report, s) target).1
    rw [List.foldl_cons, List.foldl_cons]
    rwa [← Prod.mk.eta (p := step home e (report, s') target), ← hreport]

/-- Both uninstalls end, or both are left alone by the list of applications. -/
theorem finish_resembles (h : s.Resembles keys s') (record : AppRecord) (report : Uninstall) :
    (∃ error, finish record report s = .error error ∧ finish record report s' = .error error) ∨
      ∃ t t', finish record report s = .ok t ∧ finish record report s' = .ok t' ∧
        t.Resembles keys t' := by
  rw [finish, finish, ← h.inventory, ← h.signals]
  cases report.bundleRemoved with
  | false =>
    exact .inr ⟨_, _, rfl, rfl, h.disk, rfl, rfl, h.handed, h.lostPlan⟩
  | true =>
    cases hlist : s.inventory.withdraw record.id with
    | error error => exact .inl ⟨error, rfl, rfl⟩
    | ok outcome => exact .inr ⟨_, _, rfl, rfl, h.disk, rfl, rfl, h.handed, h.lostPlan⟩

/-- Both uninstalls have the same plan, or the same reason why there is none. -/
theorem plan_resembles (h : s.Resembles keys s') (hverified : verified app s = .ok record)
    (hshows : e.ShowsRemoval keys record s.disk)
    (hdescriptor : s.disk.ShowsFile keys (Bundle.descriptor record.path)) :
    plan e app s = plan e app s' := by
  have hsame := RemovalPlan.of_congr h.disk hshows.bundle hdescriptor hshows.planned
  rw [plan, plan, ← verified_resembles h app, hverified, ← h.lostPlan]
  simp only [bind, Except.bind, hsame]

theorem begun_resembles (h : s.Resembles keys s') (record : AppRecord) :
    (begun record s).Resembles keys (begun record s') where
  disk := h.disk
  inventory := h.inventory
  signals := by rw [begun, begun, h.signals]
  handed := h.handed
  lostPlan := h.lostPlan

theorem handAll_resembles (hblind : e.trash.IsBlind keys) (h : s.Resembles keys s')
    {p : RemovalPlan}
    (hitems : ∀ call ∈ e.calls p.targets s.disk, call.before.ShowsEntry keys call.target.path)
    (home : Option Path) (record : AppRecord) :
    (handAll home e record p s).1 = (handAll home e record p s').1 ∧
      (handAll home e record p s).2.Resembles keys (handAll home e record p s').2 :=
  foldl_step_resembles hblind (begun_resembles h record) hitems _

/-- **Uninstalling tells nothing of hidden contents.** Nothing is hidden of the trees that an
uninstall looks at or of the descriptor that it reads, and the trash looks at nothing else.  Then
the report, the signals, the list of applications and what is handed to the trash are the same
whatever the hidden contents are, and so are the files afterwards but for those contents. -/
theorem run_resembles (hblind : e.trash.IsBlind keys) (h : s.Resembles keys s')
    (hshows : ∀ record, verified app s = .ok record → e.ShowsRemoval keys record s.disk)
    (hdescriptor : ∀ record, verified app s = .ok record →
      s.disk.ShowsFile keys (Bundle.descriptor record.path)) :
    (run home e app s).1 = (run home e app s').1 ∧
      (run home e app s).2.Resembles keys (run home e app s').2 := by
  have hsame := verified_resembles h app
  cases hverified : verified app s with
  | error error =>
    rw [run, run, ← hsame, hverified]
    exact ⟨rfl, h⟩
  | ok record =>
    have hremoval := hshows record hverified
    have hplan := plan_resembles h hverified hremoval (hdescriptor record hverified)
    have hbegun := begun_resembles h record
    rw [run_of_found hverified, run_of_found (hsame.symm.trans hverified), ← hplan]
    cases hp : plan e app s with
    | error error =>
      refine ⟨rfl, h.disk, h.inventory, ?_, h.handed, h.lostPlan⟩
      rw [hbegun.signals]
    | ok p =>
      obtain ⟨record', hrecord, -, rfl⟩ := plan_eq_ok_iff.mp hp
      cases hverified.symm.trans hrecord
      obtain ⟨hreport, hrest⟩ := handAll_resembles hblind h hremoval.handed home record
      simp only [← hreport]
      rcases finish_resembles hrest record (handAll home e record _ s).1 with
        ⟨error, herror, herror'⟩ | ⟨t, t', ht, ht', hafter⟩
      · rw [herror, herror']
        exact ⟨rfl, hrest⟩
      · rw [ht, ht']
        exact ⟨rfl, hafter⟩

end Remover

/-! ### The trash of a user -/

namespace Trash

theorem freeName_hide (inside : Place → Bool) (entries : List (String × Node)) (name : String) :
    freeName (Node.hideEntries inside entries) name = freeName entries name := by
  have hlength : (Node.hideEntries inside entries).length = entries.length := by
    rw [Node.hideEntries_eq_map, List.length_map]
  rw [freeName, freeName, Node.lookup_hideEntries, Option.isNone_map, hlength]

/-- An entry of which nothing is hidden is moved as it is, under the same name. -/
theorem moveInto_congr {p : Path} (h : d.hide keys = d'.hide keys) (hentry : d.ShowsEntry keys p)
    (folder : Path) : (moveInto folder p d).map (Disk.hide keys) =
      (moveInto folder p d').map (Disk.hide keys) := by
  rw [moveInto, moveInto]
  refine map_bind_congr (Disk.locate_congr h false p) ?_
  rintro ⟨place, node⟩ ⟨place', node'⟩ hfound - hsame
  obtain ⟨rfl, hnode⟩ := Prod.mk.inj hsame
  have hshown := hentry _ hfound
  rw [Node.hide_eq_self _ hshown, Node.hide_eq_self _ hshown] at hnode
  subst hnode
  refine map_bind_congr (Disk.makeFolders_congr h folder) ?_
  rintro made made' - - hmade
  refine map_bind_congr (Disk.locate_congr hmade true folder) ?_
  rintro ⟨top, node'⟩ ⟨top', node''⟩ - - hsame
  obtain ⟨rfl, -⟩ := Prod.mk.inj hsame
  obtain ⟨inside, hlist⟩ := Disk.exists_list_hide keys made folder
  obtain ⟨inside', hlist'⟩ := Disk.exists_list_hide keys made' folder
  rw [hmade, hlist'] at hlist
  refine map_bind_congr hlist.symm ?_
  rintro entries entries' - - hentries
  have hname : freeName entries = freeName entries' := by
    funext name
    rw [← freeName_hide inside, hentries, freeName_hide]
  have hdrop : (made.top.drop place).hide keys = (made'.top.drop place).hide keys := by
    rw [← Node.drop_hide, ← Node.drop_hide]
    exact congrArg (fun d => d.top.drop place) hmade
  simp only [hname, Except.map, Disk.hide, ← Node.put_hide, hdrop]

/-- **The trash of a user is blind.** -/
theorem isBlind_ofUser (keys : Place → Bool) (home : Option Path) : (ofUser home).IsBlind keys := by
  intro p d d' h hentry
  rw [ofUser, ofUser]
  rcases cases_of_map_eq (moveInto_congr h hentry (folder home)) with
    ⟨e, he, he'⟩ | ⟨after, after', hafter, hafter', hsame⟩
  · rw [he, he']
  · rw [hafter, hafter']
    exact congrArg Except.ok hsame

end Trash

end Reclaim
