import Reclaim.App.Removal
import Reclaim.Proofs.App.Ownership
import Reclaim.Proofs.Path.Spelling

/-!
# What an uninstall can reach

The identifier of a bundle is text that the bundle's author chose, and it becomes the last part of
eight paths.  A text that passes the check for identifiers stays one name below the directory of its
kind, whatever the library, and so an uninstall hands over nothing but the bundle that the inventory
lists and entries directly below the eight directories.

## Main definitions

* `Residual.place` : the components of the place of a kind for an identifier.
* `Bundle.contents` : the components below a bundle where its icon is looked for.
* `Remover.Runs` : how an uninstall goes, one case for each way.
* `Remover.MayHand` : the paths that an uninstall may hand over.

## Main results

* `Residual.candidates_eq` : the places for an identifier.
* `Residual.place_injective` : different identifiers and kinds have different places.
* `Bundle.exists_components_icon` : where an icon can be.
* `Remover.runs_run` : how an uninstall goes.
* `Remover.handed_run` : the paths that an uninstall hands over.
* `Remover.run_contained` : an uninstall is contained.
-/

namespace Reclaim

/-! ### Identifiers as names -/

namespace Safety

variable {text : String}

theorem ne_empty_of_isIdentifier (h : isIdentifier text = true) : text ≠ "" := by
  simp only [isIdentifier, Bool.and_eq_true, decide_eq_true_eq] at h
  exact h.1.1.1.1

theorem slash_notMem_of_isIdentifier (h : isIdentifier text = true) : '/' ∉ text.toList := by
  simp only [isIdentifier, Bool.and_eq_true, Bool.not_eq_true', List.any_eq_false] at h
  intro hslash
  simpa using h.1.1.2 '/' hslash

theorem head_ne_dot_of_isIdentifier (h : isIdentifier text = true) :
    text.toList.head? ≠ some '.' := by
  simp only [isIdentifier, Bool.and_eq_true, bne_iff_ne] at h
  exact h.2

/-- An identifier is a name, and stays one with an ending behind it. -/
theorem isName_append_of_isIdentifier (h : isIdentifier text = true) {ending : String}
    (hending : '/' ∉ ending.toList) : IsName (text ++ ending) := by
  obtain ⟨c, cs, hcs⟩ :=
    List.exists_cons_of_ne_nil (mt String.toList_eq_nil_iff.mp (ne_empty_of_isIdentifier h))
  have hc : c ≠ '.' := fun hc => head_ne_dot_of_isIdentifier h (by rw [hcs, hc, List.head?_cons])
  have hlist : (text ++ ending).toList = c :: (cs ++ ending.toList) := by simp [hcs]
  refine ⟨?_, ?_, ?_, ?_⟩
  · exact fun he => by simp [he] at hlist
  · exact fun he => hc (by simp [he] at hlist; exact hlist.1.symm)
  · exact fun he => hc (by simp [he] at hlist; exact hlist.1.symm)
  · rw [String.toList_append, List.mem_append, not_or]
    exact ⟨slash_notMem_of_isIdentifier h, hending⟩

theorem isName_of_isIdentifier (h : isIdentifier text = true) : IsName text := by
  have hname := isName_append_of_isIdentifier h (by decide : '/' ∉ "".toList)
  rwa [String.append_empty] at hname

end Safety

/-! ### The places of an identifier -/

namespace ResidualKind

theorem isName_folder (kind : ResidualKind) : IsName kind.folder := by
  cases kind <;> decide

theorem folder_injective {kind kind' : ResidualKind} (h : kind.folder = kind'.folder) :
    kind = kind' := by
  cases kind <;> cases kind' <;> first | rfl | exact absurd h (by decide)

/-- A kind writes a fixed ending behind every identifier. -/
theorem exists_ending (kind : ResidualKind) : ∃ ending : String, '/' ∉ ending.toList ∧
    ∀ identifier, kind.fileName identifier = identifier ++ ending := by
  cases kind with
  | preferences => exact ⟨".plist", by decide, fun _ => rfl⟩
  | launchAgent => exact ⟨".plist", by decide, fun _ => rfl⟩
  | savedState => exact ⟨".savedState", by decide, fun _ => rfl⟩
  | _ => exact ⟨"", by decide, fun _ => String.append_empty.symm⟩

theorem isName_fileName (kind : ResidualKind) {identifier : String}
    (h : Safety.isIdentifier identifier = true) : IsName (kind.fileName identifier) := by
  obtain ⟨ending, hending, hname⟩ := kind.exists_ending
  rw [hname]
  exact Safety.isName_append_of_isIdentifier h hending

theorem fileName_injective (kind : ResidualKind) {identifier identifier' : String}
    (h : kind.fileName identifier = kind.fileName identifier') : identifier = identifier' := by
  obtain ⟨ending, -, hname⟩ := kind.exists_ending
  rw [hname, hname, ← String.toList_inj, String.toList_append, String.toList_append] at h
  exact String.toList_inj.mp (List.append_cancel_right h)

end ResidualKind

namespace Residual

variable {library : Path} {identifier identifier' : String} {kind kind' : ResidualKind}

/-- The components of the place of a kind for an identifier: those of the library, the directory of
the kind, and one name. -/
def place (library : Path) (identifier : String) (kind : ResidualKind) : List Component :=
  library.components ++ [.name kind.folder, .name (kind.fileName identifier)]

theorem components_of (h : Safety.isIdentifier identifier = true) (library : Path)
    (kind : ResidualKind) :
    (of library identifier kind).path.components = place library identifier kind := by
  rw [of, folder, Path.components_child_name _ (kind.isName_fileName h),
    Path.components_child_name _ kind.isName_folder, List.append_assoc]
  rfl

/-- The places for an identifier: all eight in their order if it is one plain name, and none
otherwise. -/
theorem candidates_eq (library : Path) (identifier : String) : candidates library identifier =
    if Safety.isIdentifier identifier then ResidualKind.all.map (of library identifier)
    else [] := by
  rw [candidates]
  split
  next h =>
    rw [List.filter_eq_self, List.forall_mem_map]
    intro kind _
    exact Path.isDirectChild_child (folder library kind) (kind.isName_fileName h)
  next => rfl

/-- Different identifiers and kinds have different places. -/
theorem place_injective (h : place library identifier kind = place library identifier' kind') :
    identifier = identifier' ∧ kind = kind' := by
  have hnames := List.append_cancel_left h
  simp only [List.cons.injEq, Component.name.injEq, and_true] at hnames
  obtain ⟨hfolder, hname⟩ := hnames
  obtain rfl := ResidualKind.folder_injective hfolder
  exact ⟨kind.fileName_injective hname, rfl⟩

/-- Something that an identifier leads to is there, and is a name directly below the directory of
its kind. -/
theorem of_mem_existing {d : Disk} {r : Residual} (h : r ∈ existing library identifier d) :
    r.path.components = place library identifier r.kind ∧
      IsName (r.kind.fileName identifier) ∧ d.hasEntry r.path = true := by
  obtain ⟨hcandidate, hentry⟩ := List.mem_filter.mp h
  rw [candidates_eq] at hcandidate
  split at hcandidate
  next hid =>
    obtain ⟨kind, -, rfl⟩ := List.mem_map.mp hcandidate
    exact ⟨components_of hid library kind, kind.isName_fileName hid, hentry⟩
  next => cases hcandidate

end Residual

/-! ### What a bundle says -/

namespace Bundle

/-- The components below a bundle of the directory with its icon. -/
def contents : List Component :=
  [.name "Contents", .name "Resources"]

theorem components_resources (bundle : Path) :
    (resources bundle).components = bundle.components ++ contents :=
  Path.components_child bundle (by decide) (by decide)

theorem exists_iconFile (bundle : Path) {name : String} (h : Safety.isIdentifier name = true) :
    ∃ file, IsName file ∧ iconFile bundle name = (resources bundle).child file := by
  simp only [iconFile]
  split
  · exact ⟨name, Safety.isName_of_isIdentifier h, rfl⟩
  · exact ⟨name ++ ".icns", Safety.isName_append_of_isIdentifier h (by decide), rfl⟩

variable {bundle icon : Path} {d : Disk} {read : Plist.Reader}

/-- An icon is one name directly inside the resources of its bundle. -/
theorem exists_icon (h : icon? bundle d read = some icon) :
    ∃ file, IsName file ∧ icon = (resources bundle).child file := by
  have hmem := List.mem_of_find?_eq_some h
  rw [List.mem_append, List.mem_singleton] at hmem
  rcases hmem with hnamed | rfl
  · rw [Option.mem_toList, Option.map_eq_some_iff] at hnamed
    obtain ⟨name, hname, rfl⟩ := hnamed
    rw [Option.filter_eq_some_iff] at hname
    exact exists_iconFile bundle hname.2
  · exact ⟨"AppIcon.icns", by decide, rfl⟩

theorem exists_components_icon (h : icon? bundle d read = some icon) :
    ∃ file, IsName file ∧ icon.components = bundle.components ++ contents ++ [.name file] := by
  obtain ⟨file, hfile, rfl⟩ := exists_icon h
  exact ⟨file, hfile, by rw [Path.components_child_name _ hfile, components_resources]⟩

theorem isDirectChild_icon (h : icon? bundle d read = some icon) :
    Safety.isDirectChild icon (resources bundle) = true := by
  obtain ⟨file, hfile, rfl⟩ := exists_icon h
  exact Path.isDirectChild_child _ hfile

end Bundle

/-! ### What is handed over -/

namespace RemovalPlan

/-- The paths of a plan: what is there of the leftovers, and the bundle. -/
theorem map_path_targets (library : Path) (record : AppRecord) (d : Disk) (read : Plist.Reader) :
    (RemovalPlan.of library record d read).targets.map RemovalTarget.path =
      ((Bundle.identifier? record.path d read).toList.flatMap fun identifier =>
        (Residual.existing library identifier d).map Residual.path) ++ [record.path] := by
  rw [RemovalPlan.of]
  cases Bundle.identifier? record.path d read <;> simp [Function.comp_def]

end RemovalPlan

namespace Remover

variable {home : Option Path} {e : Remover} {read : Plist.Reader}

theorem handed_step (state : Uninstall × Removing) (target : RemovalTarget) :
    (step home e state target).2.handed.map Prod.fst =
      state.2.handed.map Prod.fst ++ [target.path] := by
  simp only [step]
  split <;> simp

theorem handed_foldl_step (targets : List RemovalTarget) (state : Uninstall × Removing) :
    (targets.foldl (step home e) state).2.handed.map Prod.fst =
      state.2.handed.map Prod.fst ++ targets.map RemovalTarget.path := by
  induction targets generalizing state with
  | nil => simp
  | cons target targets ih =>
    rw [List.foldl_cons, ih, handed_step, List.map_cons, List.append_assoc, List.singleton_append]

theorem inventory_step (state : Uninstall × Removing) (target : RemovalTarget) :
    (step home e state target).2.inventory = state.2.inventory := by
  simp only [step]
  split <;> rfl

theorem inventory_foldl_step (targets : List RemovalTarget) (state : Uninstall × Removing) :
    (targets.foldl (step home e) state).2.inventory = state.2.inventory := by
  induction targets generalizing state with
  | nil => rfl
  | cons target targets ih => rw [List.foldl_cons, ih, inventory_step]

theorem verified_eq_ok {app record : AppRecord} {s : Removing} (h : verified app s = .ok record) :
    s.inventory.get? app.id = some record ∧ s.disk.hasEntry record.path = true := by
  simp only [verified] at h
  split at h
  next => cases h
  next found hfound =>
    split at h
    next hentry =>
      cases h
      exact ⟨hfound, hentry⟩
    next => cases h

/-- The record that is found is found again by what it says of itself. -/
theorem verified_record {app record : AppRecord} {s : Removing}
    (h : verified app s = .ok record) : verified record s = .ok record := by
  obtain ⟨hlisted, hthere⟩ := verified_eq_ok h
  have hid : record.id = app.id := by
    rw [Inventory.get?, AppList.find?] at hlisted
    simpa using List.find?_some hlisted
  rw [verified, hid, hlisted]
  simp [hthere]

/-- There is a plan if the record is found and its bundle exists, unless the task that makes it is
lost. -/
theorem plan_eq_ok_iff {app : AppRecord} {s : Removing} {p : RemovalPlan} :
    plan e app s read = .ok p ↔ ∃ record, verified app s = .ok record ∧ s.lostPlan = none ∧
      p = RemovalPlan.of e.library record s.disk read := by
  rw [plan]
  cases verified app s with
  | error error => simp [bind, Except.bind]
  | ok record =>
    cases s.lostPlan with
    | none => simp [bind, Except.bind, eq_comm]
    | some text => simp [bind, Except.bind]

/-- An application that is found has no plan only if the task that makes it is lost. -/
theorem exists_lostPlan {app record : AppRecord} {s : Removing} {error : AppError}
    (h : verified app s = .ok record) (herror : plan e app s read = .error error) :
    ∃ text, s.lostPlan = some text ∧ error = .other ("planning removal failed: " ++ text) := by
  rw [plan, h] at herror
  cases hlost : s.lostPlan with
  | none =>
    rw [hlost] at herror
    cases herror
  | some text =>
    rw [hlost] at herror
    cases herror
    exact ⟨text, rfl, rfl⟩

/-- The plan of the record that is found is that of the application. -/
theorem plan_record {app record : AppRecord} {s : Removing} (h : verified app s = .ok record) :
    plan e record s read = plan e app s read := by
  rw [plan, plan, h, verified_record h]

/-! ### How an uninstall goes -/

/-- An uninstall when its application is found. -/
def begun (record : AppRecord) (s : Removing) : Removing :=
  { s with signals := (s.signals.setBusy true).log ("Analyzing " ++ record.name ++ "...") }

/-- The report and the state when all items of a plan have had their turn. -/
def handAll (home : Option Path) (e : Remover) (record : AppRecord) (p : RemovalPlan)
    (s : Removing) : Uninstall × Removing :=
  p.targets.foldl (step home e)
    ({ appName := record.name, identifier := p.identifier }, begun record s)

theorem inventory_handAll (home : Option Path) (e : Remover) (record : AppRecord)
    (p : RemovalPlan) (s : Removing) :
    (handAll home e record p s).2.inventory = s.inventory :=
  inventory_foldl_step p.targets _

/-- An uninstall whose application is found. -/
theorem run_of_found {app record : AppRecord} {s : Removing} (h : verified app s = .ok record) :
    run home e app s read =
      match plan e app s read with
      | .error error =>
        (.error error, { begun record s with signals := (begun record s).signals.setBusy false })
      | .ok p =>
        match finish record (handAll home e record p s).1 (handAll home e record p s).2 with
        | .ok after => (.ok (handAll home e record p s).1, after)
        | .error error => (.error error, (handAll home e record p s).2) := by
  -- what is published on the way does not matter to the plan
  have hplan : plan e record (begun record s) read = plan e app s read := plan_record h
  rw [← hplan, run, h]
  rfl

/-- How an uninstall goes, one case for each way: the application is not found, the plan is lost,
the list takes no commands any more when the bundle has gone, the application goes from the list, or
the bundle stays. -/
inductive Runs (home : Option Path) (e : Remover) (read : Plist.Reader) (app : AppRecord)
    (s : Removing) : Except AppError Uninstall × Removing → Prop
  | refused {error : AppError} (unfound : verified app s = .error error) :
    Runs home e read app s (.error error, s)
  | lost {record : AppRecord} {text : String} (found : verified app s = .ok record)
    (lost : s.lostPlan = some text) :
    Runs home e read app s (.error (.other ("planning removal failed: " ++ text)),
      { begun record s with signals := (begun record s).signals.setBusy false })
  | stopped {record : AppRecord} {p : RemovalPlan} (found : verified app s = .ok record)
    (planned : plan e app s read = .ok p)
    (removed : (handAll home e record p s).1.bundleRemoved = true)
    (stopped : s.inventory.running = false) :
    Runs home e read app s (.error (.other "app inventory is no longer running"),
      (handAll home e record p s).2)
  | withdrawn {record : AppRecord} {p : RemovalPlan} (found : verified app s = .ok record)
    (planned : plan e app s read = .ok p)
    (removed : (handAll home e record p s).1.bundleRemoved = true)
    (running : s.inventory.running = true) :
    Runs home e read app s (.ok (handAll home e record p s).1,
      let after := (handAll home e record p s).2
      { after with
        inventory := (s.inventory.remove record.id).2
        signals := (after.signals.log ("Uninstalled " ++ record.name)).setBusy false })
  | kept {record : AppRecord} {p : RemovalPlan} (found : verified app s = .ok record)
    (planned : plan e app s read = .ok p)
    (kept : (handAll home e record p s).1.bundleRemoved = false) :
    Runs home e read app s (.ok (handAll home e record p s).1,
      let after := (handAll home e record p s).2
      { after with
        signals := (after.signals.log ("Failed to remove " ++ record.name)).setBusy false })

theorem runs_run (home : Option Path) (e : Remover) (read : Plist.Reader) (app : AppRecord)
    (s : Removing) : Runs home e read app s (run home e app s read) := by
  cases hverified : verified app s with
  | error error =>
    rw [run, hverified]
    exact .refused hverified
  | ok record =>
    rw [run_of_found hverified]
    cases hp : plan e app s read with
    | error error =>
      obtain ⟨text, hlost, rfl⟩ := exists_lostPlan hverified hp
      exact .lost hverified hlost
    | ok p =>
      have hinventory := inventory_handAll home e record p s
      simp only [finish]
      cases hremoved : (handAll home e record p s).1.bundleRemoved with
      | false => exact .kept hverified hp hremoved
      | true =>
        cases hrunning : s.inventory.running with
        | false =>
          have hstopped := Inventory.withdraw_of_stopped hrunning record.id
          simp only [if_true, hinventory, hstopped]
          exact .stopped hverified hp hremoved hrunning
        | true =>
          obtain ⟨gone, hgone⟩ := Inventory.withdraw_of_running hrunning record.id
          rw [← Inventory.remove_snd hrunning] at hgone
          simp only [if_true, hinventory, hgone, bind, Except.bind]
          exact .withdrawn hverified hp hremoved hrunning

theorem handed_handAll (record : AppRecord) (p : RemovalPlan) (s : Removing) :
    (handAll home e record p s).2.handed.map Prod.fst =
      s.handed.map Prod.fst ++ p.targets.map RemovalTarget.path :=
  handed_foldl_step p.targets _

/-- The paths that an uninstall hands over are those of its plan; without a plan there are none. -/
theorem handed_run (home : Option Path) (e : Remover) (read : Plist.Reader) (app : AppRecord)
    (s : Removing) :
    (run home e app s read).2.handed.map Prod.fst = s.handed.map Prod.fst ++
      match plan e app s read with
      | .ok p => p.targets.map RemovalTarget.path
      | .error _ => [] := by
  have hruns := runs_run home e read app s
  generalize run home e app s read = result at hruns ⊢
  cases hruns with
  | refused hunfound => simp [plan, hunfound, bind, Except.bind]
  | lost hfound hlost => simp [plan, hfound, hlost, begun, bind, Except.bind]
  | stopped hfound hp => rw [hp, handed_handAll]
  | withdrawn hfound hp => rw [hp, ← handed_handAll]
  | kept hfound hp => rw [hp, ← handed_handAll]

/-- A path that the uninstall of an application may hand over: that of the inventory's own record,
or the place of a kind for the identifier that the recorded bundle has, if something is there. -/
inductive MayHand (e : Remover) (read : Plist.Reader) (app : AppRecord) (s : Removing) : Path → Prop
  | bundle (record : AppRecord) (listed : s.inventory.get? app.id = some record) :
      MayHand e read app s record.path
  | residual (record : AppRecord) (listed : s.inventory.get? app.id = some record)
      (identifier : String) (named : Bundle.identifier? record.path s.disk read = some identifier)
      (kind : ResidualKind) (path : Path)
      (lies : path.components = Residual.place e.library identifier kind)
      (plain : IsName (kind.fileName identifier)) (there : s.disk.hasEntry path = true) :
      MayHand e read app s path

theorem mayHand_of_mem_targets {app record : AppRecord} {s : Removing}
    (h : s.inventory.get? app.id = some record) {path : Path}
    (hpath : path ∈ (RemovalPlan.of e.library record s.disk read).targets.map
      RemovalTarget.path) : MayHand e read app s path := by
  rw [RemovalPlan.map_path_targets, List.mem_append, List.mem_singleton] at hpath
  rcases hpath with hpath | rfl
  · obtain ⟨identifier, hid, hpath⟩ := List.mem_flatMap.mp hpath
    obtain ⟨r, hr, rfl⟩ := List.mem_map.mp hpath
    obtain ⟨hlies, hplain, hthere⟩ := Residual.of_mem_existing hr
    exact .residual record h identifier (Option.mem_toList.mp hid) r.kind r.path hlies hplain hthere
  · exact .bundle record h

/-- **An uninstall is contained.** Whatever the caller says of the application, whatever the
descriptor of its bundle says and however descriptors are read, only the path in the inventory's own
record and names directly below the eight directories of the library are handed over, the latter if
something was there; without an identifier it is the bundle alone, and nothing if the plan is lost.
Different identifiers never share a place, an identifier has all eight places or none, and the icon
of a bundle is directly inside its resources. -/
theorem run_contained (home : Option Path) (e : Remover) (read : Plist.Reader) (app : AppRecord)
    (s : Removing) :
    (∃ new, (run home e app s read).2.handed.map Prod.fst = s.handed.map Prod.fst ++ new ∧
      (∀ path ∈ new, MayHand e read app s path) ∧
      (∀ record, s.inventory.get? app.id = some record →
        Bundle.identifier? record.path s.disk read = none →
          new = if s.disk.hasEntry record.path ∧ s.lostPlan = none then [record.path] else [])) ∧
    (∀ identifier identifier' kind kind', Safety.isIdentifier identifier = true →
      Safety.isIdentifier identifier' = true →
      (Residual.of e.library identifier kind).path.same
        (Residual.of e.library identifier' kind').path = true →
      identifier = identifier' ∧ kind = kind') ∧
    (∀ identifier, Residual.candidates e.library identifier =
      if Safety.isIdentifier identifier then
        ResidualKind.all.map (Residual.of e.library identifier) else []) ∧
    (∀ bundle icon, Bundle.icon? bundle s.disk read = some icon →
      Safety.isDirectChild icon (Bundle.resources bundle) = true ∧
        ∃ file, IsName file ∧
          icon.components = bundle.components ++ Bundle.contents ++ [.name file]) := by
  refine ⟨⟨_, handed_run home e read app s, ?_, ?_⟩, ?_, ?_, ?_⟩
  · intro path hpath
    split at hpath
    next p hp =>
      obtain ⟨record, hrecord, -, rfl⟩ := plan_eq_ok_iff.mp hp
      exact mayHand_of_mem_targets (verified_eq_ok hrecord).1 hpath
    next => cases hpath
  · intro record hlisted hnone
    rw [plan, verified, hlisted]
    by_cases hentry : s.disk.hasEntry record.path = true
    · cases hlost : s.lostPlan with
      | none => simp [hentry, RemovalPlan.map_path_targets, hnone, bind, Except.bind]
      | some text => simp [hentry, bind, Except.bind]
    · simp [hentry, bind, Except.bind]
  · intro identifier identifier' kind kind' hid hid' hsame
    rw [Path.same, beq_iff_eq, Residual.components_of hid, Residual.components_of hid'] at hsame
    exact Residual.place_injective hsame
  · exact Residual.candidates_eq e.library
  · intro bundle icon hicon
    exact ⟨Bundle.isDirectChild_icon hicon, Bundle.exists_components_icon hicon⟩

end Remover

end Reclaim
