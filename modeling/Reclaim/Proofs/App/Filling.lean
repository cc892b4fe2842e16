import Reclaim.Proofs.App.Listing
import Reclaim.Proofs.App.Turns

/-!
# How a list is filled

Once the owner has taken the list of a scan, its applications are measured in some order, and each
measurement is on its way for a while before it is filled in.  At every time an application of the
list is measured, or it is still to be measured, or its measurement is on its way.  Other scans see
nothing of this but that some applications are measured that were not.

## Main definitions

* `AppRecord.measured`, `AppRecord.Advances` : an application with what is measured of it, and a
  list some of whose applications are measured.
* `AppOwner.Serves` : how the list of an owner comes about.
* `Filling` : how far a list is filled.
* `ScanStage.Fits` : how a scan fits the list and what it has sent.
* `ScanStage.Received` : what comes of what a scan has sent.

## Main results

* `Filling.measure`, `Filling.receive` : a measurement ends, and it is filled in.
* `Filling.eq_map_measured` : nothing is left to be done.
* `ScanStage.Fits.goes`, `ScanStage.Fits.receive` : what a scan does of itself and what it hears.
-/

namespace Reclaim

/-! ### Measured applications -/

namespace AppRecord

/-- An application with what is measured of it. -/
def measured (d : Disk) (r : AppRecord) : AppRecord :=
  AppList.fillRecord (Bundle.icon? r.path d) (some (d.folderSize r.path)) r

/-- A list is as another one, except that some of its applications are measured. -/
structure Advances (d : Disk) (records records' : List AppRecord) : Prop where
  bare : records'.map bare = records.map bare
  measured : ∀ r ∈ records', r.measured d = r ∨ r ∈ records

theorem Advances.refl (d : Disk) (records : List AppRecord) : Advances d records records :=
  ⟨rfl, fun _ hr => .inr hr⟩

/-- A list in which the application with an identity is measured. -/
def measureOne (d : Disk) (id : AppId) (records : List AppRecord) : List AppRecord :=
  records.map fun r => if r.id = id then r.measured d else r

theorem advances_measureOne (d : Disk) (id : AppId) (records : List AppRecord) :
    Advances d records (measureOne d id records) := by
  refine ⟨?_, fun r hr => ?_⟩
  · rw [measureOne, List.map_map]
    refine List.map_congr_left fun r _ => ?_
    rw [Function.comp_apply]
    split <;> rfl
  · obtain ⟨r', hr', rfl⟩ := List.mem_map.mp hr
    split
    · exact .inl rfl
    · exact .inr hr'

end AppRecord

/-! ### The owner during a scan -/

namespace AppOwner

variable {owner : AppOwner} {dir : Path} {d : Disk} {w : Nat} {r : AppRecord}
  {R : List AppRecord}

/-- A measurement of a listed application is filled in. -/
theorem receive_measure (honce : (owner.records.map AppRecord.id).Nodup) (hr : r ∈ owner.records) :
    owner.receive (Inventory.measure d r) =
      (.filled, owner.publish (AppRecord.measureOne d r.id owner.records)) := by
  rw [Inventory.measure, receive, AppList.find?_eq_some_of_mem honce hr,
    AppList.updateFirst_eq_map honce, AppRecord.measureOne]
  refine congrArg (fun records => (_, owner.publish records)) (List.map_congr_left fun r' hr' => ?_)
  split
  next hid =>
    rw [List.inj_on_of_nodup_map honce hr' hr hid]
    rfl
  next => rfl

/-- How the list of an owner comes about that had no list after `w` writes: the first list is a
listing of the directory, and then its applications are measured. -/
structure Serves (dir : Path) (d : Disk) (w : Nat) (owner : AppOwner) : Prop where
  seen : owner.published.value = owner.records
  since : w ≤ owner.published.writes
  none : owner.published.writes = w → owner.records = []
  listed : w < owner.published.writes → AppRecord.Listed dir d (owner.records.map AppRecord.bare)
  bare : owner.published.writes = w + 1 → owner.records.map AppRecord.bare = owner.records

theorem Serves.listed_of_ne_nil (h : owner.Serves dir d w) (hsome : owner.records ≠ []) :
    AppRecord.Listed dir d (owner.records.map AppRecord.bare) :=
  h.listed (Nat.lt_of_le_of_ne h.since fun heq => hsome (h.none heq.symm))

theorem Serves.publish_populate (hsound : d.top.Sound) (h : owner.Serves dir d w)
    (hR : AppRecord.Listed dir d R) : (owner.publish R).Serves dir d w where
  seen := rfl
  since := Nat.le_succ_of_le h.since
  none heq := absurd heq (Nat.ne_of_gt (Nat.lt_succ_of_le h.since))
  listed _ := by rwa [publish, hR.map_bare hsound]
  bare _ := hR.map_bare hsound

theorem Serves.publish_measureOne (h : owner.Serves dir d w) (hr : r ∈ owner.records) :
    (owner.publish (AppRecord.measureOne d r.id owner.records)).Serves dir d w := by
  have hsome : owner.records ≠ [] := List.ne_nil_of_mem hr
  have hless : w < owner.published.writes :=
    Nat.lt_of_le_of_ne h.since fun heq => hsome (h.none heq.symm)
  have hwrites : (owner.publish (AppRecord.measureOne d r.id owner.records)).published.writes =
      owner.published.writes + 1 := rfl
  refine ⟨rfl, by omega, fun heq => by omega, fun _ => ?_, fun heq => by omega⟩
  have hbare := (AppRecord.advances_measureOne d r.id owner.records).bare
  exact hbare ▸ h.listed hless

end AppOwner

/-! ### Scans and the list -/

/-- How far a list of `count` applications is filled: what is not measured is still to be measured,
or its measurement is among the fills that are still to be taken. -/
structure Filling (dir : Path) (d : Disk) (records : List AppRecord) (count : Nat)
    (todo : List AppRecord) (fills : List AppCommand) : Prop where
  listed : AppRecord.Listed dir d (records.map AppRecord.bare)
  length_eq : records.length = count
  of_todo : ∀ r ∈ todo, r ∈ records.map AppRecord.bare
  of_fills : ∀ c ∈ fills, ∃ r ∈ records, c = Inventory.measure d r
  covered : ∀ r ∈ records,
    r.measured d = r ∨ r.bare ∈ todo ∨ Inventory.measure d r ∈ fills

namespace Filling

variable {dir : Path} {d : Disk} {records records' : List AppRecord} {count : Nat}
  {todo todo' : List AppRecord} {fills fills' : List AppCommand} {r : AppRecord}

theorem congr (h : Filling dir d records count todo fills) (htodo : ∀ r, r ∈ todo' ↔ r ∈ todo)
    (hfills : ∀ c, c ∈ fills' ↔ c ∈ fills) : Filling dir d records count todo' fills' where
  listed := h.listed
  length_eq := h.length_eq
  of_todo r hr := h.of_todo r ((htodo r).mp hr)
  of_fills c hc := h.of_fills c ((hfills c).mp hc)
  covered r hr := by
    rw [htodo, hfills]
    exact h.covered r hr

/-- A measurement ends. -/
theorem measure (h : Filling dir d records count (r :: todo) fills) :
    Filling dir d records count todo (Inventory.measure d r :: fills) := by
  obtain ⟨r₀, hr₀, hbare⟩ := List.mem_map.mp (h.of_todo r List.mem_cons_self)
  refine ⟨h.listed, h.length_eq, fun r' hr' => h.of_todo r' (List.mem_cons_of_mem r hr'), ?_, ?_⟩
  · refine List.forall_mem_cons.mpr ⟨⟨r₀, hr₀, ?_⟩, h.of_fills⟩
    rw [← hbare]
    rfl
  · intro r' hr'
    rcases h.covered r' hr' with hdone | htodo | hfill
    · exact .inl hdone
    · rcases List.mem_cons.mp htodo with rfl | hlater
      · exact .inr (.inr List.mem_cons_self)
      · exact .inr (.inl hlater)
    · exact .inr (.inr (List.mem_cons_of_mem _ hfill))

/-- One of the measurements under way ends. -/
theorem measure_running {waiting running : List AppRecord} {k : Nat}
    (h : Filling dir d records count (waiting ++ running) fills) (hk : k < running.length) :
    Filling dir d records count (waiting ++ running.eraseIdx k)
      (Inventory.measure d running[k] :: fills) := by
  refine (h.congr (fun r => ?_) fun _ => Iff.rfl).measure
  have hrunning : r ∈ running[k] :: running.eraseIdx k ↔ r ∈ running :=
    (List.getElem_cons_eraseIdx_perm hk).mem_iff
  simp only [List.mem_cons, List.mem_append] at hrunning ⊢
  tauto

/-- Some application of the list is measured. -/
theorem advances (h : Filling dir d records count todo fills)
    (hadvances : AppRecord.Advances d records records') :
    Filling dir d records' count todo fills := by
  have hbare := hadvances.bare
  refine ⟨hbare ▸ h.listed, ?_, fun r hr => hbare ▸ h.of_todo r hr, fun c hc => ?_, fun r hr => ?_⟩
  · rw [← h.length_eq, ← List.length_map, hbare, List.length_map]
  · obtain ⟨r, hr, rfl⟩ := h.of_fills c hc
    have hmem : r.bare ∈ records'.map AppRecord.bare := hbare ▸ List.mem_map_of_mem hr
    obtain ⟨r', hr', hsame⟩ := List.mem_map.mp hmem
    refine ⟨r', hr', ?_⟩
    have hmeasure : Inventory.measure d r'.bare = Inventory.measure d r.bare := by rw [hsame]
    exact hmeasure.symm
  · rcases hadvances.measured r hr with hdone | hold
    · exact .inl hdone
    · exact h.covered r hold

/-- A measurement is filled in. -/
theorem fill (h : Filling dir d records count todo (Inventory.measure d r :: fills)) :
    Filling dir d (AppRecord.measureOne d r.id records) count todo fills := by
  have hadvances := AppRecord.advances_measureOne d r.id records
  obtain ⟨hlisted, hcount, htodo, hfills, hcovered⟩ := h.advances hadvances
  refine ⟨hlisted, hcount, htodo, fun c hc => hfills c (List.mem_cons_of_mem _ hc), ?_⟩
  intro r' hr'
  rcases hcovered r' hr' with hdone | hleft | hfill
  · exact .inl hdone
  · exact .inr (.inl hleft)
  · rcases List.mem_cons.mp hfill with hsame | hlater
    · -- the fill is that of the application itself
      have hid : r'.id = r.id := by
        rw [Inventory.measure, Inventory.measure, AppCommand.fill.injEq] at hsame
        exact hsame.1
      obtain ⟨r₀, -, rfl⟩ := List.mem_map.mp hr'
      split at hid
      next heq => exact .inl (by rw [if_pos heq]; rfl)
      next hne => exact absurd hid hne
    · exact .inr (.inr hlater)

/-- The owner takes a measurement. -/
theorem receive {owner : AppOwner} {c : AppCommand} {w : Nat}
    (h : Filling dir d owner.records count todo (c :: fills)) (hserves : owner.Serves dir d w) :
    ∃ owner', owner.receive c = (.filled, owner') ∧ owner'.Serves dir d w ∧
      Filling dir d owner'.records count todo fills ∧
      AppRecord.Advances d owner.records owner'.records := by
  obtain ⟨r, hr, rfl⟩ := h.of_fills c List.mem_cons_self
  exact ⟨_, AppOwner.receive_measure h.listed.nodup hr, hserves.publish_measureOne hr, h.fill,
    AppRecord.advances_measureOne d r.id owner.records⟩

/-- Nothing is left to be measured or filled in. -/
theorem eq_map_measured (h : Filling dir d records count [] []) :
    records = (records.map AppRecord.bare).map (AppRecord.measured d) := by
  rw [List.map_map]
  refine ((List.map_congr_left fun r hr => ?_).trans (List.map_id records)).symm
  rcases h.covered r hr with hdone | hnone | hnone
  · exact hdone
  · cases hnone
  · cases hnone

end Filling

namespace ScanStage

/-- How the stage of a scan fits the list and what the scan has sent that the owner has not yet
taken. -/
def Fits (dir : Path) (d : Disk) (records : List AppRecord) (flight : List AppCommand) :
    ScanStage → Prop
  | begun | looked => flight = []
  | listed R => flight = [] ∧ AppRecord.Listed dir d R
  | offering R => flight = [.populate R] ∧ AppRecord.Listed dir d R
  | refused => flight = [] ∧ AppRecord.Listed dir d (records.map AppRecord.bare)
  | measuring count waiting running measured =>
    Filling dir d records count (waiting ++ running) (measured.map Measurement.command ++ flight)
  | settling count => ∃ fills, flight = fills ++ [.barrier] ∧ Filling dir d records count [] fills
  | answered (.ok count) => flight = [] ∧ records.length = count ∧
    AppRecord.Listed dir d (records.map AppRecord.bare)
  | answered (.error e) => flight = [] ∧ ∃ error, d.list dir = .error error ∧ e = .io dir error
  | completed count => flight = [] ∧ Filling dir d records count [] []

variable {v : Inventory} {d : Disk} {fanout w : Nat} {stage : ScanStage} {move : ScanMove}
  {records records' : List AppRecord} {flight : List AppCommand} {dir : Path}

/-- A part of a scan leads to a stage that fits. -/
theorem Fits.goes (h : stage.Fits v.dir d v.owner.records flight)
    (hserves : v.owner.Serves v.dir d w) (hgoes : stage.Goes fanout v d move) :
    move.stage.Fits v.dir d v.owner.records (flight ++ move.sent) := by
  cases hgoes with
  | looked => exact (List.append_nil flight).trans h
  | found hsome =>
    rw [Inventory.apps, hserves.seen] at hsome
    refine ⟨(List.append_nil flight).trans h, ?_, hserves.listed_of_ne_nil hsome⟩
    rw [Inventory.apps, hserves.seen]
  | unlisted hlist =>
    refine ⟨(List.append_nil flight).trans h, ?_⟩
    rw [AppRecord.listFolder] at hlist
    split at hlist
    next error herror =>
      cases hlist
      exact ⟨error, herror, rfl⟩
    next => cases hlist
  | listed hlist => exact ⟨(List.append_nil flight).trans h, _, hlist⟩
  | offered records =>
    obtain ⟨rfl, hlisted⟩ := h
    exact ⟨rfl, hlisted⟩
  | started =>
    rw [Fits, List.append_nil]
    exact Filling.congr h (by simp; tauto) fun _ => Iff.rfl
  | @measured count k r waiting running measured hr =>
    obtain ⟨hk, rfl⟩ := List.getElem?_eq_some_iff.mp hr
    refine (Filling.measure_running h hk).congr (fun _ => Iff.rfl) fun c => ?_
    have hcommand : (Measurement.of d running[k]).command = Inventory.measure d running[k] := rfl
    simp only [List.map_append, List.map_cons, List.map_nil, List.append_nil, List.mem_append,
      List.mem_cons, List.not_mem_nil, or_false, hcommand, or_assoc]
    exact or_left_comm
  | @sent count k m waiting running measured hm =>
    obtain ⟨hk, rfl⟩ := List.getElem?_eq_some_iff.mp hm
    have hperm := (List.getElem_cons_eraseIdx_perm hk).map Measurement.command
    refine Filling.congr h (fun _ => Iff.rfl) fun c => ?_
    have hc := hperm.mem_iff (a := c)
    simp only [List.map_cons, List.mem_cons, List.mem_append, List.not_mem_nil, or_false] at hc ⊢
    tauto
  | finished count => exact ⟨flight, rfl, h⟩
  | left =>
    obtain ⟨rfl, hlisted⟩ := h
    refine ⟨rfl, ?_, hlisted⟩
    rw [Inventory.apps, hserves.seen]

/-- Other scans fit the list while its applications are measured. -/
theorem Fits.advances (h : stage.Fits dir d records flight)
    (hadvances : AppRecord.Advances d records records') :
    stage.Fits dir d records' flight := by
  have hbare := hadvances.bare
  have hlength : records'.length = records.length := by
    rw [← List.length_map, hbare, List.length_map]
  cases stage with
  | begun | looked | listed | offering => exact h
  | refused => exact ⟨h.1, hbare ▸ h.2⟩
  | measuring => exact Filling.advances h hadvances
  | settling =>
    obtain ⟨fills, hflight, hfilling⟩ := h
    exact ⟨fills, hflight, hfilling.advances hadvances⟩
  | answered result =>
    cases result with
    | ok => exact ⟨h.1, hlength.trans h.2.1, hbare ▸ h.2.2⟩
    | error => exact h
  | completed => exact ⟨h.1, h.2.advances hadvances⟩

/-- Other scans fit a list that is taken for an empty one. -/
theorem Fits.populate (hsound : d.top.Sound) (h : stage.Fits dir d [] flight)
    (hlisted : AppRecord.Listed dir d records) : stage.Fits dir d records flight := by
  have hnil : AppRecord.Listed dir d [] → stage.Fits dir d records flight := fun hnil =>
    hnil.eq_nil hsound hlisted ▸ h
  cases stage with
  | begun | looked | listed | offering => exact h
  | refused => exact hnil h.2
  | measuring => exact hnil (Filling.listed h)
  | settling => exact hnil h.choose_spec.2.listed
  | answered result =>
    cases result with
    | ok => exact hnil h.2.2
    | error => exact h
  | completed => exact hnil h.2.listed

/-- The list of the scan was taken. -/
def isTaken : ScanStage → Bool
  | measuring .. | settling _ | completed _ => true
  | _ => false

/-- The scan has found a list that was there already. -/
def isLate : ScanStage → Bool
  | refused | answered (.ok _) => true
  | _ => false

theorem Goes.isTaken (h : stage.Goes fanout v d move) (htaken : stage.isTaken = true) :
    move.stage.isTaken = true := by
  cases h <;> first | rfl | cases htaken

theorem Goes.isLate (h : stage.Goes fanout v d move) (hlate : move.stage.isLate = true) :
    v.apps.value ≠ [] ∨ stage.isLate = true := by
  cases h with
  | found hsome => exact .inl hsome
  | left => exact .inr rfl
  | looked | unlisted | listed | offered | started | measured | sent | finished => cases hlate

theorem isTaken_hear (reply : AppReply) (htaken : stage.isTaken = true) :
    (stage.hear reply).isTaken = true := by
  obtain h | ⟨records, rfl, -⟩ | ⟨count, rfl, h⟩ := hear_cases reply stage
  · exact h.symm ▸ htaken
  · cases htaken
  · rw [h]
    rfl

/-- A list that has just been taken has all its applications still to be measured. -/
theorem fits_measuring (hsound : d.top.Sound) {R : List AppRecord}
    (hlisted : AppRecord.Listed dir d R) :
    (measuring R.length R [] []).Fits dir d R [] := by
  have hbare := hlisted.map_bare hsound
  refine ⟨hbare.symm ▸ hlisted, rfl, fun r hr => ?_, fun c hc => ?_, fun r hr => ?_⟩
  · rwa [hbare, ← List.append_nil R]
  · cases hc
  · refine .inr (.inl ?_)
    rw [List.append_nil, ← hbare]
    exact List.mem_map_of_mem hr

/-- What comes of it when the owner takes what a scan has sent. -/
structure Received (dir : Path) (d : Disk) (w : Nat) (owner : AppOwner)
    (answer : AppReply × AppOwner) (flight : List AppCommand) (stage : ScanStage) : Prop where
  serves : answer.2.Serves dir d w
  fits : (stage.hear answer.1).Fits dir d answer.2.records flight
  /-- Other scans see that applications are measured, or the first list. -/
  others : AppRecord.Advances d owner.records answer.2.records ∨
    owner.records = [] ∧ AppRecord.Listed dir d answer.2.records
  taken : owner.records ≠ [] ∨ (stage.hear answer.1).isTaken = true

/-- The owner takes what a scan has sent first. -/
theorem Fits.receive {owner : AppOwner} {c : AppCommand} (hsound : d.top.Sound)
    (hserves : owner.Serves dir d w) (h : stage.Fits dir d owner.records (c :: flight)) :
    stage.Received dir d w owner (owner.receive c) flight := by
  cases stage with
  | begun => cases h
  | looked => cases h
  | listed => cases h.1
  | refused => cases h.1
  | completed => cases h.1
  | answered result => cases result <;> cases h.1
  | offering R =>
    obtain ⟨hflight, hlisted⟩ := h
    cases hflight
    by_cases hnil : owner.records = []
    · rw [AppOwner.receive_populate_of_nil hnil]
      exact ⟨hserves.publish_populate hsound hlisted, fits_measuring hsound hlisted,
        .inr ⟨hnil, hlisted⟩, .inr rfl⟩
    · rw [AppOwner.receive_populate hnil]
      exact ⟨hserves, ⟨rfl, hserves.listed_of_ne_nil hnil⟩, .inl (.refl d _), .inl hnil⟩
  | measuring count waiting running measured =>
    have hfilling : Filling dir d owner.records count (waiting ++ running)
        (c :: (measured.map Measurement.command ++ flight)) :=
      Filling.congr h (fun _ => Iff.rfl) fun c' => by
        simp only [List.mem_cons, List.mem_append]
        exact or_left_comm
    obtain ⟨owner', hreceive, hserves', hfilling', hadvances⟩ := hfilling.receive hserves
    rw [hreceive]
    exact ⟨hserves', hfilling', .inl hadvances, .inr rfl⟩
  | settling count =>
    obtain ⟨fills, hflight, hfilling⟩ := h
    cases fills with
    | nil =>
      cases hflight
      exact ⟨hserves, ⟨rfl, hfilling⟩, .inl (.refl d _), .inr rfl⟩
    | cons fill fills =>
      cases hflight
      obtain ⟨owner', hreceive, hserves', hfilling', hadvances⟩ := hfilling.receive hserves
      rw [hreceive]
      exact ⟨hserves', ⟨fills, rfl, hfilling'⟩, .inl hadvances, .inr rfl⟩

end ScanStage

end Reclaim
