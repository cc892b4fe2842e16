import Mathlib
import Reclaim.App.Inventory

/-!
# The list of applications and its owner

While the applications that have been listed are measured, any of them may go, and measurements come
in the order in which they end.  All of this goes through the owner of the list.  What the commands
do to one application does not touch the others: a fill changes the application it names, wherever
it is, and a removal takes it away for good.  So the list in the end is told from the commands, and
the order in which they came does not matter if no application is filled twice.

## Main definitions

* `AppRecord.absorb`, `AppRecord.absorbAll` : what commands make of one application.
* `AppCommand.filledId?` : the application that a command fills.

## Main results

* `AppOwner.records_receive`, `AppOwner.records_receiveAll` : the list after one and after all of
  some commands.
* `AppOwner.published_receiveAll` : what is published is the list.
* `AppOwner.receiveAll_order_free` : the order of the commands does not matter.
* `Inventory.records_scan` : nor does the order in which the measurements of a scan end.
-/

namespace Reclaim

/-- The application that a command fills. -/
def AppCommand.filledId? : AppCommand → Option AppId
  | .fill id _ _ => some id
  | _ => none

/-- Some commands fill an application if one of them is its fill. -/
theorem AppCommand.mem_filterMap_filledId?_iff {commands : List AppCommand} {id : AppId} :
    id ∈ commands.filterMap filledId? ↔ ∃ icon sizeBytes, .fill id icon sizeBytes ∈ commands := by
  rw [List.mem_filterMap]
  constructor
  · rintro ⟨c, hc, hid⟩
    cases c with
    | fill id' icon sizeBytes =>
      obtain rfl := Option.some.inj hid
      exact ⟨icon, sizeBytes, hc⟩
    | populate => cases hid
    | remove => cases hid
    | barrier => cases hid
  · rintro ⟨icon, sizeBytes, hfill⟩
    exact ⟨_, hfill, rfl⟩

/-! ### One application -/

namespace AppRecord

variable {r : AppRecord} {c : AppCommand} {commands : List AppCommand}

/-- What a command that does not take an application away makes of it. -/
def absorb (r : AppRecord) : AppCommand → AppRecord
  | .fill id icon sizeBytes => if r.id = id then AppList.fillRecord icon sizeBytes r else r
  | _ => r

/-- What some commands make of an application that they do not take away. -/
def absorbAll (r : AppRecord) (commands : List AppCommand) : AppRecord :=
  commands.foldl absorb r

@[simp] theorem absorbAll_nil (r : AppRecord) : r.absorbAll [] = r := rfl

@[simp] theorem absorbAll_cons (r : AppRecord) (c : AppCommand) (commands : List AppCommand) :
    r.absorbAll (c :: commands) = (r.absorb c).absorbAll commands := rfl

/-- A command leaves the identity of an application, its name and its path. -/
theorem absorb_same (r : AppRecord) (c : AppCommand) :
    (r.absorb c).id = r.id ∧ (r.absorb c).name = r.name ∧ (r.absorb c).path = r.path := by
  cases c with
  | fill id icon sizeBytes =>
    rw [absorb]
    split <;> exact ⟨rfl, rfl, rfl⟩
  | populate => exact ⟨rfl, rfl, rfl⟩
  | remove => exact ⟨rfl, rfl, rfl⟩
  | barrier => exact ⟨rfl, rfl, rfl⟩

@[simp] theorem id_absorb (r : AppRecord) (c : AppCommand) : (r.absorb c).id = r.id :=
  (r.absorb_same c).1

theorem absorbAll_same (r : AppRecord) (commands : List AppCommand) :
    (r.absorbAll commands).id = r.id ∧ (r.absorbAll commands).name = r.name ∧
      (r.absorbAll commands).path = r.path := by
  induction commands generalizing r with
  | nil => exact ⟨rfl, rfl, rfl⟩
  | cons c commands ih =>
    obtain ⟨hid, hname, hpath⟩ := r.absorb_same c
    obtain ⟨hid', hname', hpath'⟩ := ih (r.absorb c)
    exact ⟨hid'.trans hid, hname'.trans hname, hpath'.trans hpath⟩

@[simp] theorem id_absorbAll (r : AppRecord) (commands : List AppCommand) :
    (r.absorbAll commands).id = r.id :=
  (r.absorbAll_same commands).1

theorem absorb_eq_self (h : c.filledId? ≠ some r.id) : r.absorb c = r := by
  cases c with
  | fill id icon sizeBytes => exact if_neg fun heq => h (congrArg some heq.symm)
  | populate => rfl
  | remove => rfl
  | barrier => rfl

/-- An application that no command fills stays as it is. -/
theorem absorbAll_eq_self (h : r.id ∉ commands.filterMap AppCommand.filledId?) :
    r.absorbAll commands = r := by
  induction commands with
  | nil => rfl
  | cons c commands ih =>
    simp only [List.mem_filterMap, List.exists_mem_cons_iff, not_or] at h ih
    rw [absorbAll_cons, absorb_eq_self h.1, ih h.2]

/-- An application that is filled once is as it was filled, whenever that was. -/
theorem absorbAll_eq_fillRecord (honce : (commands.filterMap AppCommand.filledId?).Nodup)
    {icon : Option Path} {sizeBytes : Option Nat} (h : .fill r.id icon sizeBytes ∈ commands) :
    r.absorbAll commands = AppList.fillRecord icon sizeBytes r := by
  induction commands with
  | nil => cases h
  | cons c commands ih =>
    rw [absorbAll_cons]
    rcases List.mem_cons.mp h with rfl | hlater
    · have hfill : r.absorb (.fill r.id icon sizeBytes) = AppList.fillRecord icon sizeBytes r :=
        if_pos rfl
      rw [hfill]
      exact absorbAll_eq_self (List.nodup_cons.mp honce).1
    · have hfilled : r.id ∈ commands.filterMap AppCommand.filledId? :=
        AppCommand.mem_filterMap_filledId?_iff.mpr ⟨icon, sizeBytes, hlater⟩
      have hother : c.filledId? ≠ some r.id := by
        intro hsame
        rw [List.filterMap_cons_some hsame] at honce
        exact (List.nodup_cons.mp honce).1 hfilled
      rw [absorb_eq_self hother]
      refine ih (honce.sublist ?_) hlater
      exact (List.sublist_cons_self c commands).filterMap _

/-- The order in which an application is filled and others are does not matter. -/
theorem absorbAll_perm (honce : (commands.filterMap AppCommand.filledId?).Nodup)
    {order : List AppCommand} (horder : order.Perm commands) (r : AppRecord) :
    r.absorbAll order = r.absorbAll commands := by
  have hfilled := horder.filterMap AppCommand.filledId?
  by_cases h : r.id ∈ commands.filterMap AppCommand.filledId?
  · obtain ⟨icon, sizeBytes, hfill⟩ := AppCommand.mem_filterMap_filledId?_iff.mp h
    rw [absorbAll_eq_fillRecord honce hfill,
      absorbAll_eq_fillRecord (hfilled.nodup_iff.mpr honce) (horder.mem_iff.mpr hfill)]
  · rw [absorbAll_eq_self h, absorbAll_eq_self (mt hfilled.mem_iff.mp h)]

end AppRecord

/-! ### The whole list -/

namespace AppList

variable {id : AppId} {records : List AppRecord}

theorem find?_eq_none_iff : find? id records = none ↔ id ∉ records.map AppRecord.id := by
  simp [find?, List.find?_eq_none]

theorem find?_eq_some_of_mem (honce : (records.map AppRecord.id).Nodup) {r : AppRecord}
    (h : r ∈ records) : find? r.id records = some r := by
  cases hfind : find? r.id records with
  | none => exact absurd (List.mem_map.mpr ⟨r, h, rfl⟩) (find?_eq_none_iff.mp hfind)
  | some r' =>
    rw [find?] at hfind
    have hid : r'.id = r.id := by simpa using List.find?_some hfind
    rw [List.inj_on_of_nodup_map honce (List.mem_of_find?_eq_some hfind) h hid]

theorem updateFirst_eq_map (honce : (records.map AppRecord.id).Nodup)
    (change : AppRecord → AppRecord) : updateFirst id change records =
      records.map fun r => if r.id = id then change r else r := by
  induction records with
  | nil => rfl
  | cons r records ih =>
    rw [List.map_cons, List.nodup_cons] at honce
    rw [updateFirst, List.map_cons]
    by_cases hid : r.id = id
    · have hrest : (records.map fun r => if r.id = id then change r else r) = records := by
        refine (List.map_congr_left fun r' hr' => if_neg fun hsame => ?_).trans
          (List.map_id' records)
        exact honce.1 (List.mem_map.mpr ⟨r', hr', hsame.trans hid.symm⟩)
      rw [if_pos hid, if_pos hid, hrest]
    · rw [if_neg hid, if_neg hid, ih honce.2]

theorem eraseP_eq_filter (honce : (records.map AppRecord.id).Nodup) :
    (records.eraseP fun r => r.id == id) = records.filter fun r => id ≠ r.id := by
  induction records with
  | nil => rfl
  | cons r records ih =>
    rw [List.map_cons, List.nodup_cons] at honce
    by_cases hid : r.id = id
    · rw [List.eraseP_cons_of_pos (by simpa using hid), List.filter_cons_of_neg (by simp [hid])]
      refine (List.filter_eq_self.mpr fun r' hr' => ?_).symm
      rw [decide_eq_true_eq]
      intro hsame
      exact honce.1 (List.mem_map.mpr ⟨r', hr', hsame.symm.trans hid.symm⟩)
    · rw [List.eraseP_cons_of_neg (by simpa using hid),
        List.filter_cons_of_pos (by simpa using Ne.symm hid), ih honce.2]

end AppList

namespace AppOwner

variable {owner : AppOwner} {c : AppCommand} {commands : List AppCommand} {R : List AppRecord}

@[simp] theorem receiveAll_nil (owner : AppOwner) : owner.receiveAll [] = owner := rfl

@[simp] theorem receiveAll_cons (owner : AppOwner) (c : AppCommand) (commands : List AppCommand) :
    owner.receiveAll (c :: commands) = (owner.receive c).2.receiveAll commands := rfl

theorem receiveAll_append (owner : AppOwner) (commands later : List AppCommand) :
    owner.receiveAll (commands ++ later) = (owner.receiveAll commands).receiveAll later :=
  List.foldl_append

/-- Once the list is there, a command takes away the application it removes and fills the one it
fills. -/
theorem records_receive (honce : (owner.records.map AppRecord.id).Nodup)
    (hchange : ∀ fresh, c ≠ .populate fresh) : (owner.receive c).2.records =
      (owner.records.filter fun r => c ≠ .remove r.id).map fun r => r.absorb c := by
  cases c with
  | populate fresh => exact absurd rfl (hchange fresh)
  | fill id icon sizeBytes =>
    have hall : (owner.records.filter fun r => AppCommand.fill id icon sizeBytes ≠ .remove r.id) =
        owner.records := by simp
    rw [hall, receive]
    cases hfind : AppList.find? id owner.records with
    | some r => exact AppList.updateFirst_eq_map honce _
    | none =>
      have hmissing := AppList.find?_eq_none_iff.mp hfind
      refine ((List.map_congr_left fun r hr => ?_).trans (List.map_id owner.records)).symm
      refine AppRecord.absorb_eq_self fun hsame => hmissing ?_
      exact List.mem_map.mpr ⟨r, hr, (Option.some.inj hsame).symm⟩
  | remove id =>
    have hkept : (owner.records.filter fun r => AppCommand.remove id ≠ .remove r.id) =
        owner.records.filter fun r => id ≠ r.id := by simp
    have hsame : ∀ records : List AppRecord,
        (records.map fun r => r.absorb (.remove id)) = records := List.map_id
    rw [hkept, hsame, receive]
    cases hfind : AppList.find? id owner.records with
    | some r => exact AppList.eraseP_eq_filter honce
    | none =>
      have hmissing := AppList.find?_eq_none_iff.mp hfind
      refine (List.filter_eq_self.mpr fun r hr => ?_).symm
      rw [decide_eq_true_eq]
      intro hsame
      exact hmissing (List.mem_map.mpr ⟨r, hr, hsame.symm⟩)
  | barrier => simp [receive, AppRecord.absorb]

theorem nodup_receive (honce : (owner.records.map AppRecord.id).Nodup)
    (hchange : ∀ fresh, c ≠ .populate fresh) :
    ((owner.receive c).2.records.map AppRecord.id).Nodup := by
  rw [records_receive honce hchange, List.map_map]
  refine honce.sublist ?_
  have hids : AppRecord.id ∘ (fun r => r.absorb c) = AppRecord.id := funext fun r => r.id_absorb c
  rw [hids]
  exact List.filter_sublist.map _

/-- The list after some commands: what they remove is gone, and what they fill is filled. -/
theorem records_receiveAll (honce : (owner.records.map AppRecord.id).Nodup)
    (hchanges : ∀ fresh, .populate fresh ∉ commands) : (owner.receiveAll commands).records =
      (owner.records.filter fun r => .remove r.id ∉ commands).map fun r =>
        r.absorbAll commands := by
  induction commands generalizing owner with
  | nil => simp
  | cons c commands ih =>
    have hchange : ∀ fresh, c ≠ .populate fresh := fun fresh hsame =>
      hchanges fresh (hsame ▸ List.mem_cons_self)
    have hrest : ∀ fresh, .populate fresh ∉ commands := fun fresh hmem =>
      hchanges fresh (List.mem_cons_of_mem c hmem)
    -- the other commands find the list that the first one leaves, with the same identities
    rw [receiveAll_cons, ih (nodup_receive honce hchange) hrest, records_receive honce hchange,
      List.filter_map, List.map_map, List.filter_filter]
    refine congrArg (List.map _) (List.filter_congr fun r _ => ?_)
    simp [AppRecord.id_absorb, Bool.and_comm, @eq_comm _ c]

/-- After some commands the applications are listed that they did not remove. -/
theorem map_id_receiveAll (honce : (owner.records.map AppRecord.id).Nodup)
    (hchanges : ∀ fresh, .populate fresh ∉ commands) :
    (owner.receiveAll commands).records.map AppRecord.id =
      (owner.records.map AppRecord.id).filter fun id => .remove id ∉ commands := by
  have hids : AppRecord.id ∘ (fun r => r.absorbAll commands) = AppRecord.id :=
    funext fun r => r.id_absorbAll commands
  rw [records_receiveAll honce hchanges, List.map_map, hids, List.filter_map]
  rfl

/-- What is published is the list, at every time. -/
theorem published_receive (h : owner.published.value = owner.records) (c : AppCommand) :
    (owner.receive c).2.published.value = (owner.receive c).2.records := by
  cases c with
  | populate fresh =>
    rw [receive]
    split
    · rfl
    · exact h
  | fill id icon sizeBytes =>
    rw [receive]
    split
    · rfl
    · exact h
  | remove id =>
    rw [receive]
    split
    · rfl
    · exact h
  | barrier => exact h

theorem published_receiveAll (h : owner.published.value = owner.records)
    (commands : List AppCommand) :
    (owner.receiveAll commands).published.value = (owner.receiveAll commands).records := by
  induction commands generalizing owner with
  | nil => exact h
  | cons c commands ih => exact ih (published_receive h c)

/-- The order of the commands does not matter to the list. -/
theorem records_receiveAll_perm (honce : (owner.records.map AppRecord.id).Nodup)
    (hchanges : ∀ fresh, .populate fresh ∉ commands)
    (hfills : (commands.filterMap AppCommand.filledId?).Nodup) {order : List AppCommand}
    (horder : order.Perm commands) :
    (owner.receiveAll order).records = (owner.receiveAll commands).records := by
  have hremoved : (owner.records.filter fun r => .remove r.id ∉ order) =
      owner.records.filter fun r => .remove r.id ∉ commands :=
    List.filter_congr fun r _ => decide_eq_decide.mpr (not_congr horder.mem_iff)
  rw [records_receiveAll honce hchanges, records_receiveAll honce fun fresh hmem =>
    hchanges fresh (horder.mem_iff.mp hmem), hremoved]
  exact List.map_congr_left fun r _ => AppRecord.absorbAll_perm hfills horder r

/-- A list that is there is not replaced. -/
theorem receive_populate (h : owner.records ≠ []) (fresh : List AppRecord) :
    owner.receive (.populate fresh) = (.populated false, owner) :=
  if_neg (mt List.isEmpty_iff.mp h)

theorem receive_populate_of_nil (h : owner.records = []) (fresh : List AppRecord) :
    owner.receive (.populate fresh) = (.populated true, owner.publish fresh) :=
  if_pos (List.isEmpty_iff.mpr h)

/-- A fill of an application that is not listed changes nothing. -/
theorem receive_fill_of_notMem {id : AppId} (h : id ∉ owner.records.map AppRecord.id)
    (icon : Option Path) (sizeBytes : Option Nat) :
    (owner.receive (.fill id icon sizeBytes)).2 = owner := by
  rw [receive, AppList.find?_eq_none_iff.mpr h]

/-- The answer to a removal is the listed application with the identity. -/
theorem receive_remove_fst (owner : AppOwner) (id : AppId) :
    (owner.receive (.remove id)).1 = .removed (AppList.find? id owner.records) := by
  rw [receive]
  split
  next r hfind => rw [hfind]
  next hfind => rw [hfind]

/-- The list of an owner that began with some applications. -/
theorem records_receiveAll_populate (honce : (R.map AppRecord.id).Nodup)
    (hchanges : ∀ fresh, .populate fresh ∉ commands) :
    (({} : AppOwner).receiveAll (.populate R :: commands)).records =
      (R.filter fun r => .remove r.id ∉ commands).map fun r => r.absorbAll commands := by
  rw [receiveAll_cons]
  exact records_receiveAll honce hchanges

theorem map_id_receiveAll_populate (honce : (R.map AppRecord.id).Nodup)
    (hchanges : ∀ fresh, .populate fresh ∉ commands) :
    (({} : AppOwner).receiveAll (.populate R :: commands)).records.map AppRecord.id =
      (R.map AppRecord.id).filter fun id => .remove id ∉ commands := by
  rw [receiveAll_cons]
  exact map_id_receiveAll honce hchanges

/-- **The order of the commands does not matter.** The owner begins with applications of different
identities and receives fills and removals, with no application filled twice.  In whatever order
they come, the list in the end is the same: the applications that no removal named, in their old
order and with what was filled in.  What is published is the list at every time.  After its removal
an application does not come back, a fill of it changes nothing, and no further removal gives it;
the first one does.  A list that is there is not replaced. -/
theorem receiveAll_order_free (honce : (R.map AppRecord.id).Nodup)
    (hchanges : ∀ fresh, .populate fresh ∉ commands)
    (hfills : (commands.filterMap AppCommand.filledId?).Nodup) :
    (∀ order, order.Perm commands →
      (({} : AppOwner).receiveAll (.populate R :: order)).records =
        (R.filter fun r => .remove r.id ∉ commands).map fun r => r.absorbAll commands) ∧
    (∀ r : AppRecord, (r.absorbAll commands).id = r.id ∧ (r.absorbAll commands).name = r.name ∧
      (r.absorbAll commands).path = r.path ∧
      (∀ icon sizeBytes, .fill r.id icon sizeBytes ∈ commands → r.absorbAll commands =
        { r with icon, sizeBytes, size := (sizeBytes.map Amount.size).getD "Unknown" }) ∧
      ((∀ icon sizeBytes, .fill r.id icon sizeBytes ∉ commands) → r.absorbAll commands = r)) ∧
    (∀ all : List AppCommand,
      (({} : AppOwner).receiveAll all).published.value =
        (({} : AppOwner).receiveAll all).records) ∧
    (∀ before later, (before ++ later).Perm commands →
      let owner := ({} : AppOwner).receiveAll (.populate R :: before)
      (∀ id, .remove id ∈ before → id ∉ owner.records.map AppRecord.id) ∧
      (∀ id icon sizeBytes, (.remove id ∈ before ∨ id ∉ R.map AppRecord.id) →
        (owner.receive (.fill id icon sizeBytes)).2 = owner) ∧
      (∀ id, (.remove id ∈ before ∨ id ∉ R.map AppRecord.id) →
        (owner.receive (.remove id)).1 = .removed none) ∧
      (∀ r ∈ R, .remove r.id ∉ before →
        (owner.receive (.remove r.id)).1 = .removed (some (r.absorbAll before)))) ∧
    ∀ owner : AppOwner, owner.records ≠ [] → ∀ fresh,
      owner.receive (.populate fresh) = (.populated false, owner) := by
  refine ⟨?_, ?_, fun all => published_receiveAll rfl all, ?_, fun owner h fresh =>
    receive_populate h fresh⟩
  · intro order horder
    rw [receiveAll_cons, records_receiveAll_perm honce hchanges hfills horder]
    exact records_receiveAll honce hchanges
  · intro r
    obtain ⟨hid, hname, hpath⟩ := r.absorbAll_same commands
    refine ⟨hid, hname, hpath, ?_, ?_⟩
    · exact fun icon sizeBytes hfill => AppRecord.absorbAll_eq_fillRecord hfills hfill
    · intro hnone
      refine AppRecord.absorbAll_eq_self fun hfilled => ?_
      obtain ⟨icon, sizeBytes, hfill⟩ := AppCommand.mem_filterMap_filledId?_iff.mp hfilled
      exact hnone icon sizeBytes hfill
  · intro before later horder owner
    have hbefore : ∀ fresh, .populate fresh ∉ before := fun fresh hmem =>
      hchanges fresh (horder.mem_iff.mp (List.mem_append_left later hmem))
    have hrecords : owner.records =
        (R.filter fun r => .remove r.id ∉ before).map fun r => r.absorbAll before :=
      records_receiveAll_populate honce hbefore
    have hids : owner.records.map AppRecord.id =
        (R.map AppRecord.id).filter fun id => .remove id ∉ before :=
      map_id_receiveAll_populate honce hbefore
    have hgone : ∀ id, (.remove id ∈ before ∨ id ∉ R.map AppRecord.id) →
        id ∉ owner.records.map AppRecord.id := by
      intro id h hlisted
      rw [hids, List.mem_filter, decide_eq_true_eq] at hlisted
      exact h.elim hlisted.2 fun hunknown => hunknown hlisted.1
    refine ⟨fun id h => hgone id (.inl h), ?_, ?_, ?_⟩
    · exact fun id icon sizeBytes h => receive_fill_of_notMem (hgone id h) icon sizeBytes
    · intro id h
      rw [receive_remove_fst, AppList.find?_eq_none_iff.mpr (hgone id h)]
    · intro r hr hkept
      have hlisted : r.absorbAll before ∈ owner.records := by
        rw [hrecords]
        exact List.mem_map.mpr ⟨r, List.mem_filter.mpr ⟨hr, decide_eq_true hkept⟩, rfl⟩
      have hdistinct : (owner.records.map AppRecord.id).Nodup := hids ▸ honce.filter _
      have hfind := AppList.find?_eq_some_of_mem hdistinct hlisted
      rw [AppRecord.id_absorbAll] at hfind
      rw [receive_remove_fst, hfind]

/-- Two applications. -/
def pair : List AppRecord :=
  [{ id := ⟨1⟩, name := "a", path := ⟨"/a.app"⟩ }, { id := ⟨2⟩, name := "b", path := ⟨"/b.app"⟩ }]

/-- One of them is filled, and the other goes while it is. -/
def pairCommands : List AppCommand :=
  [.fill ⟨1⟩ (some ⟨"/i"⟩) none, .remove ⟨2⟩, .fill ⟨2⟩ none none, .remove ⟨2⟩, .fill ⟨3⟩ none none]

/-- The list of the two applications in the end, with the commands in the opposite order. -/
theorem receiveAll_order_free_pair : (pair.map AppRecord.id).Nodup ∧
    (∀ fresh, .populate fresh ∉ pairCommands) ∧
    (pairCommands.filterMap AppCommand.filledId?).Nodup ∧
    (({} : AppOwner).receiveAll (.populate pair :: pairCommands.reverse)).records =
      [{ id := ⟨1⟩, name := "a", path := ⟨"/a.app"⟩, icon := some ⟨"/i"⟩, size := "Unknown" }] := by
  have honce : (pair.map AppRecord.id).Nodup := by decide
  have hchanges : ∀ fresh, .populate fresh ∉ pairCommands := by simp [pairCommands]
  have hfills : (pairCommands.filterMap AppCommand.filledId?).Nodup := by decide
  have horder := (receiveAll_order_free honce hchanges hfills).1 _ (List.reverse_perm pairCommands)
  exact ⟨honce, hchanges, hfills, horder.trans (by decide)⟩

end AppOwner

/-! ### Scanning -/

namespace AppRecord

theorem le_number_of_mem_ofBundles {first : Nat} {paths : List Path} {r : AppRecord}
    (h : r ∈ ofBundles first paths) : first ≤ r.id.number := by
  induction paths generalizing first with
  | nil => cases h
  | cons path paths ih =>
    rw [ofBundles] at h
    cases hbundle : ofBundle? ⟨first⟩ path with
    | none =>
      rw [hbundle] at h
      exact ih h
    | some record =>
      rw [hbundle] at h
      rcases List.mem_cons.mp h with rfl | hlater
      · obtain ⟨name, -, rfl⟩ := Option.map_eq_some_iff.mp hbundle
        exact Nat.le_refl first
      · exact (Nat.le_succ first).trans (ih hlater)

/-- The bundles of a directory are numbered one after the other. -/
theorem nodup_ofBundles (first : Nat) (paths : List Path) :
    ((ofBundles first paths).map AppRecord.id).Nodup := by
  induction paths generalizing first with
  | nil => exact List.nodup_nil
  | cons path paths ih =>
    rw [ofBundles]
    cases hbundle : ofBundle? ⟨first⟩ path with
    | none => exact ih first
    | some record =>
      obtain ⟨name, -, rfl⟩ := Option.map_eq_some_iff.mp hbundle
      refine List.nodup_cons.mpr ⟨fun hmem => ?_, ih (first + 1)⟩
      obtain ⟨r, hr, hid⟩ := List.mem_map.mp hmem
      have hnumber := le_number_of_mem_ofBundles hr
      rw [hid] at hnumber
      exact Nat.not_succ_le_self first hnumber

theorem nodup_listFolder {first : Nat} {dir : Path} {d : Disk} {records : List AppRecord}
    (h : listFolder first dir d = .ok records) : (records.map AppRecord.id).Nodup := by
  rw [listFolder] at h
  split at h
  · cases h
  · cases h
    exact ((List.mergeSort_perm _ _).map AppRecord.id).nodup_iff.mpr (nodup_ofBundles first _)

end AppRecord

/-! ### Scans and removals -/

namespace Inventory

variable {v : Inventory} {d : Disk} {records : List AppRecord}

/-- A scan that sees applications counts them. -/
theorem scan_of_ne_nil (hsome : v.apps.value ≠ []) (d : Disk) :
    v.scan d = (.ok v.apps.value.length, v) :=
  if_neg (mt List.isEmpty_iff.mp hsome)

/-- A scan that cannot list the directory leaves everything as it was. -/
theorem scan_of_error (hseen : v.apps.value = []) {e : AppError}
    (hlist : AppRecord.listFolder v.nextId v.dir d = .error e) : v.scan d = (.error e, v) := by
  simp only [scan, hseen, hlist, List.isEmpty_nil, if_true]

/-- A scan whose list is taken fills in what it measures. -/
theorem scan_of_ok (hrunning : v.running = true) (hseen : v.apps.value = [])
    (hempty : v.owner.records = []) (hlist : AppRecord.listFolder v.nextId v.dir d = .ok records) :
    v.scan d = (.ok records.length,
      { v with
        owner := (v.owner.publish records).receiveAll (records.map (measure d))
        nextId := v.nextId + records.length }) := by
  have hsend : v.send (.populate records) =
      .ok (.populated true, { v with owner := v.owner.publish records }) := by
    rw [send, if_pos hrunning, AppOwner.receive_populate_of_nil hempty]
  simp only [scan, hseen, hlist, hsend, List.isEmpty_nil, if_true, AppOwner.receiveAll_append]
  rfl

/-- An owner that has stopped takes no list. -/
theorem scan_of_stopped (hstopped : v.running = false) (hseen : v.apps.value = [])
    (hlist : AppRecord.listFolder v.nextId v.dir d = .ok records) :
    v.scan d = (.error (.other "app inventory is no longer running"), v) := by
  simp [scan, hseen, hlist, send, hstopped]

/-- An owner that has stopped lets no application go. -/
theorem withdraw_of_stopped (hstopped : v.running = false) (id : AppId) :
    v.withdraw id = .error (.other "app inventory is no longer running") := by
  simp [withdraw, send, hstopped, bind, Except.bind]

/-- The removal of an application is for the owner alone. -/
theorem withdraw_of_running (hrunning : v.running = true) (id : AppId) :
    ∃ gone, v.withdraw id = .ok (gone, { v with owner := (v.owner.receive (.remove id)).2 }) := by
  have hsend : v.send (.remove id) = .ok ((v.owner.receive (.remove id)).1,
      { v with owner := (v.owner.receive (.remove id)).2 }) := if_pos hrunning
  simp only [withdraw, hsend, bind, Except.bind]
  cases (v.owner.receive (.remove id)).1 <;> exact ⟨_, rfl⟩

theorem remove_snd (hrunning : v.running = true) (id : AppId) :
    (v.remove id).2 = { v with owner := (v.owner.receive (.remove id)).2 } := by
  obtain ⟨gone, hgone⟩ := withdraw_of_running hrunning id
  rw [remove, hgone]

theorem remove_of_stopped (hstopped : v.running = false) (id : AppId) :
    v.remove id = (none, v) := by
  rw [remove, withdraw_of_stopped hstopped]

/-- What a scan measures offers no list. -/
theorem populate_notMem_measure (fresh : List AppRecord) :
    .populate fresh ∉ records.map (measure d) := by
  simp [measure]

/-- What a scan measures fills each application once. -/
theorem nodup_filledIds_measure (honce : (records.map AppRecord.id).Nodup) :
    ((records.map (measure d)).filterMap AppCommand.filledId?).Nodup := by
  have hids : records.filterMap (AppCommand.filledId? ∘ measure d) = records.map AppRecord.id :=
    List.filterMap_eq_map_iff_forall_eq_some.mpr fun _ _ => rfl
  rwa [List.filterMap_map, hids]

/-- In whatever order the measurements of a scan end, the list is the one that the scan gives. -/
theorem records_scan (hrunning : v.running = true) (hempty : v.owner.records = [])
    (hseen : v.apps.value = []) (hlist : AppRecord.listFolder v.nextId v.dir d = .ok records)
    {order : List AppCommand} (horder : order.Perm (records.map (measure d))) :
    (v.scan d).2.owner.records =
      (v.owner.receiveAll (.populate records :: order)).records := by
  have honce := AppRecord.nodup_listFolder hlist
  rw [scan_of_ok hrunning hseen hempty hlist, AppOwner.receiveAll_cons,
    AppOwner.receive_populate_of_nil hempty]
  exact (AppOwner.records_receiveAll_perm honce populate_notMem_measure
    (nodup_filledIds_measure honce) horder).symm

end Inventory

end Reclaim
