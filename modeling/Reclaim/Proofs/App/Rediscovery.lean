import Reclaim.Proofs.App.Turns

/-!
# Applications that are discovered again

A scan looks whether a list is there, and so does the owner before it takes one.  Both ask whether
the list is empty.  It is empty before the first scan, and it is empty again when the last
application has been removed, or when a scan has found none.  Then the next list is taken, and
bundles that are still in the directory are seen again, under new identities.  This is the only way
in which anything is added to what is seen.

Identities are followed from where they are given: a list is held by its scan, then it is on its way
to the owner, and then it is what is seen.

## Main definitions

* `Discovery.ids`, `Discovery.pendingIds` : the identities that are seen, and those on their way.
* `Discovery.Refills`, `Discovery.RefilledIn` : an empty list is replaced.
* `Discovery.Kept` : what is so at all times.
* `Discovery.Spent` : an identity that is not on its way any more.

## Main results

* `Discovery.take?_cases` : what one turn does to the identities.
* `Discovery.Kept.take`, `Discovery.Spent.take` : no identity is seen twice or comes back.
* `Discovery.ids_sublist_iff_not_refilledIn` : when nothing is added to what is seen.
-/

namespace Reclaim

/-! ### Identities -/

/-- How often an identity is given while the next one goes from one number to another. -/
def AppId.given (id : AppId) (first last : Nat) : Nat :=
  if first ≤ id.number ∧ id.number < last then 1 else 0

namespace AppRecord

/-- The bundles of a directory are numbered without gaps. -/
theorem number_lt_of_mem_ofBundles {first : Nat} {paths : List Path} {r : AppRecord}
    (h : r ∈ ofBundles first paths) : r.id.number < first + (ofBundles first paths).length := by
  induction paths generalizing first with
  | nil => cases h
  | cons path paths ih =>
    rw [ofBundles] at h ⊢
    cases hbundle : ofBundle? ⟨first⟩ path with
    | none =>
      rw [hbundle] at h
      exact ih h
    | some record =>
      rw [hbundle] at h
      rcases List.mem_cons.mp h with rfl | hlater
      · obtain ⟨name, -, rfl⟩ := Option.map_eq_some_iff.mp hbundle
        simp
      · have hnumber := ih hlater
        simp only [List.length_cons]
        omega

/-- The applications of a listing have identities that are given for it alone, each to one. -/
theorem count_listFolder {first : Nat} {dir : Path} {d : Disk} {records : List AppRecord}
    (h : listFolder first dir d = .ok records) (id : AppId) :
    (records.map AppRecord.id).count id ≤ id.given first (first + records.length) := by
  rw [AppId.given]
  split
  next => exact List.nodup_iff_count_le_one.mp (nodup_listFolder h) id
  next houtside =>
    rw [Nat.le_zero, List.count_eq_zero]
    intro hmem
    obtain ⟨r, hr, rfl⟩ := List.mem_map.mp hmem
    rw [listFolder] at h
    split at h
    next => cases h
    next entries hentries =>
      cases h
      rw [List.mem_mergeSort] at hr
      rw [List.length_mergeSort] at houtside
      exact houtside ⟨le_number_of_mem_ofBundles hr, number_lt_of_mem_ofBundles hr⟩

end AppRecord

/-- The identities that a scan has given to what it has listed and not yet offered. -/
def ScanStage.givenIds : ScanStage → List AppId
  | .listed records => records.map AppRecord.id
  | _ => []

/-- The identities of the list that a command offers. -/
def AppCommand.offeredIds : AppCommand → List AppId
  | .populate records => records.map AppRecord.id
  | _ => []

@[simp] theorem Measurement.offeredIds_command (m : Measurement) : m.command.offeredIds = [] := rfl

/-- A part of a scan gives new identities only. -/
theorem ScanStage.Goes.count_le {fanout : Nat} {v : Inventory} {d : Disk} {stage : ScanStage}
    {move : ScanMove} (h : stage.Goes fanout v d move) (id : AppId) :
    move.stage.givenIds.count id + (move.sent.flatMap AppCommand.offeredIds).count id ≤
      stage.givenIds.count id + id.given v.nextId (v.nextId + move.identities) := by
  cases h with
  | listed hlist => simpa [givenIds] using AppRecord.count_listFolder hlist id
  | offered => simp [givenIds, AppCommand.offeredIds]
  | finished => simp [givenIds, AppCommand.offeredIds]
  | looked | found | unlisted | started | measured | sent | left => simp [givenIds]

theorem ScanStage.givenIds_hear (reply : AppReply) (stage : ScanStage) :
    (stage.hear reply).givenIds = stage.givenIds := by
  obtain h | ⟨records, rfl, h | h⟩ | ⟨count, rfl, h⟩ := hear_cases reply stage <;> rw [h] <;> rfl

namespace AppOwner

variable {owner : AppOwner} {c : AppCommand}

theorem map_id_updateFirst (id : AppId) (change : AppRecord → AppRecord)
    (hchange : ∀ r, (change r).id = r.id) (records : List AppRecord) :
    (AppList.updateFirst id change records).map AppRecord.id = records.map AppRecord.id := by
  induction records with
  | nil => rfl
  | cons r records ih =>
    rw [AppList.updateFirst]
    split
    · rw [List.map_cons, List.map_cons, hchange]
    · rw [List.map_cons, List.map_cons, ih]

/-- A command adds nothing to a list, unless it is the first list. -/
theorem sublist_receive (h : ∀ fresh, c = .populate fresh → owner.records = [] → fresh = []) :
    ((owner.receive c).2.records.map AppRecord.id).Sublist (owner.records.map AppRecord.id) := by
  cases c with
  | populate fresh =>
    by_cases hempty : owner.records = []
    · rw [h fresh rfl hempty, receive, hempty]
      exact List.Sublist.refl []
    · rw [receive_populate hempty]
  | fill id icon sizeBytes =>
    rw [receive]
    split
    next =>
      have hids := map_id_updateFirst id (AppList.fillRecord icon sizeBytes) (fun _ => rfl)
        owner.records
      exact hids ▸ List.Sublist.refl _
    next => exact List.Sublist.refl _
  | remove id =>
    rw [receive]
    split
    next => exact List.eraseP_sublist.map _
    next => exact List.Sublist.refl _
  | barrier => exact List.Sublist.refl _

end AppOwner

namespace Discovery

variable {s s' t : Discovery} {i : Nat} {stage : ScanStage} {move : ScanMove}
  {letter : Letter} {rest : List Letter} {turn : DiscoveryTurn} {turns : List DiscoveryTurn}
  {id : AppId}

/-- The identities of lists that the owner has not yet taken. -/
def pendingIds (s : Discovery) : List AppId :=
  s.scans.flatMap ScanStage.givenIds ++ s.mailbox.flatMap fun letter => letter.command.offeredIds

/-- The identities of the applications that are seen. -/
def ids (s : Discovery) : List AppId :=
  s.inventory.apps.value.map AppRecord.id

/-- What a part of a scan does to the identities on their way. -/
theorem count_pendingIds_advance (hstage : s.scans[i]? = some stage) (move : ScanMove)
    (id : AppId) : (s.advance i move).pendingIds.count id + stage.givenIds.count id =
      s.pendingIds.count id + move.stage.givenIds.count id +
        (move.sent.flatMap AppCommand.offeredIds).count id := by
  obtain ⟨front, back, hscans, hset⟩ := exists_set_eq hstage
  have hsent : (move.sent.map fun command => Letter.mk (some i) command).flatMap
      (fun letter => letter.command.offeredIds) = move.sent.flatMap AppCommand.offeredIds := by
    rw [List.flatMap_map]
  simp only [pendingIds, advance, hset, List.flatMap_append, List.flatMap_cons, hsent,
    List.count_append]
  simp only [hscans, List.flatMap_append, List.flatMap_cons, List.count_append]
  omega

/-- What the owner has taken is not on its way any more. -/
theorem count_pendingIds_deliver (hmailbox : s.mailbox = letter :: rest) (id : AppId) :
    (s.deliver letter rest).pendingIds.count id + letter.command.offeredIds.count id =
      s.pendingIds.count id := by
  have hgiven : (s.deliver letter rest).scans.flatMap ScanStage.givenIds =
      s.scans.flatMap ScanStage.givenIds := by
    obtain hsame | ⟨i, stage, hstage, hheard⟩ := scans_deliver_cases s letter rest
    · rw [hsame]
    · obtain ⟨front, back, hscans, hset⟩ := exists_set_eq hstage
      rw [hheard, hset, hscans]
      simp only [List.flatMap_append, List.flatMap_cons, ScanStage.givenIds_hear]
  rw [pendingIds, hgiven, pendingIds, hmailbox]
  simp only [deliver, List.flatMap_cons, List.count_append]
  omega

theorem nextId_advance (s : Discovery) (i : Nat) (move : ScanMove) :
    (s.advance i move).inventory.nextId = s.inventory.nextId + move.identities := rfl

/-- A part of a scan puts new identities on their way only. -/
theorem count_pendingIds_advance_le (hstage : s.scans[i]? = some stage)
    (hmove : stage.Goes s.fanout s.inventory s.disk move) (id : AppId) :
    (s.advance i move).pendingIds.count id ≤ s.pendingIds.count id +
      id.given s.inventory.nextId (s.advance i move).inventory.nextId := by
  have hcount := count_pendingIds_advance hstage move id
  have hnew := hmove.count_le id
  rw [nextId_advance]
  omega

/-! ### What is seen -/

/-- The owner, whose list is empty, is about to take a list with applications. -/
def Refills (s : Discovery) : DiscoveryTurn → Prop
  | .receive => s.inventory.owner.records = [] ∧ ∃ sender records rest,
      s.mailbox = ⟨sender, .populate records⟩ :: rest ∧ records ≠ []
  | _ => False

/-- Somewhere on the way an empty list is replaced by one with applications. -/
def RefilledIn (s : Discovery) : List DiscoveryTurn → Prop
  | [] => False
  | turn :: turns => s.Refills turn ∨ ∃ t, s.take? turn = some t ∧ t.RefilledIn turns

theorem seen_deliver (hseen : s.inventory.apps.value = s.inventory.owner.records) :
    (s.deliver letter rest).inventory.apps.value =
      (s.deliver letter rest).inventory.owner.records :=
  AppOwner.published_receive hseen letter.command

/-- Unless it is taken for an empty list, what the owner takes adds nothing to what is seen. -/
theorem sublist_ids_deliver (hseen : s.inventory.apps.value = s.inventory.owner.records)
    (hmailbox : s.mailbox = letter :: rest) (hkept : ¬s.Refills .receive) :
    (s.deliver letter rest).ids.Sublist s.ids := by
  rw [ids, ids, seen_deliver hseen, hseen]
  refine AppOwner.sublist_receive fun fresh hfresh hempty => ?_
  by_contra hsome
  exact hkept ⟨hempty, letter.sender, fresh, rest, by rw [hmailbox, ← hfresh], hsome⟩

/-- What an empty list is replaced by was on its way. -/
theorem ids_deliver_of_refills (hseen : s.inventory.apps.value = s.inventory.owner.records)
    (hmailbox : s.mailbox = letter :: rest) (hrefills : s.Refills .receive) :
    s.ids = [] ∧ (s.deliver letter rest).ids ≠ [] ∧
      (s.deliver letter rest).ids = letter.command.offeredIds := by
  obtain ⟨hempty, sender, records, rest', hletter, hsome⟩ := hrefills
  rw [hmailbox, List.cons.injEq] at hletter
  have hreceived : (s.deliver letter rest).inventory.owner.records = records := by
    rw [hletter.1]
    simp only [deliver, AppOwner.receive, hempty]
    rfl
  have hids : (s.deliver letter rest).ids = records.map AppRecord.id := by
    rw [ids, seen_deliver hseen, hreceived]
  refine ⟨by rw [ids, hseen, hempty, List.map_nil], by simpa [hids] using hsome, ?_⟩
  rw [hids, hletter.1]
  rfl

/-- What one turn does.  Either nothing new is seen and new identities alone are on their way, or
what is seen now was on its way and nothing was seen before. -/
theorem take?_cases (hseen : s.inventory.apps.value = s.inventory.owner.records)
    (h : s.take? turn = some s') :
    s'.inventory.apps.value = s'.inventory.owner.records ∧
    s.inventory.nextId ≤ s'.inventory.nextId ∧
    (¬s.Refills turn ∧ s'.ids.Sublist s.ids ∧ (∀ id, s'.pendingIds.count id ≤
        s.pendingIds.count id + id.given s.inventory.nextId s'.inventory.nextId) ∨
      s.Refills turn ∧ s.ids = [] ∧ s'.ids ≠ [] ∧
        ∀ id, s'.pendingIds.count id + s'.ids.count id = s.pendingIds.count id) := by
  cases turn with
  | begin =>
    cases h
    refine ⟨hseen, le_rfl, .inl ⟨not_false, List.Sublist.refl _, fun id => ?_⟩⟩
    simp [pendingIds, ScanStage.givenIds]
  | scan i turn =>
    obtain ⟨stage, move, hstage, hturn, rfl⟩ := take?_scan_eq_some_iff.mp h
    refine ⟨hseen, Nat.le_add_right _ _, .inl ⟨not_false, List.Sublist.refl _, ?_⟩⟩
    exact count_pendingIds_advance_le hstage (ScanStage.goes_of_turn? hturn)
  | receive =>
    obtain ⟨letter, rest, hmailbox, rfl⟩ := take?_receive_eq_some_iff.mp h
    refine ⟨seen_deliver hseen, le_rfl, ?_⟩
    have hcount := count_pendingIds_deliver hmailbox
    by_cases hrefills : s.Refills .receive
    · obtain ⟨hempty, hsome, hids⟩ := ids_deliver_of_refills hseen hmailbox hrefills
      exact .inr ⟨hrefills, hempty, hsome, fun id => hids ▸ hcount id⟩
    · refine .inl ⟨hrefills, sublist_ids_deliver hseen hmailbox hrefills, fun id => ?_⟩
      exact (Nat.le_of_add_right_le (hcount id).le).trans (Nat.le_add_right _ _)
  | remove id =>
    cases h
    refine ⟨hseen, le_rfl, .inl ⟨not_false, List.Sublist.refl _, fun id => ?_⟩⟩
    simp [pendingIds, AppCommand.offeredIds]
  | change disk =>
    cases h
    exact ⟨hseen, le_rfl, .inl ⟨not_false, List.Sublist.refl _, fun id => Nat.le_add_right _ _⟩⟩

/-- What is so at all times: what is seen is the list of the owner, and no identity is given to two
applications. -/
structure Kept (s : Discovery) : Prop where
  seen : s.inventory.apps.value = s.inventory.owner.records
  once : ∀ id, s.pendingIds.count id + s.ids.count id ≤ 1
  unused : ∀ id : AppId, s.inventory.nextId ≤ id.number →
    s.pendingIds.count id + s.ids.count id = 0

theorem Kept.take (hkept : s.Kept) (h : s.take? turn = some s') : s'.Kept := by
  obtain ⟨hseen, hnext, hcases⟩ := take?_cases hkept.seen h
  have hbound : ∀ id, s'.pendingIds.count id + s'.ids.count id ≤ s.pendingIds.count id +
      s.ids.count id + id.given s.inventory.nextId s'.inventory.nextId := by
    intro id
    obtain ⟨-, hids, hpending⟩ | ⟨-, -, -, hids⟩ := hcases
    · have hcount := hids.count_le id
      have hcount' := hpending id
      omega
    · have hcount := hids id
      omega
  refine ⟨hseen, fun id => ?_, fun id hnew => ?_⟩
  · have hle := hbound id
    have honce := hkept.once id
    have hzero := hkept.unused id
    rw [AppId.given] at hle
    split at hle <;> omega
  · have hle := hbound id
    have hzero := hkept.unused id (hnext.trans hnew)
    rw [AppId.given, if_neg (by omega)] at hle
    omega

/-- The identity has been given, and it is not on its way to the owner. -/
def Spent (s : Discovery) (id : AppId) : Prop :=
  id.number < s.inventory.nextId ∧ id ∉ s.pendingIds

theorem Kept.spent_of_mem_ids (hkept : s.Kept) (hid : id ∈ s.ids) : s.Spent id := by
  have hpos : 0 < s.ids.count id := List.count_pos_iff.mpr hid
  refine ⟨?_, ?_⟩
  · by_contra hnew
    have hzero := hkept.unused id (Nat.not_lt.mp hnew)
    omega
  · rw [← List.count_eq_zero]
    have honce := hkept.once id
    omega

/-- An identity that is not on its way is not seen again once it has gone. -/
theorem Spent.take (hspent : s.Spent id) (hkept : s.Kept) (h : s.take? turn = some s') :
    s'.Spent id ∧ (id ∈ s'.ids → id ∈ s.ids) := by
  obtain ⟨-, hnext, hcases⟩ := take?_cases hkept.seen h
  have hnone : s.pendingIds.count id = 0 := List.count_eq_zero.mpr hspent.2
  have hold := hspent.1
  obtain ⟨-, hids, hpending⟩ | ⟨-, -, -, hids⟩ := hcases
  · have hle := hpending id
    rw [AppId.given, if_neg (by omega)] at hle
    exact ⟨⟨by omega, List.count_eq_zero.mp (by omega)⟩, fun hmem => hids.subset hmem⟩
  · have hsum := hids id
    refine ⟨⟨by omega, List.count_eq_zero.mp (by omega)⟩, fun hmem => ?_⟩
    have hpos : 0 < s'.ids.count id := List.count_pos_iff.mpr hmem
    omega

/-! ### Many turns -/

theorem Kept.takeAll (hkept : s.Kept) (h : s.takeAll? turns = some t) : t.Kept := by
  induction turns generalizing s with
  | nil =>
    cases h
    exact hkept
  | cons turn turns ih =>
    obtain ⟨u, hu, hrest⟩ := takeAll?_cons_eq_some_iff.mp h
    exact ih (hkept.take hu) hrest

theorem Spent.takeAll (hspent : s.Spent id) (hkept : s.Kept) (h : s.takeAll? turns = some t) :
    t.Spent id ∧ (id ∈ t.ids → id ∈ s.ids) := by
  induction turns generalizing s with
  | nil =>
    cases h
    exact ⟨hspent, fun hmem => hmem⟩
  | cons turn turns ih =>
    obtain ⟨u, hu, hrest⟩ := takeAll?_cons_eq_some_iff.mp h
    obtain ⟨hspent', hback⟩ := hspent.take hkept hu
    obtain ⟨hspent'', hback'⟩ := ih hspent' (hkept.take hu) hrest
    exact ⟨hspent'', fun hmem => hback (hback' hmem)⟩

/-- As long as an empty list is not replaced, nothing is added to what is seen. -/
theorem sublist_ids_takeAll (hkept : s.Kept) (h : s.takeAll? turns = some t)
    (hnot : ¬s.RefilledIn turns) : t.ids.Sublist s.ids := by
  induction turns generalizing s with
  | nil =>
    cases h
    exact List.Sublist.refl _
  | cons turn turns ih =>
    obtain ⟨u, hu, hrest⟩ := takeAll?_cons_eq_some_iff.mp h
    rw [RefilledIn, not_or] at hnot
    have hstep : u.ids.Sublist s.ids := by
      obtain ⟨-, -, ⟨-, hids, -⟩ | ⟨hrefills, -⟩⟩ := take?_cases hkept.seen hu
      · exact hids
      · exact absurd hrefills hnot.1
    exact (ih (hkept.take hu) hrest fun hin => hnot.2 ⟨u, hu, hin⟩).trans hstep

theorem RefilledIn.of_append {front back : List DiscoveryTurn} (h : s.RefilledIn front) :
    s.RefilledIn (front ++ back) := by
  induction front generalizing s with
  | nil => exact h.elim
  | cons turn front ih =>
    obtain hhere | ⟨u, hu, hlater⟩ := h
    · exact .inl hhere
    · exact .inr ⟨u, hu, ih hlater⟩

/-- Where an empty list is replaced. -/
theorem RefilledIn.exists (h : s.RefilledIn turns) : ∃ front turn rest u,
    turns = front ++ turn :: rest ∧ s.takeAll? front = some u ∧ u.Refills turn := by
  induction turns generalizing s with
  | nil => exact h.elim
  | cons turn turns ih =>
    obtain hhere | ⟨u, hu, hlater⟩ := h
    · exact ⟨[], turn, turns, s, rfl, rfl, hhere⟩
    · obtain ⟨front, turn', rest, u', rfl, hfront, hrefills⟩ := ih hlater
      exact ⟨turn :: front, turn', rest, u', rfl,
        takeAll?_cons_eq_some_iff.mpr ⟨u, hu, hfront⟩, hrefills⟩

theorem kept_spawned (dir : Path) (disk : Disk) (fanout : Nat) :
    (spawned dir disk fanout).Kept :=
  ⟨rfl, fun _ => Nat.zero_le 1, fun _ _ => rfl⟩

/-- What replaces an empty list has identities that were not seen before. -/
theorem not_mem_ids_of_refills (hkept : s.Kept) {front : List DiscoveryTurn} {u w : Discovery}
    (hfront : s.takeAll? front = some u) (hw : u.take? turn = some w) (hrefills : u.Refills turn) :
    u.ids = [] ∧ w.ids ≠ [] ∧ ∀ id ∈ w.ids, id ∉ s.ids := by
  have hkept' := hkept.takeAll hfront
  obtain ⟨-, -, ⟨hnot, -⟩ | ⟨-, hempty, hsome, hids⟩⟩ := take?_cases hkept'.seen hw
  · exact absurd hrefills hnot
  · refine ⟨hempty, hsome, fun id hid hold => ?_⟩
    obtain ⟨hspent, -⟩ := (hkept.spent_of_mem_ids hold).takeAll hkept hfront
    have hsum := hids id
    have hpos : 0 < w.ids.count id := List.count_pos_iff.mpr hid
    have hzero : u.pendingIds.count id = 0 := List.count_eq_zero.mpr hspent.2
    omega

/-- **Applications are discovered once, unless all of them go.** An inventory is made, and then
scans begin and go on, applications are removed and files change, in any order.  From some time on,
what is seen is a part of what was seen then, in the same order, exactly as long as the owner does
not take a list with applications while its own is empty.  So nothing is added as long as one
application is left.  When the last one has gone, the next list is taken, all of it under identities
that were not there before, while an identity that has gone does not come back. -/
theorem ids_sublist_iff_not_refilledIn {dir : Path} {disk : Disk} {fanout : Nat}
    {before turns : List DiscoveryTurn} {s t : Discovery}
    (hbefore : (spawned dir disk fanout).takeAll? before = some s)
    (hturns : s.takeAll? turns = some t) :
    ((∀ front u, front <+: turns → s.takeAll? front = some u → u.ids.Sublist s.ids) ↔
      ¬s.RefilledIn turns) ∧
    (∀ front turn u w, front ++ [turn] <+: turns → s.takeAll? front = some u →
      u.take? turn = some w → u.Refills turn →
        u.ids = [] ∧ w.ids ≠ [] ∧ ∀ id ∈ w.ids, id ∉ s.ids) ∧
    (∀ front u, front <+: turns → s.takeAll? front = some u →
      u.inventory.apps.value = u.inventory.owner.records ∧
      ∀ id ∈ s.ids, id ∉ u.ids → id ∉ t.ids) := by
  have hkept : s.Kept := (kept_spawned dir disk fanout).takeAll hbefore
  refine ⟨⟨fun hall hin => ?_, ?_⟩, ?_, ?_⟩
  · -- where the list is replaced, something is seen that was not
    obtain ⟨front, turn, rest, u, rfl, hfront, hrefills⟩ := hin.exists
    obtain ⟨u', hu', hrest⟩ := takeAll?_append_eq_some_iff.mp hturns
    obtain rfl := Option.some.inj (hfront.symm.trans hu')
    obtain ⟨w, hw, -⟩ := takeAll?_cons_eq_some_iff.mp hrest
    obtain ⟨-, hsome, hnew⟩ := not_mem_ids_of_refills hkept hfront hw hrefills
    have hupto : s.takeAll? (front ++ [turn]) = some w :=
      takeAll?_append_eq_some_iff.mpr ⟨u, hfront, takeAll?_cons_eq_some_iff.mpr ⟨w, hw, rfl⟩⟩
    have hsub := hall (front ++ [turn]) w ⟨rest, by simp⟩ hupto
    obtain ⟨id, hid⟩ := List.exists_mem_of_ne_nil _ hsome
    exact hnew id hid (hsub.subset hid)
  · rintro hnot front u ⟨back, rfl⟩ hfront
    exact sublist_ids_takeAll hkept hfront fun hin => hnot hin.of_append
  · intro front turn u w _ hfront hw hrefills
    exact not_mem_ids_of_refills hkept hfront hw hrefills
  · rintro front u ⟨back, rfl⟩ hfront
    have hkept' := hkept.takeAll hfront
    refine ⟨hkept'.seen, fun id hid hgone hback => hgone ?_⟩
    obtain ⟨u', hu', hrest⟩ := takeAll?_append_eq_some_iff.mp hturns
    obtain rfl := Option.some.inj (hfront.symm.trans hu')
    have hspent := ((hkept.spent_of_mem_ids hid).takeAll hkept hfront).1
    exact (hspent.takeAll hkept' hrest).2 hback

/-- An inventory of a directory with one application. -/
def oneListed : Discovery :=
  spawned ⟨"/A"⟩ ⟨.folder [("A", .folder [("F.app", .folder [])])]⟩ 1

/-- The parts of a scan until the owner has taken its list. -/
def takenIn (i : Nat) : List DiscoveryTurn :=
  [.begin, .scan i .look, .scan i .list, .scan i .offer, .receive]

/-- The application is removed, and then the directory is scanned again. -/
def scannedAgain : List DiscoveryTurn :=
  [.remove ⟨1⟩, .receive] ++ takenIn 1

/-- The last application goes, and the next scan lists its bundle again. -/
theorem ids_sublist_iff_not_refilledIn_oneListed :
    ∃ s t, oneListed.takeAll? (takenIn 0) = some s ∧ s.takeAll? scannedAgain = some t ∧
      s.inventory.apps.value = [{ id := ⟨1⟩, name := "F", path := ⟨"/A/F.app"⟩ }] ∧
      t.inventory.apps.value = [{ id := ⟨2⟩, name := "F", path := ⟨"/A/F.app"⟩ }] ∧
      s.RefilledIn scannedAgain := by
  have hfirst : (oneListed.takeAll? (takenIn 0)).map (fun s => s.inventory.apps.value) =
      some [{ id := ⟨1⟩, name := "F", path := ⟨"/A/F.app"⟩ }] := by decide +kernel
  have hagain : (oneListed.takeAll? (takenIn 0 ++ scannedAgain)).map
      (fun s => s.inventory.apps.value) =
        some [{ id := ⟨2⟩, name := "F", path := ⟨"/A/F.app"⟩ }] := by decide +kernel
  obtain ⟨t, ht, htaken⟩ := Option.map_eq_some_iff.mp hagain
  obtain ⟨s, hs, hrest⟩ := takeAll?_append_eq_some_iff.mp ht
  rw [hs, Option.map_some, Option.some.injEq] at hfirst
  refine ⟨s, t, hs, hrest, hfirst, htaken, ?_⟩
  by_contra hnot
  have hsub := (ids_sublist_iff_not_refilledIn hs hrest).1.mpr hnot scannedAgain t
    List.prefix_rfl hrest
  rw [ids, ids, htaken, hfirst] at hsub
  exact absurd hsub (by decide)

end Discovery

end Reclaim
