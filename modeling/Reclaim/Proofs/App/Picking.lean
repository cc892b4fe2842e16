import Reclaim.App.Inventory
import Reclaim.Proofs.Text.Cutting
import Reclaim.Proofs.Text.Folding

/-!
# The application that a text means

A text is looked up among the names of the listed applications, without regard to case: the
applications whose lower-case names contain its lower-case form match.  Among these one is preferred
whose name is the text itself, but for this only ASCII letters may differ in case.  So there are two
notions of case.  The narrow one implies the wide one, whence the preferred application always
matches; where they differ, a name that is the text up to case is one match among others.

## Main definitions

* `Inventory.preferred?` : the first application whose name is the text up to the case of ASCII
  letters.

## Main results

* `Inventory.pick_eq_ok_iff`, `Inventory.pick_eq_unknown_iff`, `Inventory.pick_eq_ambiguous_iff` :
  the three outcomes.
* `Inventory.pick_named` : which application is picked, and when it is the one that is named.
-/

namespace Reclaim

namespace Inventory

variable {v : Inventory} {name : String} {r : AppRecord}

/-- The applications that match are those whose lower-case names contain that of the text. -/
theorem mem_findByName_iff : r ∈ v.findByName name ↔
    r ∈ v.apps.value ∧ (Text.lower name).toList <:+: (Text.lower r.name).toList := by
  rw [findByName, List.mem_filter, Text.occursIn_iff]

/-- A name that is the text up to case matches. -/
theorem mem_findByName_of_lower_eq (hr : r ∈ v.apps.value)
    (h : Text.lower r.name = Text.lower name) : r ∈ v.findByName name :=
  mem_findByName_iff.mpr ⟨hr, h ▸ List.infix_rfl⟩

/-- The first listed application whose name is the text up to the case of ASCII letters. -/
def preferred? (v : Inventory) (name : String) : Option AppRecord :=
  v.apps.value.find? fun r => Text.sameAscii r.name name

theorem preferred?_eq_none_iff : v.preferred? name = none ↔
    ∀ r ∈ v.apps.value, Text.sameAscii r.name name = false := by
  simp [preferred?, List.find?_eq_none]

theorem of_preferred? (h : v.preferred? name = some r) :
    r ∈ v.apps.value ∧ Text.sameAscii r.name name = true :=
  ⟨List.mem_of_find?_eq_some h,
    List.find?_some (p := fun r : AppRecord => Text.sameAscii r.name name) h⟩

/-- The preferred application matches. -/
theorem mem_findByName_of_preferred? (h : v.preferred? name = some r) :
    r ∈ v.findByName name :=
  mem_findByName_of_lower_eq (of_preferred? h).1 (Text.lower_eq_of_sameAscii (of_preferred? h).2)

/-- No other application with such a name is left out of the matches. -/
theorem find?_findByName (v : Inventory) (name : String) :
    ((v.findByName name).find? fun r => Text.sameAscii r.name name) = v.preferred? name := by
  rw [findByName, List.find?_filter]
  refine List.find?_congr fun r _ => ?_
  rw [Bool.eq_iff_iff, decide_eq_true_iff, and_iff_right_iff_imp]
  intro hsame
  rw [Text.occursIn_iff, Text.lower_eq_of_sameAscii hsame]

theorem pick_of_preferred? (h : v.preferred? name = some r) : v.pick name = .ok r := by
  rw [pick, find?_findByName, h]

/-- Without a preferred application the number of matches decides. -/
theorem pick_of_not_preferred? (h : v.preferred? name = none) :
    (∀ app, v.pick name = .ok app ↔ v.findByName name = [app]) ∧
    (v.pick name = .error .unknown ↔ v.findByName name = []) ∧
    ∀ apps, v.pick name = .error (.ambiguous apps) ↔
      apps = v.findByName name ∧ 1 < (v.findByName name).length := by
  rw [pick, find?_findByName, h]
  match v.findByName name with
  | [] => simp
  | [app] => simp
  | app :: app' :: apps => simp [eq_comm]

theorem pick_eq_ok_iff : v.pick name = .ok r ↔
    v.preferred? name = some r ∨ v.preferred? name = none ∧ v.findByName name = [r] := by
  cases h : v.preferred? name with
  | some app => simp [pick_of_preferred? h]
  | none => simp [(pick_of_not_preferred? h).1 r]

theorem pick_eq_unknown_iff : v.pick name = .error .unknown ↔ v.findByName name = [] := by
  cases h : v.preferred? name with
  | some app =>
    simp [pick_of_preferred? h, List.ne_nil_of_mem (mem_findByName_of_preferred? h)]
  | none => exact (pick_of_not_preferred? h).2.1

theorem pick_eq_ambiguous_iff {apps : List AppRecord} :
    v.pick name = .error (.ambiguous apps) ↔
      v.preferred? name = none ∧ apps = v.findByName name ∧ 1 < apps.length := by
  cases h : v.preferred? name with
  | some app => simp [pick_of_preferred? h]
  | none =>
    rw [(pick_of_not_preferred? h).2.2 apps]
    constructor
    · rintro ⟨rfl, hmany⟩
      exact ⟨rfl, rfl, hmany⟩
    · rintro ⟨-, rfl, hmany⟩
      exact ⟨rfl, hmany⟩

/-! ### Names that are the text -/

/-- Where a name is the text itself, an application is picked whose name is the text up to the case
of ASCII letters. -/
theorem exists_pick_of_name_eq (hr : r ∈ v.apps.value) (hname : r.name = name) :
    ∃ app, v.preferred? name = some app ∧ v.pick name = .ok app := by
  cases h : v.preferred? name with
  | some app => exact ⟨app, rfl, pick_of_preferred? h⟩
  | none =>
    have hself : Text.sameAscii r.name name = true := by
      rw [hname, Text.sameAscii, beq_self_eq_true]
    exact absurd hself (ne_true_of_eq_false (preferred?_eq_none_iff.mp h r hr))

/-- Where one name alone is the text up to case, it is picked, or nothing is. -/
theorem pick_of_only_equal
    (hone : (v.apps.value.filter fun r => Text.lower r.name = Text.lower name) = [r]) :
    (v.pick name = .ok r ↔ Text.sameAscii r.name name = true ∨ v.findByName name = [r]) ∧
      (v.pick name ≠ .ok r → v.pick name = .error (.ambiguous (v.findByName name))) := by
  have honly : ∀ app ∈ v.apps.value, Text.lower app.name = Text.lower name ↔ app = r := by
    intro app happ
    have hmem : app ∈ [r] ↔ app = r := List.mem_singleton
    rw [← hmem, ← hone, List.mem_filter, decide_eq_true_iff, and_iff_right happ]
  have hr : r ∈ v.apps.value :=
    List.mem_of_mem_filter (hone ▸ List.mem_singleton_self r)
  have hmatches : r ∈ v.findByName name := mem_findByName_of_lower_eq hr ((honly r hr).mpr rfl)
  cases h : v.preferred? name with
  | some app =>
    obtain ⟨happ, hsame⟩ := of_preferred? h
    obtain rfl := (honly app happ).mp (Text.lower_eq_of_sameAscii hsame)
    have hpick := pick_of_preferred? h
    exact ⟨iff_of_true hpick (.inl hsame), fun hne => absurd hpick hne⟩
  | none =>
    have hnarrow := preferred?_eq_none_iff.mp h r hr
    have hpick := (pick_of_not_preferred? h).1 r
    refine ⟨by simp [hpick, hnarrow], fun hne => pick_eq_ambiguous_iff.mpr ⟨h, rfl, ?_⟩⟩
    -- a single match would be the application itself
    refine Nat.lt_of_le_of_ne (List.length_pos_of_mem hmatches) fun hlength => ?_
    obtain ⟨only, hsingle⟩ := List.length_eq_one_iff.mp hlength.symm
    obtain rfl := List.mem_singleton.mp (hsingle ▸ hmatches)
    exact hne (hpick.mpr hsingle)

/-- Where no name is the text up to case, no application is preferred. -/
theorem preferred?_of_no_equal (h : ∀ r ∈ v.apps.value, Text.lower r.name ≠ Text.lower name) :
    v.preferred? name = none := by
  rw [preferred?_eq_none_iff]
  intro r hr
  rw [Bool.eq_false_iff]
  exact fun hsame => h r hr (Text.lower_eq_of_sameAscii hsame)

/-- **The application that is picked.** Of the listed applications whose names are the text up to
the case of ASCII letters, the first is picked.  If there is none, the only match is picked, and
nothing if there is no match or more than one.  So where some name is the text itself, an
application is picked whose name is the text up to the case of ASCII letters, and it is one of just
that name if no other such name is listed.  Where just one name is the text up to case, it is picked
if only ASCII letters differ in case or nothing else matches; otherwise nothing is, and the matches
are told.  Where no name is the text up to case, the only match is picked. -/
theorem pick_named (v : Inventory) (name : String) :
    let listed := v.apps.value
    let matching := v.findByName name
    let result := v.pick name
    (∀ app, result = .ok app ↔ v.preferred? name = some app ∨
      (∀ r ∈ listed, Text.sameAscii r.name name = false) ∧ matching = [app]) ∧
    (result = .error .unknown ↔ matching = []) ∧
    (∀ apps, result = .error (.ambiguous apps) ↔
      (∀ r ∈ listed, Text.sameAscii r.name name = false) ∧ apps = matching ∧ 1 < apps.length) ∧
    (∀ r, r ∈ matching ↔
      r ∈ listed ∧ (Text.lower name).toList <:+: (Text.lower r.name).toList) ∧
    (∀ r ∈ listed, r.name = name → ∃ app ∈ listed, result = .ok app ∧
      Text.sameAscii app.name name = true ∧
      ((∀ r' ∈ listed, Text.sameAscii r'.name name = true → r'.name = name) → app.name = name)) ∧
    (∀ app, (listed.filter fun r => Text.lower r.name = Text.lower name) = [app] →
      (result = .ok app ↔ Text.sameAscii app.name name = true ∨ matching = [app]) ∧
      (result ≠ .ok app → result = .error (.ambiguous matching))) ∧
    ((∀ r ∈ listed, Text.lower r.name ≠ Text.lower name) →
      ∀ app, result = .ok app ↔ matching = [app]) := by
  intro listed matching result
  refine ⟨fun app => ?_, pick_eq_unknown_iff, fun apps => ?_, fun r => mem_findByName_iff, ?_,
    fun app hone => pick_of_only_equal hone, fun hnone app => ?_⟩
  · rw [pick_eq_ok_iff, preferred?_eq_none_iff]
  · rw [pick_eq_ambiguous_iff, preferred?_eq_none_iff]
  · intro r hr hname
    obtain ⟨app, hpreferred, hpick⟩ := exists_pick_of_name_eq hr hname
    obtain ⟨happ, hsame⟩ := of_preferred? hpreferred
    exact ⟨app, happ, hpick, hsame, fun hall => hall app happ hsame⟩
  · exact (pick_of_not_preferred? (preferred?_of_no_equal hnone)).1 app

/-- Two listed applications. -/
def accented : Inventory where
  dir := ⟨"/"⟩
  owner := ({} : AppOwner).receiveAll [.populate [
    { id := ⟨1⟩, name := "É", path := ⟨"/É.app"⟩ },
    { id := ⟨2⟩, name := "Éa", path := ⟨"/Éa.app"⟩ }]]

/-- One name alone is the text up to case, and yet nothing is picked. -/
theorem pick_named_accented :
    ((accented.apps.value.filter fun r => Text.lower r.name = Text.lower "é").map
      AppRecord.name) = ["É"] ∧
    accented.pick "é" = .error (.ambiguous accented.apps.value) := by
  let app : AppRecord := { id := ⟨1⟩, name := "É", path := ⟨"/É.app"⟩ }
  have hone : (accented.apps.value.filter fun r => Text.lower r.name = Text.lower "é") = [app] := by
    decide +kernel
  have hmatching : accented.findByName "é" = accented.apps.value := by decide +kernel
  have hnot : accented.pick "é" ≠ .ok app := by decide +kernel
  obtain ⟨-, -, -, -, -, honly, -⟩ := pick_named accented "é"
  exact ⟨congrArg (List.map AppRecord.name) hone, hmatching ▸ (honly app hone).2 hnot⟩

end Inventory

end Reclaim
