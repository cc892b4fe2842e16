import Reclaim.Catalog
import Reclaim.Proofs.Path.Spelling

/-!
# What the checks on a path say

A directory that may be emptied is checked once, by its components.  This is enough for all its
entries: none of them is protected, and no protected directory lies inside one.

## Main definitions

* `Safety.protectedList` : the directories that are never deleted, in one list.

## Main results

* `Safety.isProtected_eq_any` : the check is membership in the list, spelling aside.
* `Safety.not_within_child` : no protected directory lies inside an entry of a user's directory.
-/

namespace Reclaim

namespace Safety

/-- The directories that are never deleted. -/
def protectedList (home : Option Path) : List Path :=
  protectedPaths.map Path.mk ++
    match home with
    | none => []
    | some home => home :: protectedHomeNames.map home.child

variable {home : Option Path} {root p : Path} {name : String}

theorem isProtected_eq_any (home : Option Path) (p : Path) :
    isProtected home p = (protectedList home).any p.same := by
  cases home <;> simp [isProtected, protectedList, Function.comp_def]

theorem isProtected_iff :
    isProtected home p = true ↔ ∃ q ∈ protectedList home, p.components = q.components := by
  simp [isProtected_eq_any, Path.same]

theorem isName_of_mem_protectedHomeNames (h : name ∈ protectedHomeNames) : IsName name := by
  have hall : ∀ name ∈ protectedHomeNames, IsName name := by decide
  exact hall name h

/-- A directory that is not in the home directory is the top or directly below it. -/
theorem components_protectedPaths (h : p ∈ protectedPaths.map Path.mk) :
    p.components = [.root] ∨ ∃ name, p.components = [.root, .name name] := by
  obtain ⟨text, htext, rfl⟩ := List.mem_map.mp h
  have hall : ∀ text ∈ protectedPaths, (Path.mk text).components = [.root] ∨
      (Path.mk text).components = [.root, .name (String.ofList text.toList.tail)] := by
    decide +kernel
  exact (hall text htext).imp_right fun h => ⟨_, h⟩

theorem isProtected_top (h : p.components = [.root]) : isProtected home p = true := by
  refine isProtected_iff.mpr ⟨⟨"/"⟩, ?_, h.trans (by decide)⟩
  exact List.mem_append_left _ (by decide)

/-- The protected directories are absolute and written without steps up, if the home directory
is. -/
theorem plain_of_isProtected {home : Path} (habsolute : home.isAbsolute = true)
    (hup : .up ∉ home.components) (h : isProtected (some home) p = true) :
    p.isAbsolute = true ∧ .up ∉ p.components := by
  obtain ⟨q, hq, hsame⟩ := isProtected_iff.mp h
  have hplain : (∃ rest, q.components = .root :: rest) ∧ .up ∉ q.components := by
    have htop : ∃ rest, home.components = .root :: rest :=
      ⟨_, Path.components_eq_steps habsolute⟩
    rcases List.mem_append.mp hq with hfixed | hhome
    · rcases components_protectedPaths hfixed with hq | ⟨name, hq⟩ <;> simp [hq]
    · rcases List.mem_cons.mp hhome with rfl | hhome
      · exact ⟨htop, hup⟩
      · obtain ⟨name, hname, rfl⟩ := List.mem_map.mp hhome
        obtain ⟨rest, hrest⟩ := htop
        rw [Path.components_child_name home (isName_of_mem_protectedHomeNames hname)]
        simp_all
  rw [hsame]
  obtain ⟨⟨rest, hrest⟩, hup'⟩ := hplain
  exact ⟨Path.isAbsolute_of_components (hsame.trans hrest), hup'⟩

/-- What the check on a directory of the user says. -/
structure IsUserRoot (home : Option Path) (root : Path) : Prop where
  absolute : root.isAbsolute = true
  unprotected : isProtected home root = false
  plain : ∀ c ∈ root.components, c ≠ .here ∧ c ≠ .up
  outside : ∀ h, home = some h → ¬root.components <+: h.components

theorem isUserRoot_iff : isUserRoot home root = true ↔ IsUserRoot home root := by
  constructor
  · intro h
    simp only [isUserRoot, Bool.and_eq_true, Bool.not_eq_true', List.any_eq_false,
      Bool.or_eq_true, not_or, beq_iff_eq] at h
    obtain ⟨⟨⟨habsolute, hunprotected⟩, hplain⟩, houtside⟩ := h
    refine ⟨habsolute, hunprotected, hplain, ?_⟩
    rintro h rfl
    rw [Bool.not_eq_true', Bool.eq_false_iff] at houtside
    exact mt List.isPrefixOf_iff_prefix.mpr houtside
  · rintro ⟨habsolute, hunprotected, hplain, houtside⟩
    simp only [isUserRoot, Bool.and_eq_true, Bool.not_eq_true', List.any_eq_false,
      Bool.or_eq_true, not_or, beq_iff_eq]
    refine ⟨⟨⟨habsolute, hunprotected⟩, hplain⟩, ?_⟩
    cases home with
    | none => rfl
    | some h =>
      rw [Bool.not_eq_true', Bool.eq_false_iff]
      exact mt List.isPrefixOf_iff_prefix.mp (houtside h rfl)

/-- The spelling of a directory does not matter to the check. -/
theorem isUserRoot_congr {q : Path} (habsolute : p.isAbsolute = q.isAbsolute)
    (h : p.components = q.components) : isUserRoot home p = isUserRoot home q := by
  simp only [isUserRoot, isProtected, Path.same, Path.within, habsolute, h]

theorem exists_components_of_isAbsolute (h : p.isAbsolute = true) :
    ∃ steps, p.components = .root :: steps := by
  rw [Path.components, Path.anchor, if_pos h]
  exact ⟨_, rfl⟩

/-- No protected directory lies inside an entry of a directory that may be emptied, or is one. -/
theorem not_within_child (hroot : isUserRoot home root = true) (hname : IsName name)
    (hp : p ∈ protectedList home) : p.within (root.child name) = false := by
  obtain ⟨habsolute, hunprotected, -, houtside⟩ := isUserRoot_iff.mp hroot
  obtain ⟨steps, hsteps⟩ := exists_components_of_isAbsolute habsolute
  rw [Bool.eq_false_iff, Path.within, Ne, List.isPrefixOf_iff_prefix,
    Path.components_child_name root hname]
  intro hinside
  rcases List.mem_append.mp hp with hfixed | hhome
  · -- only the top is above one of these, and it is protected
    have hlength := hinside.length_le
    have htop : root.components = [.root] := by
      rw [hsteps] at hlength ⊢
      rcases components_protectedPaths hfixed with hp | ⟨text, hp⟩ <;> simp_all
    rw [isProtected_top htop] at hunprotected
    cases hunprotected
  · cases home with
    | none => cases hhome
    | some home =>
      refine houtside home rfl ?_
      have habove : root.components <+: p.components := (List.prefix_append _ _).trans hinside
      rcases List.mem_cons.mp hhome with rfl | hhome
      · exact habove
      · obtain ⟨text, htext, rfl⟩ := List.mem_map.mp hhome
        have hchild := Path.components_child_name home (isName_of_mem_protectedHomeNames htext)
        have hlength := hinside.length_le
        rw [hchild] at habove hlength
        simp only [List.length_append, List.length_singleton] at hlength
        exact List.prefix_of_prefix_length_le habove (List.prefix_append _ _) (by omega)

/-- No entry of a directory that may be emptied is protected. -/
theorem isProtected_child (hroot : isUserRoot home root = true) (hname : IsName name) :
    isProtected home (root.child name) = false := by
  rw [Bool.eq_false_iff, Ne, isProtected_iff]
  rintro ⟨p, hp, hsame⟩
  have hwithin := not_within_child hroot hname hp
  rw [Path.within, ← hsame, Bool.eq_false_iff, Ne, List.isPrefixOf_iff_prefix] at hwithin
  exact hwithin (List.prefix_refl _)

end Safety

end Reclaim
