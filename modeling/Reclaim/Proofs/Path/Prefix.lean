import Mathlib
import Reclaim.Proofs.Path.Spelling
import Reclaim.Proofs.Text.Trimming

/-!
# What is below a path

The part of a path below another one is cut out of its text, and only the stretches at the two ends
that stand for nothing are left out.  What is cut out begins neither with a slash, which would make
it stand alone, nor with a `.`, which would count in front; so it can be read from the other path
again, or from any path that takes its place, and says what the path says behind the components of
the other one.

## Main results

* `Path.components_stripPrefix?` : what the part below another path says.
* `Path.isSome_stripPrefix?_iff` : there is such a part exactly if the path lies within the other
  one.
* `Path.components_join` : a part that is read from a path.
-/

namespace Reclaim.Path

open Component

variable {p q r : Path} {pieces rest : List String} {steps : List Component}

/-! ### Stretches -/

theorem slash_notMem_of_mem_pieces {piece : String} (h : piece ∈ p.pieces) :
    '/' ∉ piece.toList := by
  obtain ⟨chars, hchars, rfl⟩ := List.mem_map.mp h
  rw [String.toList_ofList]
  exact notMem_of_mem_splitSlash hchars

/-- What is left once some components have been read off stands behind them. -/
theorem dropSteps_eq_some (h : dropSteps steps pieces = some rest) :
    rest <:+ pieces ∧ pieces.filterMap ofPiece? = steps ++ rest.filterMap ofPiece? := by
  fun_induction dropSteps steps pieces with
  | case1 pieces =>
    obtain rfl := Option.some.inj h
    exact ⟨List.suffix_refl pieces, rfl⟩
  | case2 => cases h
  | case3 step steps piece pieces hidle ih =>
    obtain ⟨hsuffix, hfound⟩ := ih h
    exact ⟨hsuffix.trans (List.suffix_cons piece pieces),
      by rw [List.filterMap_cons_none hidle, hfound]⟩
  | case4 steps piece pieces found hfound ih =>
    obtain ⟨hsuffix, hrest⟩ := ih h
    exact ⟨hsuffix.trans (List.suffix_cons piece pieces),
      by rw [List.filterMap_cons_some hfound, hrest, List.cons_append]⟩
  | case5 => cases h

/-- Components can be read off if they come first. -/
theorem isSome_dropSteps_iff :
    (dropSteps steps pieces).isSome = true ↔ steps <+: pieces.filterMap ofPiece? := by
  fun_induction dropSteps steps pieces with
  | case1 => simp
  | case2 => simp
  | case3 step steps piece pieces hidle ih => rw [ih, List.filterMap_cons_none hidle]
  | case4 steps piece pieces found hfound ih =>
    rw [ih, List.filterMap_cons_some hfound, List.prefix_cons_inj]
  | case5 step steps piece pieces found hfound hne =>
    rw [List.filterMap_cons_some hfound, List.cons_prefix_cons]
    simp [Ne.symm hne]

/-! ### Paths that can be read from another path -/

theorem anchor_eq_nil_iff :
    r.anchor = [] ↔ ¬r.isAbsolute = true ∧ r.pieces.head? ≠ some "." := by
  rw [anchor]
  by_cases habsolute : r.isAbsolute = true
  · simp [habsolute]
  · by_cases hdot : r.pieces.head? = some "." <;> simp [habsolute, hdot]

/-- A path that begins neither with a slash nor with a `.` adds its components to those of any path
that it is read from. -/
theorem components_join (q : Path) (h : r.anchor = []) :
    (q.join r).components = q.components ++ r.components := by
  obtain ⟨habsolute, hdot⟩ := anchor_eq_nil_iff.mp h
  have hcomponents : r.components = r.pieces.filterMap ofPiece? := by
    rw [components, h, List.nil_append]
  rw [hcomponents]
  exact q.components_child habsolute hdot

theorem components_eq_nil_iff : p.components = [] ↔ p.text = "" := by
  constructor
  · intro h
    obtain ⟨hanchor, hidle⟩ := List.append_eq_nil_iff.mp h
    obtain ⟨habsolute, hdot⟩ := anchor_eq_nil_iff.mp hanchor
    rw [pieces_of_not_isAbsolute habsolute] at hidle hdot
    cases htext : p.text.toList with
    | nil => exact String.toList_eq_nil_iff.mp htext
    | cons c cs =>
      have hc : c ≠ '/' := fun hc => habsolute (p.isAbsolute_iff.mpr ⟨cs, by rw [htext, hc]⟩)
      obtain ⟨first, rest, -, hfirst⟩ := splitSlash_cons_of_ne hc cs
      rw [htext, hfirst, List.map_cons] at hidle hdot
      have hne : String.ofList (c :: first) ≠ "" := by simp [← String.toList_inj]
      have hpiece : ofPiece? (String.ofList (c :: first)) ≠ none := by
        rw [ofPiece?, if_neg (not_or.mpr ⟨hne, fun he => hdot (by rw [he]; rfl)⟩)]
        split <;> simp
      exact absurd (List.filterMap_eq_nil_iff.mp hidle _ List.mem_cons_self) hpiece
  · intro h
    obtain ⟨text⟩ := p
    subst h
    decide

/-- What a path starts from is told by its first component. -/
theorem anchor_congr (h : p.components.head? = q.components.head?) : p.anchor = q.anchor := by
  have hfirst (p : Path) : p.anchor = (p.components.head?.filter
      fun c => c == .root || c == .here).toList := by
    obtain ⟨steps, hp, hsteps⟩ := p.exists_components_eq
    rw [hp, anchor]
    split
    · rfl
    · split
      · rfl
      · cases steps with
        | nil => rfl
        | cons c steps =>
          have hc := hsteps c List.mem_cons_self
          cases c with
          | root => exact hc.elim
          | here => exact hc.elim
          | up => rfl
          | name text => rfl
  rw [hfirst p, hfirst q, h]

/-! ### The part below another path -/

/-- Stretches of which the first one stands for a component, written with slashes between them. -/
theorem components_intercalate (hslash : ∀ piece ∈ pieces, '/' ∉ piece.toList)
    (hhead : ∀ piece ∈ pieces.head?, isIdle piece = false) :
    (Path.mk (String.intercalate "/" pieces)).anchor = [] ∧
      (Path.mk (String.intercalate "/" pieces)).components = pieces.filterMap ofPiece? := by
  cases pieces with
  | nil => decide
  | cons first pieces =>
    have hfirst := hhead first rfl
    have hne : first ≠ "" := by
      rintro rfl
      cases hfirst
    have hdot : first ≠ "." := by
      rintro rfl
      cases hfirst
    have habsolute := not_isAbsolute_intercalate pieces hne (hslash first List.mem_cons_self)
    have hpieces := pieces_of_not_isAbsolute habsolute
    rw [map_splitSlash_intercalate hslash] at hpieces
    have hanchor : (Path.mk (String.intercalate "/" (first :: pieces))).anchor = [] :=
      anchor_eq_nil_iff.mpr ⟨habsolute, by simpa [hpieces] using hdot⟩
    exact ⟨hanchor, by rw [components, hanchor, hpieces, List.nil_append]⟩

theorem filterMap_ofPiece?_of_trimmed (h : Trimmed isIdle rest pieces) :
    rest.filterMap ofPiece? = pieces.filterMap ofPiece? := by
  obtain ⟨left, right, rfl, hends⟩ := h.cut
  rw [List.forall_mem_append] at hends
  have hidle {part : List String} (hpart : ∀ piece ∈ part, isIdle piece = true) :
      part.filterMap ofPiece? = [] :=
    List.filterMap_eq_nil_iff.mpr fun piece hpiece =>
      Option.isNone_iff_eq_none.mp (hpart piece hpiece)
  rw [List.filterMap_append, List.filterMap_append, hidle hends.1, hidle hends.2, List.nil_append,
    List.append_nil]

/-- What the part of a path below another one says. -/
theorem components_stripPrefix? (hq : q.text ≠ "") (h : p.stripPrefix? q = some r) :
    r.anchor = [] ∧ p.components = q.components ++ r.components := by
  rw [stripPrefix?, if_neg (mt components_eq_nil_iff.mp hq), Option.ite_none_left_eq_some,
    not_not, Option.map_eq_some_iff] at h
  obtain ⟨hanchor, rest, hrest, rfl⟩ := h
  obtain ⟨hsuffix, hfound⟩ := dropSteps_eq_some hrest
  have htrimmed := trimmed_rdropWhile isIdle rest
  have hslash : ∀ piece ∈ (rest.dropWhile isIdle).rdropWhile isIdle, '/' ∉ piece.toList := by
    intro piece hpiece
    refine p.slash_notMem_of_mem_pieces (hsuffix.subset ?_)
    exact (List.dropWhile_suffix _).subset ((List.rdropWhile_prefix _ _).subset hpiece)
  obtain ⟨hempty, hcomponents⟩ := components_intercalate hslash htrimmed.head
  refine ⟨hempty, ?_⟩
  rw [components, hanchor, hfound, filterMap_ofPiece?_of_trimmed htrimmed, ← hcomponents,
    ← List.append_assoc]
  rfl

/-- There is a part below another path exactly if the path lies within it. -/
theorem isSome_stripPrefix?_iff : (p.stripPrefix? q).isSome = true ↔ p.within q = true := by
  rw [within, List.isPrefixOf_iff_prefix, stripPrefix?]
  by_cases hq : q.components = []
  · simp [hq]
  · rw [if_neg hq]
    by_cases hanchor : p.anchor = q.anchor
    · rw [if_neg (not_not.mpr hanchor), Option.isSome_map, isSome_dropSteps_iff, components,
        components, hanchor, List.prefix_append_right_inj]
    · rw [if_pos hanchor]
      refine iff_of_false (by simp) fun hprefix => hanchor (anchor_congr ?_)
      obtain ⟨rest, hrest⟩ := hprefix
      rw [← hrest, List.head?_append_of_ne_nil _ hq]

end Reclaim.Path
