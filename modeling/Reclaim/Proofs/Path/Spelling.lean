import Reclaim.Disk.Basic
import Reclaim.Safety

/-!
# What a spelling stands for

A path is text, and what it says is read off the stretches between its slashes.  This file follows
the two readings of a text, as components and as steps, through the ways in which texts are put
together: a name written behind a path adds one component and one step, and the plainest spelling of
the components of a path has these components again.

## Main definitions

* `IsName` : a text that stands for one entry of a folder.

## Main results

* `Path.components_child`, `Path.components_child_name` : the components of a path written behind
  another one.
* `Path.components_ofComponents` : the plainest spelling of components.
* `Path.exists_steps_child` : the steps of a name written behind a path.
* `Path.components_eq_steps` : the components and the steps of a path.
* `Path.isDirectChild_child` : a name written behind a path is a direct child of it.
* `Path.components_slashed` : further slashes in front of an absolute path.
-/

namespace Reclaim

/-- The text can be the name of an entry, as far as its characters are concerned. -/
def IsName (text : String) : Prop :=
  text ≠ "" ∧ text ≠ "." ∧ text ≠ ".." ∧ '/' ∉ text.toList

instance (text : String) : Decidable (IsName text) :=
  inferInstanceAs (Decidable (_ ∧ _))

/-! ### Stretches between slashes -/

theorem splitSlash_ne_nil (cs : List Char) : splitSlash cs ≠ [] := by
  induction cs with
  | nil => simp [splitSlash]
  | cons c cs ih =>
    rw [splitSlash]
    split
    · simp
    · split <;> simp

theorem splitSlash_cons_of_ne {c : Char} (hc : c ≠ '/') (cs : List Char) :
    ∃ piece pieces, splitSlash cs = piece :: pieces ∧
      splitSlash (c :: cs) = (c :: piece) :: pieces := by
  obtain ⟨piece, pieces, h⟩ := List.exists_cons_of_ne_nil (splitSlash_ne_nil cs)
  exact ⟨piece, pieces, h, by rw [splitSlash, if_neg hc, h]⟩

/-- A slash separates the stretches of what is written on its sides. -/
theorem splitSlash_append (xs ys : List Char) :
    splitSlash (xs ++ '/' :: ys) = splitSlash xs ++ splitSlash ys := by
  induction xs with
  | nil => simp [splitSlash]
  | cons c xs ih =>
    by_cases hc : c = '/'
    · subst hc
      simp only [List.cons_append, splitSlash, ↓reduceIte, ih]
    · obtain ⟨piece, pieces, h, h'⟩ := splitSlash_cons_of_ne hc xs
      obtain ⟨piece', pieces', k, k'⟩ := splitSlash_cons_of_ne hc (xs ++ '/' :: ys)
      rw [ih, h, List.cons_append, List.cons.injEq] at k
      obtain ⟨rfl, rfl⟩ := k
      rw [List.cons_append, k', h', List.cons_append]

theorem splitSlash_of_notMem {cs : List Char} (h : '/' ∉ cs) : splitSlash cs = [cs] := by
  induction cs with
  | nil => rfl
  | cons c cs ih =>
    obtain ⟨hc, hcs⟩ := not_or.mp (mt List.mem_cons.mpr h)
    rw [splitSlash, if_neg (Ne.symm hc), ih hcs]

theorem notMem_of_mem_splitSlash {cs piece : List Char} (h : piece ∈ splitSlash cs) :
    '/' ∉ piece := by
  induction cs generalizing piece with
  | nil => simp_all [splitSlash]
  | cons c cs ih =>
    by_cases hc : c = '/'
    · subst hc
      rw [splitSlash, if_pos rfl, List.mem_cons] at h
      rcases h with rfl | h
      · exact List.not_mem_nil
      · exact ih h
    · obtain ⟨first, rest, h₁, h₂⟩ := splitSlash_cons_of_ne hc cs
      rw [h₂, List.mem_cons] at h
      rw [h₁] at ih
      rcases h with rfl | h
      · exact List.not_mem_cons_of_ne_of_not_mem (Ne.symm hc) (ih List.mem_cons_self)
      · exact ih (List.mem_cons_of_mem first h)

/-- Stretches that are joined by slashes are found again. -/
theorem splitSlash_intercalate {first : List Char} {rest : List (List Char)}
    (h : ∀ piece ∈ first :: rest, '/' ∉ piece) :
    splitSlash (List.intercalate ['/'] (first :: rest)) = first :: rest := by
  induction rest generalizing first with
  | nil => simpa using splitSlash_of_notMem (h first List.mem_cons_self)
  | cons second rest ih =>
    obtain ⟨hfirst, hrest⟩ := List.forall_mem_cons.mp h
    rw [List.intercalate_cons_cons, List.append_assoc, List.singleton_append, splitSlash_append,
      splitSlash_of_notMem hfirst, ih hrest, List.singleton_append]

/-! ### Stretches of a path -/

namespace Path

theorem pieces_ne_nil (p : Path) : p.pieces ≠ [] := by
  simp only [pieces, ne_eq, List.map_eq_nil_iff]
  exact splitSlash_ne_nil _

theorem isAbsolute_iff (p : Path) : p.isAbsolute = true ↔ ∃ cs, p.text.toList = '/' :: cs := by
  rw [isAbsolute, beq_iff_eq, List.head?_eq_some_iff]

theorem pieces_of_isAbsolute {p : Path} {cs : List Char} (h : p.text.toList = '/' :: cs) :
    p.pieces = (splitSlash cs).map String.ofList := by
  have habs : p.isAbsolute = true := p.isAbsolute_iff.mpr ⟨cs, h⟩
  rw [pieces, if_pos habs, h, List.tail_cons]

theorem pieces_of_not_isAbsolute {p : Path} (h : ¬p.isAbsolute = true) :
    p.pieces = (splitSlash p.text.toList).map String.ofList := by
  rw [pieces, if_neg h]

theorem not_isAbsolute_name {text : String} (h : IsName text) :
    ¬(Path.mk text).isAbsolute = true := by
  rw [isAbsolute_iff]
  rintro ⟨cs, hcs⟩
  exact h.2.2.2 (hcs ▸ List.mem_cons_self)

theorem pieces_name {text : String} (h : IsName text) : (Path.mk text).pieces = [text] := by
  rw [pieces_of_not_isAbsolute (not_isAbsolute_name h), splitSlash_of_notMem h.2.2.2,
    List.map_singleton, String.ofList_toList]

theorem isAbsolute_append {front : String} (hfront : front ≠ "") (back : String) :
    (Path.mk (front ++ back)).isAbsolute = (Path.mk front).isAbsolute := by
  obtain ⟨c, cs, hcs⟩ := List.exists_cons_of_ne_nil (mt String.toList_eq_nil_iff.mp hfront)
  simp [isAbsolute, hcs]

/-- What is written behind a slash adds its stretches to those in front. -/
theorem pieces_append_slash {front : String} (hfront : front ≠ "") (back : String) :
    (Path.mk (front ++ "/" ++ back)).pieces =
      (Path.mk front).pieces ++ (splitSlash back.toList).map String.ofList := by
  have htext : (front ++ "/" ++ back).toList = front.toList ++ '/' :: back.toList := by simp
  have hsame := isAbsolute_append hfront ("/" ++ back)
  rw [← String.append_assoc] at hsame
  by_cases habs : (Path.mk front).isAbsolute = true
  · obtain ⟨cs, hcs⟩ := (Path.mk front).isAbsolute_iff.mp habs
    have hcs' : (front ++ "/" ++ back).toList = '/' :: (cs ++ '/' :: back.toList) := by
      rw [htext, hcs, List.cons_append]
    rw [pieces_of_isAbsolute hcs', pieces_of_isAbsolute hcs, splitSlash_append, List.map_append]
  · rw [pieces_of_not_isAbsolute (hsame ▸ habs), pieces_of_not_isAbsolute habs, htext,
      splitSlash_append, List.map_append]

/-- A relative text written behind a path leaves the stretches of the path in front of its own,
except an empty one at the end. -/
theorem exists_pieces_child (p : Path) {text : String} (ht : ¬(Path.mk text).isAbsolute = true) :
    ∃ front, (p.child text).pieces = front ++ (Path.mk text).pieces ∧
      (p.pieces = front ∨ p.pieces = front ++ [""]) ∧
      (p.child text).isAbsolute = p.isAbsolute := by
  simp only [child, join, if_neg ht]
  by_cases hempty : p.text = ""
  · refine ⟨[], ?_, .inr ?_, ?_⟩
    · simp [hempty]
    · simp [pieces, isAbsolute, hempty, splitSlash]
    · simpa [isAbsolute, hempty] using ht
  by_cases hlast : p.text.toList.getLast? = some '/'
  · obtain ⟨xs, hxs⟩ := List.getLast?_eq_some_iff.mp hlast
    have hp : p.text = String.ofList xs ++ "/" := String.toList_inj.mp (by simp [hxs])
    rw [if_pos (.inr hlast), isAbsolute_append hempty]
    by_cases hfront : String.ofList xs = ""
    · rw [hfront] at hp
      refine ⟨[], ?_, .inr ?_, rfl⟩
      · have hslash : (p.text ++ text).toList = '/' :: text.toList := by simp [hp]
        rw [pieces_of_isAbsolute hslash, pieces_of_not_isAbsolute ht, List.nil_append]
      · have hslash : p.text.toList = '/' :: [] := by simp [hp]
        rw [pieces_of_isAbsolute hslash]
        rfl
    · refine ⟨(Path.mk (String.ofList xs)).pieces, ?_, .inr ?_, rfl⟩
      · rw [hp, pieces_append_slash hfront, pieces_of_not_isAbsolute ht]
      · have hback := pieces_append_slash hfront ""
        rw [String.append_empty, ← hp] at hback
        exact hback
  · rw [if_neg (not_or.mpr ⟨hempty, hlast⟩), String.append_assoc, isAbsolute_append hempty]
    refine ⟨p.pieces, ?_, .inl rfl, rfl⟩
    rw [← String.append_assoc, pieces_append_slash hempty, pieces_of_not_isAbsolute ht]

/-! ### Components -/

/-- A relative text written behind a path adds its components, unless it begins with a dot of its
own. -/
theorem components_child (p : Path) {text : String} (ht : ¬(Path.mk text).isAbsolute = true)
    (hdot : (Path.mk text).pieces.head? ≠ some ".") :
    (p.child text).components =
      p.components ++ (Path.mk text).pieces.filterMap Component.ofPiece? := by
  obtain ⟨front, hchild, hfront, habs⟩ := p.exists_pieces_child ht
  have hanchor : (p.child text).anchor = p.anchor := by
    have hhead : (p.child text).pieces.head? = some "." ↔ p.pieces.head? = some "." := by
      cases front with
      | nil =>
        have hp : p.pieces = [""] := hfront.resolve_left p.pieces_ne_nil
        simp [hchild, hp, hdot]
      | cons piece front => rcases hfront with hp | hp <;> simp [hchild, hp]
    simp only [anchor, habs, hhead]
  have hempty : Component.ofPiece? "" = none := rfl
  simp only [components, hanchor, hchild, List.filterMap_append]
  rcases hfront with hp | hp <;> simp [hp, hempty, List.append_assoc]

theorem ofPiece?_name {text : String} (h : IsName text) :
    Component.ofPiece? text = some (.name text) := by
  simp [Component.ofPiece?, h.1, h.2.1, h.2.2.1]

/-- A name written behind a path adds one component. -/
theorem components_child_name (p : Path) {text : String} (h : IsName text) :
    (p.child text).components = p.components ++ [.name text] := by
  rw [components_child p (not_isAbsolute_name h), pieces_name h]
  · simp [ofPiece?_name h]
  · simpa [pieces_name h] using h.2.1

/-! ### The plainest spelling -/

end Path

namespace Component

/-- The component can stand behind the start of a path. -/
def IsStep : Component → Prop
  | .up => True
  | .name text => IsName text
  | _ => False

theorem isStep_of_ofPiece? {piece : String} {c : Component} (hslash : '/' ∉ piece.toList)
    (h : ofPiece? piece = some c) : c.IsStep := by
  simp only [ofPiece?] at h
  split at h
  · cases h
  next hidle =>
    split at h
    · cases h
      trivial
    next hup =>
      cases h
      obtain ⟨hempty, hdot⟩ := not_or.mp hidle
      exact ⟨hempty, hdot, hup, hslash⟩

theorem IsStep.ofPiece?_text {c : Component} (h : c.IsStep) : ofPiece? c.text = some c := by
  cases c with
  | root => exact h.elim
  | here => exact h.elim
  | up => rfl
  | name text => exact Path.ofPiece?_name h

theorem IsStep.notMem_text {c : Component} (h : c.IsStep) : '/' ∉ c.text.toList := by
  cases c with
  | root => exact h.elim
  | here => exact h.elim
  | up => decide
  | name text => exact h.2.2.2

theorem filterMap_ofPiece?_text {steps : List Component} (h : ∀ c ∈ steps, c.IsStep) :
    (steps.map text).filterMap ofPiece? = steps := by
  induction steps with
  | nil => rfl
  | cons c steps ih =>
    obtain ⟨hc, hsteps⟩ := List.forall_mem_cons.mp h
    rw [List.map_cons, List.filterMap_cons_some hc.ofPiece?_text, ih hsteps]

end Component

namespace Path

theorem exists_components_eq (p : Path) :
    ∃ steps, p.components = p.anchor ++ steps ∧ ∀ c ∈ steps, c.IsStep := by
  refine ⟨_, rfl, fun c hc => ?_⟩
  obtain ⟨piece, hpiece, hc⟩ := List.mem_filterMap.mp hc
  obtain ⟨cs, hcs, rfl⟩ := List.mem_map.mp hpiece
  refine Component.isStep_of_ofPiece? ?_ hc
  rw [String.toList_ofList]
  exact notMem_of_mem_splitSlash hcs

/-- The stretches of texts without slashes that are joined by slashes. -/
theorem map_splitSlash_intercalate {first : String} {rest : List String}
    (h : ∀ text ∈ first :: rest, '/' ∉ text.toList) :
    (splitSlash (String.intercalate "/" (first :: rest)).toList).map String.ofList =
      first :: rest := by
  have hslash : ∀ piece ∈ first.toList :: rest.map String.toList, '/' ∉ piece := by
    intro piece hpiece
    rw [← List.map_cons, List.mem_map] at hpiece
    obtain ⟨text, htext, rfl⟩ := hpiece
    exact h text htext
  have hsep : "/".toList = ['/'] := rfl
  rw [String.toList_intercalate, List.map_cons, hsep, splitSlash_intercalate hslash]
  simp

/-- The plainest spelling of a path behind the top. -/
theorem components_ofComponents_root {steps : List Component} (h : ∀ c ∈ steps, c.IsStep) :
    (ofComponents (.root :: steps)).components = .root :: steps := by
  have htext : (ofComponents (.root :: steps)).text.toList =
      '/' :: (String.intercalate "/" (steps.map Component.text)).toList := by
    simp [ofComponents]
  have habs := (ofComponents (.root :: steps)).isAbsolute_iff.mpr ⟨_, htext⟩
  rw [components, anchor, if_pos habs, pieces_of_isAbsolute htext]
  cases steps with
  | nil => rfl
  | cons c steps =>
    have hslash : ∀ text ∈ c.text :: steps.map Component.text, '/' ∉ text.toList := by
      rw [← List.map_cons, List.forall_mem_map]
      exact fun c hc => (h c hc).notMem_text
    rw [List.map_cons, map_splitSlash_intercalate hslash, ← List.map_cons,
      Component.filterMap_ofPiece?_text h, List.singleton_append]

theorem not_isAbsolute_intercalate {first : String} (rest : List String) (hfirst : first ≠ "")
    (hslash : '/' ∉ first.toList) :
    ¬(Path.mk (String.intercalate "/" (first :: rest))).isAbsolute = true := by
  obtain ⟨c, cs, hcs⟩ := List.exists_cons_of_ne_nil (mt String.toList_eq_nil_iff.mp hfirst)
  have hc : c ≠ '/' := fun hc => hslash (by rw [hcs, hc]; exact List.mem_cons_self)
  cases rest with
  | nil => simpa [isAbsolute, hcs] using hc
  | cons second rest => simpa [isAbsolute, String.intercalate_cons_cons, hcs] using hc

/-- The plainest spelling of a path that does not begin at the top, whether with a dot or not. -/
theorem components_ofComponents_relative {start steps : List Component}
    (hstart : start = [] ∨ start = [.here]) (h : ∀ c ∈ steps, c.IsStep) :
    (ofComponents (start ++ steps)).components = start ++ steps := by
  rcases hstart with rfl | rfl
  · cases steps with
    | nil => decide
    | cons c steps =>
      have hc := h c List.mem_cons_self
      have hslash : ∀ text ∈ c.text :: steps.map Component.text, '/' ∉ text.toList := by
        rw [← List.map_cons, List.forall_mem_map]
        exact fun c hc => (h c hc).notMem_text
      have htext : ofComponents ([] ++ c :: steps) =
          ⟨String.intercalate "/" (c.text :: steps.map Component.text)⟩ := by
        cases c <;> first | rfl | exact hc.elim
      have hne : c.text ≠ "" ∧ c.text ≠ "." := by
        cases c with
        | root => exact hc.elim
        | here => exact hc.elim
        | up => decide
        | name text => exact ⟨hc.1, hc.2.1⟩
      have habs := not_isAbsolute_intercalate (steps.map Component.text) hne.1 hc.notMem_text
      rw [htext, components, anchor, if_neg habs, pieces_of_not_isAbsolute habs,
        map_splitSlash_intercalate hslash, if_neg (by simpa using hne.2), ← List.map_cons,
        Component.filterMap_ofPiece?_text h]
  · have hslash : ∀ text ∈ "." :: steps.map Component.text, '/' ∉ text.toList := by
      rw [List.forall_mem_cons, List.forall_mem_map]
      exact ⟨by decide, fun c hc => (h c hc).notMem_text⟩
    have htext : ofComponents ([.here] ++ steps) =
        ⟨String.intercalate "/" ("." :: steps.map Component.text)⟩ := rfl
    have hdot : Component.ofPiece? "." = none := rfl
    have hne : "." ≠ "" := by decide
    have habs := not_isAbsolute_intercalate (steps.map Component.text) hne (by decide)
    rw [htext, components, anchor, if_neg habs, pieces_of_not_isAbsolute habs,
      map_splitSlash_intercalate hslash, List.head?_cons, if_pos rfl,
      List.filterMap_cons_none hdot, Component.filterMap_ofPiece?_text h]

/-- The plainest spelling of the components of a path has these components. -/
theorem components_ofComponents (p : Path) :
    (ofComponents p.components).components = p.components := by
  obtain ⟨steps, hp, hsteps⟩ := p.exists_components_eq
  rw [hp, anchor]
  split
  · exact components_ofComponents_root hsteps
  · split
    · exact components_ofComponents_relative (.inr rfl) hsteps
    · exact components_ofComponents_relative (.inl rfl) hsteps

/-- A name written behind a path is a direct child of it. -/
theorem isDirectChild_child (p : Path) {text : String} (h : IsName text) :
    Safety.isDirectChild (p.child text) p = true := by
  simp [Safety.isDirectChild, parent?, fileName?, components_child_name p h, same,
    components_ofComponents]

/-! ### Steps -/

theorem ofPieces_append (front : List String) {back : List String} (h : back ≠ []) :
    Step.ofPieces (front ++ back) =
      (front.filter (· ≠ "")).map Step.ofPieces.ofPiece ++ Step.ofPieces back := by
  induction front with
  | nil => rfl
  | cons piece front ih =>
    rw [List.cons_append, Step.ofPieces, ih]
    · split
      next hpiece => simp [hpiece]
      next hpiece => simp [hpiece]
    · exact List.append_ne_nil_of_right_ne_nil front h

theorem ofPieces_eq_or (front : List String) :
    Step.ofPieces front = (front.filter (· ≠ "")).map Step.ofPieces.ofPiece ∨
      Step.ofPieces front = (front.filter (· ≠ "")).map Step.ofPieces.ofPiece ++ [.here] := by
  rcases front.eq_nil_or_concat with rfl | ⟨init, last, rfl⟩
  · exact .inl rfl
  · rw [List.concat_eq_append, ofPieces_append init (List.cons_ne_nil last []), Step.ofPieces]
    by_cases hlast : last = "" <;> simp [hlast]

theorem ofPiece_name {text : String} (h : IsName text) :
    Step.ofPieces [text] = [.name text] := by
  simp [Step.ofPieces, Step.ofPieces.ofPiece, h.1, h.2.1, h.2.2.1]

/-- A name written behind a path adds one step.  A closing slash of the path, which asks for a
folder, is left out then. -/
theorem exists_steps_child (p : Path) {text : String} (h : IsName text) :
    ∃ front, (p.child text).steps = front ++ [.name text] ∧
      (p.steps = front ∨ p.steps = front ++ [.here]) := by
  obtain ⟨front, hchild, hfront, -⟩ := p.exists_pieces_child (not_isAbsolute_name h)
  have hne : (Path.mk text).pieces ≠ [] := pieces_ne_nil _
  refine ⟨(front.filter (· ≠ "")).map Step.ofPieces.ofPiece, ?_, ?_⟩
  · rw [steps, hchild, ofPieces_append front hne, pieces_name h, ofPiece_name h]
  · rcases hfront with hp | hp
    · rw [steps, hp]
      exact ofPieces_eq_or front
    · rw [steps, hp, ofPieces_append front (List.cons_ne_nil "" [])]
      exact .inr rfl

end Path

/-- The component that a step stands for. -/
def Step.component? : Step → Option Component
  | .here => none
  | .up => some .up
  | .name text => some (.name text)

namespace Path

theorem filterMap_component?_ofPieces (pieces : List String) :
    (Step.ofPieces pieces).filterMap Step.component? = pieces.filterMap Component.ofPiece? := by
  have hpiece : ∀ piece, piece ≠ "" →
      (Step.ofPieces.ofPiece piece).component? = Component.ofPiece? piece := by
    intro piece hne
    rw [Step.ofPieces.ofPiece, Component.ofPiece?]
    by_cases hdot : piece = "."
    · simp [hdot, Step.component?]
    · by_cases hup : piece = ".." <;> simp [hne, hdot, hup, Step.component?]
  have hempty : Component.ofPiece? "" = none := rfl
  have hfilter : ∀ pieces : List String,
      ((pieces.filter (· ≠ "")).map Step.ofPieces.ofPiece).filterMap Step.component? =
        pieces.filterMap Component.ofPiece? := by
    intro pieces
    induction pieces with
    | nil => rfl
    | cons piece pieces ih =>
      by_cases hne : piece = ""
      · subst hne
        rw [List.filter_cons_of_neg (by simp), ih, List.filterMap_cons_none hempty]
      · rw [List.filter_cons_of_pos (by simpa using hne), List.map_cons, List.filterMap_cons,
          List.filterMap_cons, hpiece piece hne, ih]
  rcases ofPieces_eq_or pieces with h | h
  · rw [h, hfilter]
  · rw [h, List.filterMap_append, hfilter]
    exact List.append_nil _

/-- The steps of an absolute path say what its components say. -/
theorem components_eq_steps {p : Path} (h : p.isAbsolute = true) :
    p.components = .root :: p.steps.filterMap Step.component? := by
  rw [components, anchor, if_pos h, steps, filterMap_component?_ofPieces]
  rfl

theorem isAbsolute_of_components {p : Path} {rest : List Component}
    (h : p.components = .root :: rest) : p.isAbsolute = true := by
  by_cases habsolute : p.isAbsolute = true
  · exact habsolute
  · obtain ⟨steps, hp, hsteps⟩ := p.exists_components_eq
    rw [h, anchor, if_neg habsolute] at hp
    split at hp
    · cases hp
    · rw [List.nil_append] at hp
      exact (hsteps .root (hp ▸ List.mem_cons_self)).elim

/-! ### Slashes in front -/

/-- The path with more slashes in front. -/
def slashed (n : Nat) (p : Path) : Path :=
  ⟨String.ofList (List.replicate n '/') ++ p.text⟩

variable {p : Path}

theorem splitSlash_replicate (n : Nat) (cs : List Char) :
    splitSlash (List.replicate n '/' ++ cs) = List.replicate n [] ++ splitSlash cs := by
  induction n with
  | zero => rfl
  | succ n ih =>
    rw [List.replicate_succ, List.cons_append, splitSlash, if_pos rfl, ih, List.replicate_succ,
      List.cons_append]

theorem isAbsolute_slashed (n : Nat) (h : p.isAbsolute = true) :
    (p.slashed n).isAbsolute = true := by
  obtain ⟨cs, hcs⟩ := p.isAbsolute_iff.mp h
  rw [isAbsolute_iff]
  cases n with
  | zero => exact ⟨cs, by simp [slashed, hcs]⟩
  | succ n => exact ⟨_, by rw [slashed, String.toList_append, String.toList_ofList,
      List.replicate_succ, List.cons_append]⟩

theorem pieces_slashed (n : Nat) (h : p.isAbsolute = true) :
    (p.slashed n).pieces = List.replicate n "" ++ p.pieces := by
  obtain ⟨cs, hcs⟩ := p.isAbsolute_iff.mp h
  cases n with
  | zero => simp [slashed]
  | succ n =>
    have htext : (p.slashed (n + 1)).text.toList =
        '/' :: (List.replicate n '/' ++ '/' :: cs) := by
      rw [slashed, String.toList_append, String.toList_ofList, List.replicate_succ, hcs,
        List.cons_append]
    rw [pieces_of_isAbsolute htext, pieces_of_isAbsolute hcs, splitSlash_replicate, splitSlash,
      if_pos rfl, List.map_append, List.map_replicate, List.replicate_succ', List.append_assoc]
    rfl

/-- Further slashes in front do not change what an absolute path says. -/
theorem components_slashed (n : Nat) (h : p.isAbsolute = true) :
    (p.slashed n).components = p.components := by
  have hempty : Component.ofPiece? "" = none := rfl
  rw [components, components, anchor, anchor, if_pos (isAbsolute_slashed n h), if_pos h,
    pieces_slashed n h, List.filterMap_append, List.filterMap_replicate_of_none hempty,
    List.nil_append]

theorem steps_slashed (n : Nat) (h : p.isAbsolute = true) : (p.slashed n).steps = p.steps := by
  rw [steps, steps, pieces_slashed n h, ofPieces_append _ p.pieces_ne_nil]
  simp

theorem utf8ByteSize_slashed (n : Nat) (p : Path) :
    (p.slashed n).text.utf8ByteSize = n + p.text.utf8ByteSize := by
  induction n with
  | zero => simp [slashed]
  | succ n ih =>
    have htext : (p.slashed (n + 1)).text = "/" ++ (p.slashed n).text := by
      rw [← String.toList_inj]
      simp [slashed, List.replicate_succ]
    have hslash : "/".utf8ByteSize = 1 := rfl
    rw [htext, String.utf8ByteSize_append, hslash, ih]
    omega

theorem child_slashed (n : Nat) (h : p.isAbsolute = true) {text : String}
    (ht : ¬(Path.mk text).isAbsolute = true) :
    (p.slashed n).child text = (p.child text).slashed n := by
  obtain ⟨cs, hcs⟩ := p.isAbsolute_iff.mp h
  have hne : p.text ≠ "" := fun he => by simp [he] at hcs
  have hne' : (p.slashed n).text ≠ "" := fun he => by
    simp [← String.toList_inj, slashed, hcs] at he
  have hlast : (p.slashed n).text.toList.getLast? = p.text.toList.getLast? := by
    simp [slashed, hcs, List.getLast?_append, List.getLast?_cons]
  simp only [child, join, if_neg ht, hne, hne', hlast, false_or]
  split <;> simp [slashed, String.append_assoc]

end Path

end Reclaim
