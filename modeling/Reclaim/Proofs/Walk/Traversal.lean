import Reclaim.Proofs.Bytes
import Reclaim.Proofs.Walk.Within

/-!
# What a walk comes to

A walk is a machine that goes from entry to entry and forgets the folders it is done with.  What it
comes to is a matter of the tree alone: the entries below the start, each in front of its own, less
those that are hidden or inside a bundle.  A folder that cannot be listed has an error in place of
what is below it.  This is said by recursion on the tree, and a walk has at every moment the same
ahead of it as its listings hold.

## Main definitions

* `Node.insideEntry`, `Node.inside` : an entry with those below it, and the entries below a node,
  with their places.
* `Node.walked` : what a walk meets below an entry.
* `Walker.ahead` : what a walk meets in some listings.
* `Node.isListed`, `Item.allOf` : the entry is in a folder that can be listed, and what is told of
  it.

## Main results

* `Node.mem_inside_iff`, `Node.pairwise_inside` : the entries below a node and their order.
* `Node.walked_eq` : what a walk meets, by the entries below a node.
* `Walker.map_allMet`, `Walker.allFound_eq` : what a walk meets and finds.
* `Disk.enumerate_eq`, `Disk.folderSize_eq` : what is found, and the bytes that are counted.
-/

namespace Reclaim

/-! ### Names at the end of a path -/

/-- The name has the ending of a bundle. -/
def isBundleName (name : String) : Bool :=
  (Path.mk name).isBundle

namespace Path

variable {name : String}

theorem fileName?_child (p : Path) (h : IsName name) : (p.child name).fileName? = some name := by
  simp [fileName?, components_child_name p h]

/-- Whether an entry has the ending of a bundle is told by its name alone. -/
theorem isBundle_child (p : Path) (h : IsName name) :
    (p.child name).isBundle = isBundleName name := by
  have hname : (Path.mk name).fileName? = some name := by
    simp [fileName?, components, anchor, pieces_name h, not_isAbsolute_name h, h.2.1,
      ofPiece?_name h]
  rw [isBundleName, isBundle, isBundle, extension?, extension?, fileName?_child p h, hname]

end Path

/-! ### The entries below a node -/

namespace Node

variable {hides closes : String → Bool} {node node' : Node} {name : String}
  {entries : List (String × Node)} {place : Place} {below : List (Place × Node)}

/-- An entry of a folder with those below it: nothing if its name is hidden, and it alone if its
name is closed. -/
def insideEntry (hides closes : String → Bool) (name : String) (node : Node)
    (below : List (Place × Node)) : List (Place × Node) :=
  if hides name then []
  else ([name], node) :: if closes name then [] else below.map (Prod.map (name :: ·) id)

mutual

/-- The entries below a node with their places below it, each in front of its own.  An entry whose
name is hidden is left out with all below it, and so is what is below one whose name is closed. -/
def inside (hides closes : String → Bool) : Node → List (Place × Node)
  | .folder entries => insideEntries hides closes entries
  | _ => []
termination_by structural node => node

/-- The entries of a list and below them. -/
def insideEntries (hides closes : String → Bool) : List (String × Node) → List (Place × Node)
  | [] => []
  | (name, node) :: entries =>
    insideEntry hides closes name node (inside hides closes node) ++
      insideEntries hides closes entries
termination_by structural entries => entries

end

theorem mem_insideEntry_iff : (place, node') ∈ insideEntry hides closes name node below ↔
    hides name = false ∧ (place = [name] ∧ node' = node ∨
      closes name = false ∧ ∃ q, place = name :: q ∧ (q, node') ∈ below) := by
  cases hhides : hides name with
  | true => simp [insideEntry, hhides]
  | false =>
    cases hcloses : closes name with
    | true => simp [insideEntry, hhides, hcloses]
    | false =>
      simp only [insideEntry, hhides, hcloses, Bool.false_eq_true, if_false, List.mem_cons,
        Prod.mk.injEq, List.mem_map, true_and]
      refine or_congr_right ⟨?_, ?_⟩
      · rintro ⟨⟨q, node'⟩, hmem, heq⟩
        cases heq
        exact ⟨q, rfl, hmem⟩
      · rintro ⟨q, rfl, hmem⟩
        exact ⟨(q, node'), hmem, rfl⟩

/-- All places of an entry and below it begin with its name. -/
theorem exists_eq_cons_of_mem_insideEntry
    (h : (place, node') ∈ insideEntry hides closes name node below) : ∃ q, place = name :: q := by
  obtain ⟨-, ⟨rfl, -⟩ | ⟨-, q, rfl, -⟩⟩ := mem_insideEntry_iff.mp h
  · exact ⟨[], rfl⟩
  · exact ⟨q, rfl⟩

theorem mem_insideEntries_iff : (place, node') ∈ insideEntries hides closes entries ↔
    ∃ entry ∈ entries, (place, node') ∈
      insideEntry hides closes entry.1 entry.2 (inside hides closes entry.2) := by
  induction entries with
  | nil => simp [insideEntries]
  | cons entry entries ih => rw [insideEntries, List.mem_append, ih, List.exists_mem_cons_iff]

theorem ne_nil_of_mem_inside (h : (place, node') ∈ inside hides closes node) : place ≠ [] := by
  cases node with
  | folder entries =>
    obtain ⟨entry, -, hmem⟩ := mem_insideEntries_iff.mp h
    obtain ⟨q, rfl⟩ := exists_eq_cons_of_mem_insideEntry hmem
    exact List.cons_ne_nil _ _
  | file => cases h
  | link => cases h

/-- The entries below a node: no name on the way to them is hidden, and none above them is
closed. -/
theorem mem_inside_iff (hsound : Sound node) : (place, node') ∈ inside hides closes node ↔
    place ≠ [] ∧ at? place node = some node' ∧ (∀ name ∈ place, hides name = false) ∧
      ∀ name ∈ place.dropLast, closes name = false := by
  induction hsound generalizing place with
  | file => cases place <;> simp [inside, at?]
  | link => cases place <;> simp [inside, at?]
  | folder entries once named nodes ih =>
    rw [inside, mem_insideEntries_iff]
    constructor
    · rintro ⟨⟨name, child⟩, hentry, hmem⟩
      obtain ⟨hshown, ⟨rfl, rfl⟩ | ⟨hopen, q, rfl, hbelow⟩⟩ := mem_insideEntry_iff.mp hmem
      · simp [at?, lookup_of_mem once hentry, hshown]
      · obtain ⟨hq, hat, hhidden, hclosed⟩ := (ih _ hentry).mp hbelow
        refine ⟨List.cons_ne_nil _ _, ?_, ?_, ?_⟩
        · rw [at?, lookup_of_mem once hentry]
          exact hat
        · exact List.forall_mem_cons.mpr ⟨hshown, hhidden⟩
        · rw [List.dropLast_cons_of_ne_nil hq]
          exact List.forall_mem_cons.mpr ⟨hopen, hclosed⟩
    · rintro ⟨hplace, hat, hhidden, hclosed⟩
      obtain ⟨name, q, rfl⟩ := List.exists_cons_of_ne_nil hplace
      obtain ⟨child, hchild, hbelow⟩ := Option.bind_eq_some_iff.mp hat
      have hentry := mem_of_lookup hchild
      obtain ⟨hshown, hhidden⟩ := List.forall_mem_cons.mp hhidden
      refine ⟨(name, child), hentry, mem_insideEntry_iff.mpr ⟨hshown, ?_⟩⟩
      by_cases hq : q = []
      · subst hq
        exact .inl ⟨rfl, (Option.some.inj hbelow).symm⟩
      · rw [List.dropLast_cons_of_ne_nil hq] at hclosed
        obtain ⟨hopen, hclosed⟩ := List.forall_mem_cons.mp hclosed
        exact .inr ⟨hopen, q, rfl, (ih _ hentry).mpr ⟨hq, hbelow, hhidden, hclosed⟩⟩

theorem pairwise_insideEntry (hbelow : below.Pairwise fun a b => ¬b.1 <+: a.1)
    (hne : ∀ e ∈ below, e.1 ≠ []) :
    (insideEntry hides closes name node below).Pairwise fun a b => ¬b.1 <+: a.1 := by
  rw [insideEntry]
  split
  · exact .nil
  split
  · exact List.pairwise_singleton _ _
  refine List.Pairwise.cons ?_ ?_
  · intro e he
    obtain ⟨e', he', rfl⟩ := List.mem_map.mp he
    simpa [List.cons_prefix_cons] using hne e' he'
  · rw [List.pairwise_map]
    refine hbelow.imp fun hprefix => ?_
    simpa [List.cons_prefix_cons] using hprefix

/-- An entry comes once, and never behind one below it. -/
theorem pairwise_inside (hsound : Sound node) :
    (inside hides closes node).Pairwise fun a b => ¬b.1 <+: a.1 := by
  induction hsound with
  | file => exact .nil
  | link => exact .nil
  | folder entries once named nodes ih =>
    rw [inside]
    clear named nodes
    induction entries with
    | nil => exact .nil
    | cons entry entries ihentries =>
      obtain ⟨name, child⟩ := entry
      rw [List.map_cons, List.nodup_cons] at once
      rw [insideEntries, List.pairwise_append]
      refine ⟨pairwise_insideEntry (ih _ List.mem_cons_self) fun e => ne_nil_of_mem_inside,
        ihentries once.2 fun e he => ih e (List.mem_cons_of_mem _ he), ?_⟩
      -- what is under this name is never below an entry under another one
      rintro ⟨place, node⟩ hmem ⟨place', node'⟩ hmem' hprefix
      obtain ⟨q, rfl⟩ := exists_eq_cons_of_mem_insideEntry hmem
      obtain ⟨entry, hentry, hmem'⟩ := mem_insideEntries_iff.mp hmem'
      obtain ⟨q', rfl⟩ := exists_eq_cons_of_mem_insideEntry hmem'
      obtain ⟨hsame, -⟩ := List.cons_prefix_cons.mp hprefix
      exact once.1 (List.mem_map.mpr ⟨entry, hentry, hsame⟩)

theorem nodup_inside (hsound : Sound node) : (inside hides closes node).Nodup := by
  refine (pairwise_inside hsound).imp fun hprefix heq => ?_
  exact hprefix (heq ▸ List.prefix_refl _)

/-- Showing less leaves out some of the entries. -/
theorem sublist_inside (hides closes : String → Bool) (node : Node) :
    (inside hides closes node).Sublist (inside (fun _ => false) (fun _ => false) node) := by
  induction node using Node.rec
    (motive_2 := fun entries => (insideEntries hides closes entries).Sublist
      (insideEntries (fun _ => false) (fun _ => false) entries))
    (motive_3 := fun entry => (inside hides closes entry.2).Sublist
      (inside (fun _ => false) (fun _ => false) entry.2)) with
  | file => exact .slnil
  | link => exact .slnil
  | folder entries ih => exact ih
  | nil => exact .slnil
  | cons entry entries ih ihrest =>
    rw [insideEntries, insideEntries, insideEntry]
    refine .append ?_ ihrest
    split
    · exact List.nil_sublist _
    · refine .cons_cons _ ?_
      split
      · exact List.nil_sublist _
      · exact ih.map _
  | mk name node ih => exact ih

/-- The bytes of the files among some entries. -/
def bytesOfFiles (found : List (Place × Node)) : Nat :=
  ((found.filter fun e => e.2.isFile).map fun e => e.2.length).sum

theorem bytesOfFiles_nil : bytesOfFiles [] = 0 := rfl

theorem bytesOfFiles_cons (e : Place × Node) (found : List (Place × Node)) :
    bytesOfFiles (e :: found) = (if e.2.isFile then e.2.length else 0) + bytesOfFiles found := by
  rw [bytesOfFiles, List.filter_cons]
  cases e.2.isFile <;> simp [bytesOfFiles]

theorem bytesOfFiles_append (found found' : List (Place × Node)) :
    bytesOfFiles (found ++ found') = bytesOfFiles found + bytesOfFiles found' := by
  simp [bytesOfFiles]

theorem bytesOfFiles_map (name : String) (found : List (Place × Node)) :
    bytesOfFiles (found.map (Prod.map (name :: ·) id)) = bytesOfFiles found := by
  simp [bytesOfFiles, List.filter_map, Function.comp_def]

theorem bytesOfFiles_perm {found found' : List (Place × Node)} (h : found.Perm found') :
    bytesOfFiles found = bytesOfFiles found' :=
  ((h.filter _).map _).sum_eq

/-- Everything below a node. -/
def allInside (node : Node) : List (Place × Node) :=
  inside (fun _ => false) (fun _ => false) node

mutual

/-- The bytes of a tree are those of the files in it. -/
theorem bytesOfFiles_allInside : (node : Node) →
    bytesOfFiles (([], node) :: node.allInside) = node.fileBytes
  | .file _ _ => rfl
  | .link _ => rfl
  | .folder entries => by
    rw [bytesOfFiles_cons, allInside, inside, bytesOfFiles_insideEntries entries]
    exact Nat.zero_add _

theorem bytesOfFiles_insideEntries : (entries : List (String × Node)) →
    bytesOfFiles (insideEntries (fun _ => false) (fun _ => false) entries) = entryBytes entries
  | [] => rfl
  | (name, node) :: entries => by
    have hentry := bytesOfFiles_allInside node
    rw [bytesOfFiles_cons, allInside] at hentry
    rw [insideEntries, bytesOfFiles_append, bytesOfFiles_insideEntries entries, entryBytes,
      ← hentry]
    simp [insideEntry, bytesOfFiles_cons, bytesOfFiles_map]

end

/-- The length of a file at a place below a path, if it can be measured. -/
def measuredLength (p : Path) (e : Place × Node) : Nat :=
  if e.2.isFile && !(p.descend e.1).isTooLong then e.2.length else 0

/-- The lengths that can be measured are those of the files whose paths are not too long. -/
theorem sum_measuredLength (p : Path) (found : List (Place × Node)) :
    (found.map (measuredLength p)).sum = ((found.filter fun e =>
      e.2.isFile && !(p.descend e.1).isTooLong).map fun e => e.2.length).sum := by
  induction found with
  | nil => rfl
  | cons e found ih =>
    rw [List.map_cons, List.sum_cons, ih, measuredLength, List.filter_cons]
    split <;> simp

/-- No file can be measured whose path begins with one that is too long. -/
theorem sum_measuredLength_insideEntry (hsound : Sound node) {p : Path}
    (hlong : (p.child name).isTooLong = true) :
    ((insideEntry hides closes name node (inside hides closes node)).map
      (measuredLength p)).sum = 0 := by
  refine List.sum_eq_zero (List.forall_mem_map.mpr ?_)
  rintro ⟨place, node'⟩ hmem
  obtain ⟨-, ⟨rfl, -⟩ | ⟨-, q, rfl, hbelow⟩⟩ := mem_insideEntry_iff.mp hmem
  · simp [measuredLength, hlong]
  · have hthere := ((mem_inside_iff hsound).mp hbelow).2.1
    have hlonger := Path.isTooLong_descend
      (fun n hn => (isEntryName_of_at? hsound hthere n hn).1) hlong
    simp [measuredLength, hlonger]

/-- The bytes of the files below a node that paths reach, hidden or not. -/
theorem bytesOfFiles_inside_within (hsound : Sound node) (p : Path) :
    bytesOfFiles (inside hides closes (node.within p)) =
      ((inside hides closes node).map (measuredLength p)).sum := by
  induction hsound generalizing p with
  | file => rfl
  | link => rfl
  | folder entries once named nodes ih =>
    rw [within, inside, inside]
    clear once named
    induction entries with
    | nil => rfl
    | cons entry entries ihentries =>
      obtain ⟨name, node⟩ := entry
      obtain ⟨hnode, hnodes⟩ := List.forall_mem_cons.mp nodes
      obtain ⟨ih, ihrest⟩ := List.forall_mem_cons.mp ih
      have hrest := ihentries hnodes ihrest
      rw [entriesWithin, insideEntries, List.map_append, List.sum_append, ← hrest]
      cases hlong : (p.child name).isTooLong with
      | true =>
        rw [if_pos rfl, sum_measuredLength_insideEntry hnode hlong, Nat.zero_add]
      | false =>
        have hfirst : measuredLength p ([name], node) = if node.isFile then node.length else 0 := by
          simp [measuredLength, hlong]
        have hbelow : (measuredLength p ∘ Prod.map (name :: ·) id) =
            measuredLength (p.child name) := rfl
        rw [if_neg Bool.false_ne_true, insideEntries, bytesOfFiles_append, insideEntry,
          insideEntry]
        refine congrArg (· + _) ?_
        cases hides name with
        | true => rfl
        | false =>
          cases closes name with
          | true => simp [bytesOfFiles_cons, bytesOfFiles_nil, isFile_within, length_within, hfirst]
          | false =>
            simp [bytesOfFiles_cons, bytesOfFiles_map, isFile_within, length_within, hfirst, hbelow,
              ih]

/-- All bytes of a folder that paths reach. -/
theorem fileBytes_within (hsound : Sound (.folder entries)) (p : Path) :
    ((Node.folder entries).within p).fileBytes =
      ((Node.folder entries).allInside.map (measuredLength p)).sum := by
  rw [allInside, ← bytesOfFiles_inside_within hsound, ← bytesOfFiles_allInside, bytesOfFiles_cons]
  exact Nat.zero_add _

/-! ### What a walk meets -/

mutual

/-- What a walk meets below an entry at a path, or that it cannot be listed. -/
def walked (hides closes : String → Bool) (p : Path) : Node → List (Except WalkError (Path × Node))
  | .folder entries =>
    if p.isTooLong then [.error (.tooLong p)] else walkedEntries hides closes p entries
  | _ => []
termination_by structural node => node

/-- What a walk meets of the entries of a folder and below them. -/
def walkedEntries (hides closes : String → Bool) (p : Path) :
    List (String × Node) → List (Except WalkError (Path × Node))
  | [] => []
  | (name, node) :: entries =>
    (if hides name then [] else .ok (p.child name, node) ::
      if closes name then [] else walked hides closes (p.child name) node) ++
    walkedEntries hides closes p entries
termination_by structural entries => entries

end

/-- The folder of an entry at a place below a path can be listed. -/
def isListed (p : Path) (e : Place × Node) : Bool :=
  !(p.descend e.1.dropLast).isTooLong

/-- The entry at a place below a path, and the error if it is a folder that cannot be listed. -/
def metAt (closes : String → Bool) (p : Path) (e : Place × Node) :
    List (Except WalkError (Path × Node)) :=
  .ok (p.descend e.1, e.2) ::
    if e.2.isFolder && !e.1.getLast?.any closes && (p.descend e.1).isTooLong then
      [.error (.tooLong (p.descend e.1))] else []

variable {p : Path}

theorem metAt_cons (closes : String → Bool) (p : Path) (name : String) (e : Place × Node)
    (h : e.1 ≠ []) : metAt closes p (name :: e.1, e.2) = metAt closes (p.child name) e := by
  rw [metAt, metAt, List.getLast?_cons_of_ne_nil h]
  rfl

/-- A file can only be measured if its folder can be listed. -/
theorem measuredLength_of_not_isListed {e : Place × Node} (hsound : Sound node)
    (he : e ∈ inside hides closes node) (h : isListed p e = false) : measuredLength p e = 0 := by
  obtain ⟨hbelow, hthere, -⟩ := (mem_inside_iff hsound).mp he
  obtain ⟨place, name, hplace⟩ := (List.eq_nil_or_concat' e.1).resolve_left hbelow
  have hname : IsName name := (isEntryName_of_at? hsound hthere name (by simp [hplace])).1
  have hlong : (p.descend e.1).isTooLong = true := by
    rw [isListed, hplace, List.dropLast_concat, Bool.not_eq_false'] at h
    rw [hplace, Path.descend_append]
    exact Path.isTooLong_child hname h
  simp [measuredLength, hlong]

/-- Nothing is listed below too long a path. -/
theorem filter_isListed_of_isTooLong (hsound : Sound node) (hlong : p.isTooLong = true) :
    (inside hides closes node).filter (isListed p) = [] := by
  rw [List.filter_eq_nil_iff]
  rintro ⟨place, node'⟩ hmem
  have hthere := ((mem_inside_iff hsound).mp hmem).2.1
  have hnames : ∀ name ∈ place.dropLast, IsName name := fun name hname =>
    (isEntryName_of_at? hsound hthere name (List.dropLast_subset _ hname)).1
  simp [isListed, Path.isTooLong_descend hnames hlong]

/-- What a walk meets of an entry of a folder that can be listed. -/
theorem flatMap_insideEntry (hshort : p.isTooLong = false) (hsound : Sound node) :
    ((insideEntry hides closes name node (inside hides closes node)).filter (isListed p)).flatMap
        (metAt closes p) =
      if hides name then [] else .ok (p.child name, node) ::
        if closes name then []
        else if node.isFolder && (p.child name).isTooLong then [.error (.tooLong (p.child name))]
        else ((inside hides closes node).filter (isListed (p.child name))).flatMap
          (metAt closes (p.child name)) := by
  have hfirst : isListed p ([name], node) = true := by simp [isListed, hshort]
  have hbelow : ((inside hides closes node).map (Prod.map (name :: ·) id)).filter (isListed p) =
      ((inside hides closes node).filter (isListed (p.child name))).map
        (Prod.map (name :: ·) id) := by
    rw [List.filter_map]
    refine congrArg _ (List.filter_congr fun e he => ?_)
    simp [isListed, List.dropLast_cons_of_ne_nil (ne_nil_of_mem_inside he)]
  have hmet : (((inside hides closes node).filter (isListed (p.child name))).map
      (Prod.map (name :: ·) id)).flatMap (metAt closes p) =
        ((inside hides closes node).filter (isListed (p.child name))).flatMap
          (metAt closes (p.child name)) := by
    rw [List.flatMap_map]
    refine List.flatMap_congr fun e he => ?_
    exact metAt_cons closes p name e (ne_nil_of_mem_inside (List.mem_filter.mp he).1)
  rw [insideEntry]
  cases hhides : hides name with
  | true => rfl
  | false =>
    cases hcloses : closes name with
    | true => simp [hfirst, metAt, hcloses]
    | false =>
      simp only [Bool.false_eq_true, if_false, List.filter_cons_of_pos hfirst, List.flatMap_cons,
        hbelow, hmet]
      cases hlong : (p.child name).isTooLong with
      | false => simp [metAt, hlong]
      | true =>
        rw [filter_isListed_of_isTooLong hsound hlong]
        cases hfolder : node.isFolder <;> simp [metAt, hlong, hfolder, hcloses]

/-- A walk meets the entries below a node whose folders can be listed. -/
theorem walked_eq (hsound : Sound node) : walked hides closes p node =
    if node.isFolder && p.isTooLong then [.error (.tooLong p)]
    else ((inside hides closes node).filter (isListed p)).flatMap (metAt closes p) := by
  induction hsound generalizing p with
  | file => rfl
  | link => rfl
  | folder entries once named nodes ih =>
    rw [walked, isFolder, Bool.true_and]
    split
    next => rfl
    next hshort =>
      rw [Bool.not_eq_true] at hshort
      rw [inside]
      clear once named
      induction entries with
      | nil => rfl
      | cons entry entries ihentries =>
        obtain ⟨hnode, hnodes⟩ := List.forall_mem_cons.mp nodes
        obtain ⟨ih, ihrest⟩ := List.forall_mem_cons.mp ih
        rw [walkedEntries, insideEntries, List.filter_append, List.flatMap_append,
          flatMap_insideEntry hshort hnode, ih, ihentries hnodes ihrest]

/-! ### Bytes -/

/-- The bytes that are counted of what a walk meets. -/
def readBytes : Except WalkError (Path × Node) → Nat
  | .ok (p, node) => if node.isFile then (node.lengthAt p).toOption.getD 0 else 0
  | .error _ => 0

theorem readBytes_of_isTooLong (hlong : p.isTooLong = true) (node : Node) :
    readBytes (.ok (p, node)) = 0 := by
  simp [readBytes, lengthAt, hlong, Except.toOption]

mutual

/-- The bytes that are counted on a walk are those that paths reach. -/
theorem sum_walked (p : Path) (hshort : p.isTooLong = false) : (node : Node) →
    ((.ok (p, node) :: walked (fun _ => false) (fun _ => false) p node).map readBytes).sum =
      (node.within p).fileBytes
  | .file mode content => by
    simp [walked, readBytes, isFile, lengthAt, hshort, within, fileBytes, length, Except.toOption]
  | .link target => by simp [walked, readBytes, isFile, within, fileBytes]
  | .folder entries => by
    rw [walked, hshort, List.map_cons, List.sum_cons, if_neg Bool.false_ne_true,
      sum_walkedEntries p entries]
    exact Nat.zero_add _

theorem sum_walkedEntries (p : Path) : (entries : List (String × Node)) →
    ((walkedEntries (fun _ => false) (fun _ => false) p entries).map readBytes).sum =
      entryBytes (entriesWithin p entries)
  | [] => rfl
  | (name, node) :: entries => by
    have hrest := sum_walkedEntries p entries
    rw [walkedEntries, entriesWithin, List.map_append, List.sum_append, hrest]
    simp only [Bool.false_eq_true, if_false]
    cases hlong : (p.child name).isTooLong with
    | false =>
      rw [sum_walked (p.child name) hlong node]
      rfl
    | true =>
      -- an entry that is out of reach has no bytes, and nothing below it is met
      have hbelow : ((walked (fun _ => false) (fun _ => false) (p.child name) node).map
          readBytes).sum = 0 := by
        cases node <;> simp [walked, hlong, readBytes]
      rw [List.map_cons, List.sum_cons, readBytes_of_isTooLong hlong, hbelow]
      exact Nat.zero_add _

end

end Node

/-! ### What is ahead of a walk -/

namespace Walker

variable {hides closes : String → Bool} {w w' : Walker} {path : Path} {name : String} {node : Node}
  {rest : List (String × Node)} {listings listings' : List Listing}

/-- What a walk meets in some listings and below their entries, in its order. -/
def ahead (hides closes : String → Bool) (listings : List Listing) :
    List (Except WalkError (Path × Node)) :=
  listings.flatMap fun
    | .refused e => [.error e]
    | .entries path rest => Node.walkedEntries hides closes path rest

@[simp] theorem ahead_nil (hides closes : String → Bool) : ahead hides closes [] = [] := rfl

theorem ahead_refused (e : WalkError) (listings : List Listing) :
    ahead hides closes (.refused e :: listings) = .error e :: ahead hides closes listings :=
  rfl

theorem ahead_entries (path : Path) (name : String) (node : Node) (rest : List (String × Node))
    (listings : List Listing) :
    ahead hides closes (.entries path ((name, node) :: rest) :: listings) =
      (if hides name then [] else .ok (path.child name, node) ::
        if closes name then [] else node.walked hides closes (path.child name)) ++
      ahead hides closes (.entries path rest :: listings) := by
  simp only [ahead, List.flatMap_cons, Node.walkedEntries, List.append_assoc]

theorem ahead_enter (path : Path) (node : Node) (listings : List Listing) :
    ahead hides closes (enter path node listings) =
      node.walked hides closes path ++ ahead hides closes listings := by
  cases node with
  | folder entries =>
    rw [enter, Listing.ofFolder, Node.walked]
    split <;> rfl
  | file => rfl
  | link => rfl

/-- Once an entry has been met and is left, the walk is where it was but for the entry. -/
theorem leave_enter (path : Path) (node : Node) (listings : List Listing) :
    (if node.isFolder then leave ⟨none, enter path node listings⟩
      else ⟨none, enter path node listings⟩) = ⟨none, listings⟩ := by
  cases node <;> rfl

/-- A step of a walk: it is over, or a folder cannot be listed, or the first entry of a listing is
met and the walk goes into it. -/
theorem next_cases (hides closes : String → Bool) (listings : List Listing) :
    (next ⟨none, listings⟩ = none ∧ ahead hides closes listings = []) ∨
    (∃ e outer, next ⟨none, listings⟩ = some (.error e, ⟨none, outer⟩) ∧ outer <:+ listings ∧
      ahead hides closes listings = .error e :: ahead hides closes outer) ∨
    ∃ path name node rest outer,
      next ⟨none, listings⟩ = some (.ok ⟨path.child name, node, outer.length + 1⟩,
        ⟨none, enter (path.child name) node (.entries path rest :: outer)⟩) ∧
      .entries path ((name, node) :: rest) :: outer <:+ listings ∧
      ahead hides closes listings =
        ahead hides closes (.entries path ((name, node) :: rest) :: outer) := by
  rw [next]
  fun_induction nextListed listings with
  | case1 => exact .inl ⟨rfl, rfl⟩
  | case2 e listings =>
    exact .inr (.inl ⟨e, listings, rfl, List.suffix_cons _ _, ahead_refused e listings⟩)
  | case3 path listings ih =>
    obtain hover | ⟨e, outer, hnext, hsuffix, hahead⟩ |
      ⟨path', name, node, rest, outer, hnext, hsuffix, hahead⟩ := ih
    · exact .inl hover
    · exact .inr (.inl ⟨e, outer, hnext, hsuffix.trans (List.suffix_cons _ _), hahead⟩)
    · exact .inr (.inr ⟨path', name, node, rest, outer, hnext,
        hsuffix.trans (List.suffix_cons _ _), hahead⟩)
  | case4 path name node rest listings here =>
    exact .inr (.inr ⟨path, name, node, rest, listings, rfl, List.suffix_rfl, rfl⟩)

/-- A walk meets all that its listings hold. -/
theorem map_allMet (listings : List Listing) :
    (allMet ⟨none, listings⟩).map (Except.map fun met => (met.path, met.node)) =
      ahead (fun _ => false) (fun _ => false) listings := by
  generalize hw : Walker.mk none listings = w
  fun_induction allMet w generalizing listings with
  | case1 w hnone =>
    subst hw
    obtain ⟨-, hahead⟩ | ⟨e, outer, hnext, -⟩ | ⟨path, name, node, rest, outer, hnext, -⟩ :=
      next_cases (fun _ => false) (fun _ => false) listings
    · exact hahead.symm
    · cases hnone.symm.trans hnext
    · cases hnone.symm.trans hnext
  | case2 w met w' hsome ih =>
    subst hw
    obtain ⟨hnext, -⟩ | ⟨e, outer, hnext, -, hahead⟩ |
      ⟨path, name, node, rest, outer, hnext, -, hahead⟩ :=
      next_cases (fun _ => false) (fun _ => false) listings
    · cases hsome.symm.trans hnext
    · cases hsome.symm.trans hnext
      rw [List.map_cons, ih _ rfl, hahead]
      rfl
    · cases hsome.symm.trans hnext
      rw [List.map_cons, ih _ rfl, ahead_enter, hahead, ahead_entries]
      rfl

/-- What some listings hold is sound. -/
def Sound (listings : List Listing) : Prop :=
  ∀ path rest, .entries path rest ∈ listings → (Node.folder rest).Sound

theorem Sound.of_suffix (h : Sound listings) (hsuffix : listings' <:+ listings) :
    Sound listings' :=
  fun path rest hmem => h path rest (hsuffix.mem hmem)

/-- What is known of the next entry, and of what comes after it. -/
theorem Sound.next (h : Sound (.entries path ((name, node) :: rest) :: listings)) :
    Node.IsEntryName name ∧ node.Sound ∧ Sound (.entries path rest :: listings) := by
  have hfirst := h path _ List.mem_cons_self
  refine ⟨hfirst.named List.mem_cons_self, hfirst.nodes List.mem_cons_self, ?_⟩
  intro path' rest' hmem
  rcases List.mem_cons.mp hmem with hsame | hmem
  · cases hsame
    exact hfirst.updateFolder List.tail_sublist []
  · exact h path' rest' (List.mem_cons_of_mem _ hmem)

theorem Sound.enter (h : Sound listings) (hnode : node.Sound) (path : Path) :
    Sound (enter path node listings) := by
  cases node with
  | folder entries =>
    intro path' rest hmem
    rw [Walker.enter, Listing.ofFolder] at hmem
    rcases List.mem_cons.mp hmem with hsame | hmem
    · split at hsame <;> cases hsame
      exact hnode
    · exact h path' rest hmem
  | file => exact h
  | link => exact h

theorem name_child (path : Path) (node : Node) (depth : Nat) (h : Node.IsEntryName name) :
    (Met.mk (path.child name) node depth).name = name := by
  rw [Met.name, Path.fileName?_child path h.1]
  rfl

/-- The next entry that is shown is the first one ahead, and the walk goes into it.  A folder that
cannot be listed may come before. -/
theorem nextShown_cases (closes : String → Bool) (hsound : Sound listings) :
    (nextShown ⟨none, listings⟩ = none ∧ ahead isHiddenName closes listings = []) ∨
    (∃ e outer, nextShown ⟨none, listings⟩ = some (.error e, ⟨none, outer⟩) ∧ Sound outer ∧
      ahead isHiddenName closes listings = .error e :: ahead isHiddenName closes outer) ∨
    ∃ (path : Path) (name : String) (node : Node) (depth : Nat) (listings' : List Listing),
      nextShown ⟨none, listings⟩ = some (.ok ⟨path.child name, node, depth + 1⟩,
        ⟨none, enter (path.child name) node listings'⟩) ∧
      Node.IsEntryName name ∧ node.Sound ∧ Sound listings' ∧
      ahead isHiddenName closes listings = .ok (path.child name, node) ::
        (if closes name then [] else node.walked isHiddenName closes (path.child name)) ++
        ahead isHiddenName closes listings' := by
  generalize hw : Walker.mk none listings = w
  fun_induction nextShown w generalizing listings with
  | case1 w hnone =>
    subst hw
    obtain ⟨-, hahead⟩ | ⟨e, outer, hnext, -⟩ | ⟨path, name, node, rest, outer, hnext, -⟩ :=
      next_cases isHiddenName closes listings
    · exact .inl ⟨rfl, hahead⟩
    · cases hnone.symm.trans hnext
    · cases hnone.symm.trans hnext
  | case2 w e w' hsome =>
    subst hw
    obtain ⟨hnext, -⟩ | ⟨e, outer, hnext, hsuffix, hahead⟩ |
      ⟨path, name, node, rest, outer, hnext, -⟩ := next_cases isHiddenName closes listings
    · cases hsome.symm.trans hnext
    · cases hsome.symm.trans hnext
      exact .inr (.inl ⟨e, outer, rfl, hsound.of_suffix hsuffix, hahead⟩)
    · cases hsome.symm.trans hnext
  | case3 w met w' hsome hshown =>
    subst hw
    obtain ⟨hnext, -⟩ | ⟨e, outer, hnext, -⟩ |
      ⟨path, name, node, rest, outer, hnext, hsuffix, hahead⟩ :=
      next_cases isHiddenName closes listings
    · cases hsome.symm.trans hnext
    · cases hsome.symm.trans hnext
    · cases hsome.symm.trans hnext
      obtain ⟨hname, hnode, hrest⟩ := (hsound.of_suffix hsuffix).next
      have hshows : isHiddenName name = false := by
        simpa [Met.isShown, name_child _ _ _ hname] using hshown
      refine .inr (.inr ⟨path, name, node, _, _, rfl, hname, hnode, hrest, ?_⟩)
      rw [hahead, ahead_entries, hshows]
      rfl
  | case4 w met w' hsome hhidden ih =>
    subst hw
    obtain ⟨hnext, -⟩ | ⟨e, outer, hnext, -⟩ |
      ⟨path, name, node, rest, outer, hnext, hsuffix, hahead⟩ :=
      next_cases isHiddenName closes listings
    · cases hsome.symm.trans hnext
    · cases hsome.symm.trans hnext
    · cases hsome.symm.trans hnext
      obtain ⟨hname, -, hrest⟩ := (hsound.of_suffix hsuffix).next
      have hhides : isHiddenName name = true := by
        simpa [Met.isShown, name_child _ _ _ hname] using hhidden
      have hahead' : ahead isHiddenName closes listings =
          ahead isHiddenName closes (.entries path rest :: outer) := by
        rw [hahead, ahead_entries, hhides]
        rfl
      rw [hahead']
      -- a hidden folder is left at once, so that nothing below it is ahead
      exact ih hrest (leave_enter _ _ _).symm

/-- What is told of what a walk meets. -/
def told : Except WalkError (Path × Node) → Item
  | .ok (path, node) => .ofEntry path node
  | .error e => .error (.unlisted e)

/-- The next item tells what is met next.  A bundle is not gone into. -/
theorem nextFound_cases (hsound : Sound listings) :
    (nextFound ⟨none, listings⟩ = none ∧ ahead isHiddenName isBundleName listings = []) ∨
    ∃ met listings', nextFound ⟨none, listings⟩ = some (told met, ⟨none, listings'⟩) ∧
      Sound listings' ∧
      ahead isHiddenName isBundleName listings =
        met :: ahead isHiddenName isBundleName listings' := by
  obtain ⟨hnext, hahead⟩ | ⟨e, outer, hnext, houter, hahead⟩ |
    ⟨path, name, node, depth, outer, hnext, hname, hnode, houter, hahead⟩ :=
    nextShown_cases isBundleName hsound
  · refine .inl ⟨?_, hahead⟩
    rw [nextFound, hnext]
  · refine .inr ⟨.error e, outer, ?_, houter, hahead⟩
    rw [nextFound, hnext]
    rfl
  · have hbundle : (Met.mk (path.child name) node (depth + 1)).isBundle =
        (node.isFolder && isBundleName name) := by
      rw [Met.isBundle, Path.isBundle_child path hname.1]
    rw [nextFound, hnext]
    cases hclosed : isBundleName name with
    | true =>
      -- the listing that the bundle has put in front goes, and there is none of anything else
      rw [hclosed, Bool.and_true] at hbundle
      refine .inr ⟨.ok (path.child name, node), outer, ?_, houter, ?_⟩
      · simp [hbundle, leave_enter, told]
      · rw [hahead, hclosed]
        rfl
    | false =>
      rw [hclosed, Bool.and_false] at hbundle
      refine .inr ⟨.ok (path.child name, node), _, ?_, houter.enter hnode (path.child name), ?_⟩
      · simp [hbundle, told]
      · rw [hahead, hclosed, ahead_enter]
        rfl

/-- The start is not reclaimable itself, and it is shown whatever it is called. -/
theorem allFound_start (root : Path) (node : Node) :
    allFound ⟨some (root, node), []⟩ = allFound ⟨none, enter root node []⟩ := by
  have hfound : nextFound ⟨some (root, node), []⟩ = nextFound ⟨none, enter root node []⟩ := by
    rw [nextFound, nextShown]
    simp [next, Met.isShown]
  rw [allFound, hfound, ← allFound]

/-- A walk finds all that its listings hold but for what is hidden or inside a bundle. -/
theorem allFound_eq (hsound : Sound listings) : allFound ⟨none, listings⟩ =
    (ahead isHiddenName isBundleName listings).map told := by
  generalize hw : Walker.mk none listings = w
  fun_induction allFound w generalizing listings with
  | case1 w hnone =>
    subst hw
    obtain ⟨-, hahead⟩ | ⟨met, listings', hnext, -⟩ := nextFound_cases hsound
    · rw [hahead]
      rfl
    · cases hnone.symm.trans hnext
  | case2 w item w' hsome ih =>
    subst hw
    obtain ⟨hnext, -⟩ | ⟨met, listings', hnext, hsound', hahead⟩ := nextFound_cases hsound
    · cases hsome.symm.trans hnext
    · cases hsome.symm.trans hnext
      rw [hahead, List.map_cons, ih hsound' rfl]

end Walker

/-! ### Walks from a path -/

/-- What is told of the entry at a path: the entry, and an error if it is a folder to be gone into
that cannot be listed. -/
def Item.allOf (p : Path) (node : Node) : List Item :=
  .ofEntry p node ::
    if node.isFolder && !p.isBundle && p.isTooLong then [.error (.unlisted (.tooLong p))] else []

theorem map_told_metAt {p : Path} {e : Place × Node} (he : e.1 ≠ [])
    (hnamed : ∀ name ∈ e.1, IsName name) :
    (Node.metAt isBundleName p e).map Walker.told = Item.allOf (p.descend e.1) e.2 := by
  obtain ⟨place, name, hplace⟩ := (List.eq_nil_or_concat' e.1).resolve_left he
  have hbundle : (p.descend e.1).isBundle = e.1.getLast?.any isBundleName := by
    have hname : IsName name := hnamed name (by simp [hplace])
    rw [hplace, Path.descend_append, Path.descend_cons, Path.descend_nil,
      Path.isBundle_child _ hname]
    simp
  rw [Node.metAt, Item.allOf, hbundle, List.map_cons, apply_ite (List.map Walker.told)]
  rfl

/-- The bytes of what a walk has met, with what could not be listed left out beforehand. -/
theorem sum_map_readBytes (met : List (Except WalkError Met)) :
    ((met.map (Except.map fun met => (met.path, met.node))).map Node.readBytes).sum =
      (((met.filterMap Except.toOption).filter fun met => met.node.isFile).map fun met =>
        (met.node.lengthAt met.path).toOption.getD 0).sum := by
  induction met with
  | nil => rfl
  | cons first met ih =>
    rw [List.map_cons, List.map_cons, List.sum_cons, ih]
    cases first with
    | error e =>
      rw [List.filterMap_cons_none rfl]
      exact Nat.zero_add _
    | ok first =>
      have hsome : (.ok first : Except WalkError Met).toOption = some first := rfl
      rw [List.filterMap_cons_some hsome]
      cases hfile : first.node.isFile <;> simp [Except.map, Node.readBytes, hfile]

namespace Disk

variable {d : Disk} {root : Path} {node : Node}

/-- A path that leads to an entry is not too long. -/
theorem isTooLong_of_status {follow : Bool} (h : d.status follow root = .ok node) :
    root.isTooLong = false := by
  rw [Path.isTooLong, decide_eq_false_iff_not]
  intro hlong
  rw [status, locate, aim] at h
  split_ifs at h <;> simp [bind, Except.bind, Except.map] at h

/-- A walk that starts at a link goes to the folder behind it or stays at the link. -/
theorem walkStart_link {target : String} (h : d.status false root = .ok (.link target)) :
    d.walkStart root =
      (d.status true root).map fun node => if node.isFolder then node else .link target := by
  rw [walkStart, h]
  cases d.status true root with
  | error e => rfl
  | ok node => cases node <;> rfl

/-- The entry itself is where a walk starts unless it is a link. -/
theorem walkStart_of_status (h : d.status false root = .ok node)
    (hlink : ∀ target, node ≠ .link target) : d.walkStart root = .ok node := by
  rw [walkStart, h]
  cases node with
  | link target => exact absurd rfl (hlink target)
  | file => rfl
  | folder => rfl

/-- The path of a walk that starts is not too long. -/
theorem isTooLong_of_walkStart (hstart : d.walkStart root = .ok node) :
    root.isTooLong = false := by
  cases hstatus : d.status false root with
  | ok node => exact isTooLong_of_status hstatus
  | error e => simp [walkStart, hstatus, bind, Except.bind] at hstart

/-- What is found below a path are the entries below its own that are not hidden or inside a bundle,
as far as their folders can be listed. -/
theorem enumerate_eq (hstart : d.walkStart root = .ok node) (hsound : node.Sound) :
    d.enumerate root =
      ((node.inside isHiddenName isBundleName).filter (Node.isListed root)).flatMap fun e =>
        Item.allOf (root.descend e.1) e.2 := by
  have hshort := isTooLong_of_walkStart hstart
  have hall : Walker.Sound (Walker.enter root node []) :=
    Walker.Sound.enter (fun _ _ hnone => absurd hnone List.not_mem_nil) hsound root
  have hwalked : node.walked isHiddenName isBundleName root =
      ((node.inside isHiddenName isBundleName).filter (Node.isListed root)).flatMap
        (Node.metAt isBundleName root) := by
    rw [Node.walked_eq hsound, hshort, Bool.and_false, if_neg Bool.false_ne_true]
  simp only [enumerate, hstart]
  rw [Walker.allFound_start, Walker.allFound_eq hall, Walker.ahead_enter, Walker.ahead_nil,
    List.append_nil, hwalked, List.map_flatMap]
  refine List.flatMap_congr fun e he => ?_
  obtain ⟨hbelow, hthere, -⟩ := (Node.mem_inside_iff hsound).mp (List.mem_filter.mp he).1
  exact map_told_metAt hbelow fun name hname => (Node.isEntryName_of_at? hsound hthere name hname).1

/-- The bytes that are counted below a path are those that paths reach. -/
theorem folderSize_eq (hstart : d.walkStart root = .ok node) :
    d.folderSize root = Bytes.wrap (node.within root).fileBytes := by
  have hmet : (Walker.mk (some (root, node)) []).allMet.map
      (Except.map fun met => (met.path, met.node)) =
        .ok (root, node) :: node.walked (fun _ => false) (fun _ => false) root := by
    rw [Walker.allMet]
    simp [Walker.next, Walker.map_allMet, Walker.ahead_enter, Except.map]
  have hsum := sum_map_readBytes (Walker.mk (some (root, node)) []).allMet
  rw [hmet, Node.sum_walked root (isTooLong_of_walkStart hstart) node] at hsum
  simp only [folderSize, hstart]
  rw [Bytes.sum_eq, ← hsum]

end Disk

end Reclaim
