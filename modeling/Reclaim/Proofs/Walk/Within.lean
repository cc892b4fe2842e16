import Reclaim.Proofs.Disk.Tree
import Reclaim.Walk

/-!
# What paths reach of a tree

The folder of an entry lists it whatever its path is, but a call that takes the path needs one that
is not too long.  From a path of its own a tree is therefore reached in part only: an entry whose
path is too long is out of reach with all below it, as the paths there are longer still.

## Main definitions

* `Path.descend` : the path of an entry below a path.
* `Node.within` : the part of a tree that paths reach.
* `Node.unreadBytes` : the bytes of the files that they do not reach.

## Main results

* `Path.isTooLong_descend` : what is below too long a path has one itself.
* `Node.bareAt?_within` : what the part shows.
* `Node.fileBytes_within_add` : all files of a tree.
-/

namespace Reclaim

/-! ### Paths below a path -/

namespace Path

variable {p : Path} {name : String} {place : Place}

/-- The path of an entry at a place below the entry of a path. -/
def descend (p : Path) (place : Place) : Path :=
  place.foldl child p

@[simp] theorem descend_nil (p : Path) : p.descend [] = p := rfl

@[simp] theorem descend_cons (p : Path) (name : String) (place : Place) :
    p.descend (name :: place) = (p.child name).descend place := rfl

theorem descend_append (p : Path) (place q : Place) :
    p.descend (place ++ q) = (p.descend place).descend q :=
  List.foldl_append

theorem utf8ByteSize_le_child (p : Path) (h : IsName name) :
    p.text.utf8ByteSize ≤ (p.child name).text.utf8ByteSize := by
  rw [child, join, if_neg (not_isAbsolute_name h)]
  split <;> simp only [String.utf8ByteSize_append] <;> omega

theorem isTooLong_child (h : IsName name) (hlong : p.isTooLong = true) :
    (p.child name).isTooLong = true := by
  have hlonger := utf8ByteSize_le_child p h
  simp only [isTooLong, decide_eq_true_eq] at hlong ⊢
  omega

/-- What is below too long a path has one itself. -/
theorem isTooLong_descend (h : ∀ name ∈ place, IsName name) (hlong : p.isTooLong = true) :
    (p.descend place).isTooLong = true := by
  induction place generalizing p with
  | nil => exact hlong
  | cons name place ih =>
    obtain ⟨hname, hplace⟩ := List.forall_mem_cons.mp h
    exact ih hplace (isTooLong_child hname hlong)

end Path

/-! ### The part of a tree that paths reach -/

namespace Node

variable {node top top' : Node} {p : Path} {name : String} {place : Place}
  {entries : List (String × Node)}

mutual

/-- The part of a tree that paths reach if the tree has a path of its own. -/
def within (p : Path) : Node → Node
  | .folder entries => .folder (entriesWithin p entries)
  | .file mode content => .file mode content
  | .link target => .link target
termination_by structural node => node

/-- The entries of a folder whose paths are not too long, with what paths reach of them. -/
def entriesWithin (p : Path) : List (String × Node) → List (String × Node)
  | [] => []
  | (name, node) :: entries =>
    if (p.child name).isTooLong then entriesWithin p entries
    else (name, within (p.child name) node) :: entriesWithin p entries
termination_by structural entries => entries

end

/-- The bytes of the files of a tree that paths do not reach. -/
def unreadBytes (p : Path) (node : Node) : Nat :=
  node.fileBytes - (node.within p).fileBytes

theorem bare_within (p : Path) (node : Node) : (node.within p).bare = node.bare := by
  cases node <;> rfl

theorem isFile_within (p : Path) (node : Node) : (node.within p).isFile = node.isFile := by
  cases node <;> rfl

theorem length_within (p : Path) (node : Node) : (node.within p).length = node.length := by
  cases node <;> rfl

theorem lookup_entriesWithin (p : Path) (name : String) (entries : List (String × Node)) :
    (entriesWithin p entries).lookup name =
      if (p.child name).isTooLong then none
      else (entries.lookup name).map (within (p.child name)) := by
  induction entries with
  | nil => simp [entriesWithin]
  | cons entry entries ih =>
    obtain ⟨n, node⟩ := entry
    rw [entriesWithin, lookup_cons_eq]
    by_cases hname : n = name
    · subst hname
      cases hlong : (p.child n).isTooLong <;> simp [hlong, ih]
    · cases (p.child n).isTooLong <;> simp [lookup_cons_eq, Ne.symm hname, ih]

theorem map_fst_entriesWithin (p : Path) (entries : List (String × Node)) :
    (entriesWithin p entries).map Prod.fst =
      (entries.map Prod.fst).filter fun name => !(p.child name).isTooLong := by
  induction entries with
  | nil => rfl
  | cons entry entries ih =>
    rw [entriesWithin, List.map_cons, List.filter_cons]
    cases (p.child entry.1).isTooLong <;> simp [ih]

theorem exists_of_mem_entriesWithin {entry : String × Node} (h : entry ∈ entriesWithin p entries) :
    ∃ node, (entry.1, node) ∈ entries ∧ entry.2 = within (p.child entry.1) node := by
  induction entries with
  | nil => cases h
  | cons first entries ih =>
    rw [entriesWithin] at h
    split at h
    · obtain ⟨node, hmem, heq⟩ := ih h
      exact ⟨node, List.mem_cons_of_mem _ hmem, heq⟩
    · rcases List.mem_cons.mp h with rfl | h
      · exact ⟨first.2, List.mem_cons_self, rfl⟩
      · obtain ⟨node, hmem, heq⟩ := ih h
        exact ⟨node, List.mem_cons_of_mem _ hmem, heq⟩

/-- What is reached of a sound tree is sound. -/
theorem Sound.within (h : Sound node) (p : Path) : Sound (node.within p) := by
  induction h generalizing p with
  | file mode content => exact .file mode content
  | link target => exact .link target
  | folder entries once named nodes ih =>
    refine .folder _ ?_ ?_ ?_
    · rw [map_fst_entriesWithin]
      exact once.filter _
    · intro entry he
      obtain ⟨node, hmem, -⟩ := exists_of_mem_entriesWithin he
      exact named (entry.1, node) hmem
    · intro entry he
      obtain ⟨node, hmem, heq⟩ := exists_of_mem_entriesWithin he
      rw [heq]
      exact ih (entry.1, node) hmem _

/-- The entry at a place of the part, if the path of the place is not too long. -/
theorem at?_within (hsound : Sound node) (hplace : place ≠ []) :
    at? place (node.within p) =
      if (p.descend place).isTooLong then none
      else (at? place node).map (within (p.descend place)) := by
  induction hsound generalizing p place with
  | file => cases place with
    | nil => exact absurd rfl hplace
    | cons name place => exact (ite_self none).symm
  | link => cases place with
    | nil => exact absurd rfl hplace
    | cons name place => exact (ite_self none).symm
  | folder entries once named nodes ih =>
    obtain ⟨name, place, rfl⟩ := List.exists_cons_of_ne_nil hplace
    rw [within, at?, at?, lookup_entriesWithin, Path.descend_cons]
    cases hentry : entries.lookup name with
    | none => simp
    | some node =>
      have hmem := mem_of_lookup hentry
      by_cases hend : place = []
      · subst hend
        cases hlong : (p.child name).isTooLong <;> simp [at?, hlong]
      · cases hlong : (p.child name).isTooLong with
        | false => simpa using ih (name, node) hmem hend
        | true =>
          -- nothing is below an entry that is out of reach
          cases hbelow : at? place node with
          | none => simp [hbelow]
          | some below =>
            have hnames := isEntryName_of_at? (nodes (name, node) hmem) hbelow
            simp [Path.isTooLong_descend (fun n hn => (hnames n hn).1) hlong]

/-- What the part of a tree shows. -/
theorem bareAt?_within (hsound : Sound node) (hplace : place ≠ []) :
    bareAt? (node.within p) place =
      if (p.descend place).isTooLong then none else bareAt? node place := by
  rw [bareAt?, at?_within hsound hplace, bareAt?]
  split
  · rfl
  · rw [Option.map_map]
    exact congrArg (Option.map · _) (funext fun node => bare_within _ node)

theorem bareAt?_within_nil (p : Path) (node : Node) :
    bareAt? (node.within p) [] = bareAt? node [] := by
  rw [bareAt?, at?, bareAt?, at?, Option.map_some, Option.map_some, bare_within]

/-- Paths reach the same of trees that show the same. -/
theorem Alike.within (h : Alike top top') (hsound : Sound top) (hsound' : Sound top') (p : Path) :
    Alike (top.within p) (top'.within p) := by
  intro place
  by_cases hplace : place = []
  · subst hplace
    rw [bareAt?_within_nil, bareAt?_within_nil, h []]
  · rw [bareAt?_within hsound hplace, bareAt?_within hsound' hplace, h place]

/-! ### Bytes -/

mutual

theorem fileBytes_within_le (p : Path) :
    (node : Node) → (node.within p).fileBytes ≤ node.fileBytes
  | .file _ _ => Nat.le_refl _
  | .link _ => Nat.le_refl _
  | .folder entries => entryBytes_entriesWithin_le p entries

theorem entryBytes_entriesWithin_le (p : Path) :
    (entries : List (String × Node)) → entryBytes (entriesWithin p entries) ≤ entryBytes entries
  | [] => Nat.le_refl _
  | (name, node) :: entries => by
    have hentry := fileBytes_within_le (p.child name) node
    have hrest := entryBytes_entriesWithin_le p entries
    rw [entriesWithin]
    split <;> simp only [entryBytes] <;> omega

end

/-- The files that paths reach and those that they do not are all files of a tree. -/
theorem fileBytes_within_add (p : Path) (node : Node) :
    (node.within p).fileBytes + node.unreadBytes p = node.fileBytes :=
  Nat.add_sub_cancel' (fileBytes_within_le p node)

theorem Alike.unreadBytes_eq (h : Alike top top') (hsound : Sound top) (hsound' : Sound top')
    (p : Path) : top.unreadBytes p = top'.unreadBytes p := by
  rw [unreadBytes, unreadBytes, h.fileBytes_eq hsound hsound',
    (h.within hsound hsound' p).fileBytes_eq (hsound.within p) (hsound'.within p)]

/-- A tree is reached as a whole if none of its entries has too long a path. -/
theorem within_eq_self (hsound : Sound node)
    (h : ∀ place, at? place node ≠ none → (p.descend place).isTooLong = false) :
    node.within p = node := by
  induction hsound generalizing p with
  | file => rfl
  | link => rfl
  | folder entries once named nodes ih =>
    have hall : ∀ entry ∈ entries, (p.child entry.1).isTooLong = false ∧
        entry.2.within (p.child entry.1) = entry.2 := by
      intro entry he
      have hlookup := lookup_of_mem once he
      refine ⟨h [entry.1] (by simp [at?, hlookup]), ih entry he fun place hplace => ?_⟩
      exact h (entry.1 :: place) (by simpa [at?, hlookup] using hplace)
    rw [within]
    refine congrArg Node.folder ?_
    clear once named nodes ih h
    induction entries with
    | nil => rfl
    | cons entry entries ih =>
      obtain ⟨⟨hshort, hsame⟩, hrest⟩ := List.forall_mem_cons.mp hall
      rw [entriesWithin, hshort, hsame, ih hrest]
      rfl

end Node

end Reclaim
