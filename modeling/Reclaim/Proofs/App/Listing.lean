import Reclaim.Proofs.App.Ownership
import Reclaim.Proofs.Disk.Removal

/-!
# The listing of a directory

The applications of a directory are those of its entries whose names are not hidden and end in
`.app`.  Each of them is listed once, under the path of its entry and named as the entry without its
ending; they come by name, have identities of their own, and nothing is filled in.

## Main definitions

* `AppRecord.isListedName` : the names of the entries that are listed.
* `AppRecord.bare` : an application without what is filled in.
* `AppRecord.IsListing` : what a listing of some entries is.
* `AppRecord.Listed`, `AppRecord.listedCount` : the listings of a directory, and their length.

## Main results

* `AppRecord.isListing_listFolder` : listing a directory gives a listing of its entries.
* `AppRecord.Listed.length_eq` : how many applications are listed.
-/

namespace Reclaim.AppRecord

variable {dir : Path} {d : Disk} {first : Nat} {entries : List (String × Node)}
  {records : List AppRecord} {name : String}

/-- The name is not hidden, and it ends in `.app`. -/
def isListedName (name : String) : Bool :=
  !isHiddenName name && (Path.splitName name).2 == some "app"

/-- Whether an entry is listed is told by its name. -/
theorem isListed_child (dir : Path) (hname : IsName name) :
    isListed (dir.child name) = isListedName name := by
  rw [isListed, isListedName, Path.extension?, Path.fileName?_child dir hname, Option.bind_some]

/-- An application without what is filled in. -/
def bare (r : AppRecord) : AppRecord where
  id := r.id
  name := r.name
  path := r.path

theorem ofBundle?_child (id : AppId) (dir : Path) (hname : IsName name) :
    ofBundle? id (dir.child name) =
      some { id, name := (Path.splitName name).1, path := dir.child name } := by
  rw [ofBundle?, Path.stem?, Path.fileName?_child dir hname, Option.map_some, Option.map_some]

/-- Every bundle of a directory becomes an application. -/
theorem map_ofBundles (first : Nat) (dir : Path) {names : List String}
    (hnames : ∀ name ∈ names, IsName name) :
    (ofBundles first (names.map dir.child)).map (fun r => (r.name, r.path)) =
      names.map fun name => ((Path.splitName name).1, dir.child name) := by
  induction names generalizing first with
  | nil => rfl
  | cons name names ih =>
    rw [List.forall_mem_cons] at hnames
    rw [List.map_cons, ofBundles, ofBundle?_child ⟨first⟩ dir hnames.1]
    simp only [List.map_cons, ih (first + 1) hnames.2]

theorem bare_of_mem_ofBundles {paths : List Path} {r : AppRecord} (h : r ∈ ofBundles first paths) :
    r.bare = r := by
  induction paths generalizing first with
  | nil => cases h
  | cons path paths ih =>
    rw [ofBundles] at h
    cases hbundle : ofBundle? ⟨first⟩ path with
    | none =>
      rw [hbundle] at h
      exact ih h
    | some record =>
      rw [hbundle] at h
      rcases List.mem_cons.mp h with rfl | hlater
      · obtain ⟨name, -, rfl⟩ := Option.map_eq_some_iff.mp hbundle
        rfl
      · exact ih hlater

theorem sortsBefore_iff {a b : AppRecord} :
    sortsBefore a b = true ↔ Text.lower a.name ≤ Text.lower b.name := by
  rw [sortsBefore, Bool.not_eq_true', decide_eq_false_iff_not, String.not_lt]

/-- Sorted applications come by name. -/
theorem pairwise_mergeSort_sortsBefore (records : List AppRecord) :
    (records.mergeSort sortsBefore).Pairwise fun a b => Text.lower a.name ≤ Text.lower b.name := by
  have htrans : ∀ a b c : AppRecord, sortsBefore a b = true → sortsBefore b c = true →
      sortsBefore a c = true := by
    intro a b c hab hbc
    rw [sortsBefore_iff] at hab hbc ⊢
    exact String.le_trans hab hbc
  have htotal : ∀ a b : AppRecord, (sortsBefore a b || sortsBefore b a) = true := by
    intro a b
    rw [Bool.or_eq_true, sortsBefore_iff, sortsBefore_iff]
    exact String.le_total _ _
  exact (List.pairwise_mergeSort htrans htotal records).imp sortsBefore_iff.mp

/-- A directory is listed by its entries. -/
theorem listFolder_of_list (hentries : d.list dir = .ok entries) :
    listFolder first dir d = .ok ((ofBundles first
      ((entries.map fun entry => dir.child entry.1).filter isListed)).mergeSort sortsBefore) := by
  rw [listFolder, hentries]

/-- A list of applications is a listing of some entries of a directory. -/
structure IsListing (dir : Path) (entries : List (String × Node)) (records : List AppRecord) :
    Prop where
  /-- Every entry with such a name is listed once, under its path and without its ending. -/
  entries : (records.map fun r => (r.name, r.path)).Perm
    ((entries.filter fun entry => isListedName entry.1).map fun entry =>
      ((Path.splitName entry.1).1, dir.child entry.1))
  sorted : records.Pairwise fun a b => Text.lower a.name ≤ Text.lower b.name
  once : (records.map AppRecord.id).Nodup
  bare : ∀ r ∈ records, r.icon = none ∧ r.size = "" ∧ r.sizeBytes = none

/-- Listing a directory gives a listing of its entries. -/
theorem isListing_listFolder (hsound : d.top.Sound) (hentries : d.list dir = .ok entries)
    (h : listFolder first dir d = .ok records) : IsListing dir entries records := by
  have hnames : ∀ entry ∈ entries, IsName entry.1 := by
    intro entry hentry
    obtain ⟨place, hfolder⟩ := Disk.list_eq_ok_iff.mp hentries
    exact ((hsound.at? (Disk.folderAt?_eq_some_iff.mp hfolder).2).named hentry).1
  have hpaths : (entries.map fun entry => dir.child entry.1).filter isListed =
      ((entries.filter fun entry => isListedName entry.1).map Prod.fst).map dir.child := by
    rw [List.filter_map, List.map_map]
    refine congrArg (List.map _) (List.filter_congr fun entry hentry => ?_)
    exact isListed_child dir (hnames entry hentry)
  have hlisted : ∀ name ∈ (entries.filter fun entry => isListedName entry.1).map Prod.fst,
      IsName name := by
    intro name hname
    obtain ⟨entry, hentry, rfl⟩ := List.mem_map.mp hname
    exact hnames entry (List.mem_of_mem_filter hentry)
  have honce := nodup_listFolder h
  rw [listFolder_of_list hentries, hpaths, Except.ok.injEq] at h
  subst h
  refine ⟨?_, ?_, honce, fun r hr => ?_⟩
  · have hmap := (map_ofBundles first dir hlisted).trans List.map_map
    exact ((List.mergeSort_perm _ _).map _).trans (List.Perm.of_eq hmap)
  · exact pairwise_mergeSort_sortsBefore _
  · have hbare := bare_of_mem_ofBundles ((List.mergeSort_perm _ _).mem_iff.mp hr)
    rw [← hbare]
    exact ⟨rfl, rfl, rfl⟩

theorem map_id_bare (records : List AppRecord) :
    (records.map bare).map AppRecord.id = records.map AppRecord.id := by
  rw [List.map_map]
  rfl

/-- The number of entries of a directory that are listed. -/
def listedCount (dir : Path) (d : Disk) : Nat :=
  match d.list dir with
  | .ok entries => (entries.filter fun entry => isListedName entry.1).length
  | .error _ => 0

/-- A directory has been listed with some first identity. -/
def Listed (dir : Path) (d : Disk) (records : List AppRecord) : Prop :=
  ∃ first, listFolder first dir d = .ok records

theorem Listed.isListing (hsound : d.top.Sound) (h : Listed dir d records) :
    ∃ entries, d.list dir = .ok entries ∧ IsListing dir entries records := by
  obtain ⟨first, hlist⟩ := h
  cases hentries : d.list dir with
  | error e =>
    simp only [listFolder, hentries] at hlist
    cases hlist
  | ok entries => exact ⟨entries, rfl, isListing_listFolder hsound hentries hlist⟩

theorem Listed.length_eq (hsound : d.top.Sound) (h : Listed dir d records) :
    records.length = listedCount dir d := by
  obtain ⟨entries, hentries, hlisting⟩ := h.isListing hsound
  have hlength := hlisting.entries.length_eq
  rw [List.length_map, List.length_map] at hlength
  rw [listedCount, hentries, hlength]

theorem Listed.map_bare (hsound : d.top.Sound) (h : Listed dir d records) :
    records.map bare = records := by
  obtain ⟨entries, -, hlisting⟩ := h.isListing hsound
  refine (List.map_congr_left fun r hr => ?_).trans (List.map_id records)
  obtain ⟨hicon, hsize, hbytes⟩ := hlisting.bare r hr
  cases r
  simp_all [bare]

theorem Listed.nodup (h : Listed dir d (records.map bare)) :
    (records.map AppRecord.id).Nodup := by
  obtain ⟨first, hlist⟩ := h
  exact map_id_bare records ▸ nodup_listFolder hlist

/-- A directory does not have listings without applications and others. -/
theorem Listed.eq_nil (hsound : d.top.Sound) (hnil : Listed dir d []) (h : Listed dir d records) :
    records = [] :=
  List.length_eq_zero_iff.mp ((h.length_eq hsound).trans (hnil.length_eq hsound).symm)

end Reclaim.AppRecord
