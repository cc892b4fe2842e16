import Reclaim.Clean
import Reclaim.Proofs.Clean.Reached
import Reclaim.Proofs.Disk.Removal
import Reclaim.Proofs.Safety.Roots

/-!
# Emptying one directory

The entries of a directory are deleted by their paths, one after the other.  This succeeds for the
entries that are reached and for no others, and nothing else is changed: an invariant says so after
each entry, and what emptying a directory does is the invariant after the last one.

## Main definitions

* `Sweep.gone`, `Sweep.emptied`, `Sweep.kept` : what becomes of the entries of a folder.
* `Sweep.goneLinkBytes` : the lengths of the links among entries that are gone.
* `Sweep.Progress` : what holds after each entry.

## Main results

* `Sweep.Progress.step` : what one deletion preserves.
* `Sweep.progress_run` : what emptying a directory does.
* `Sweep.Progress.removed_eq`, `Sweep.Progress.failed_eq` : what is counted.
* `Sweep.Progress.alike` : the order of the entries does not matter to it.
-/

namespace Reclaim

open Node

namespace Sweep

variable {home : Option Path} {root p : Path} {d d₀ : Disk} {seen : List Place} {place : Place}
  {node listed : Node} {name : String} {entries passed : List (String × Node)} {sweep : Sweep}

/-! ### One call -/

/-- An entry that its path leads to is deleted.  It is only left, and then it is an empty folder, if
its path ran through something inside it. -/
theorem exists_delete (h : d.Leads false p seen place) (hplace : place ≠ [])
    (hat : d.top.at? place = some node) (hsame : listed.isFolder = node.isFolder) :
    ∃ d', delete d p listed = .ok d' ∧ d.Removal place node d' ∧
      (d'.top.bareAt? place = none ↔ ∀ q ∈ seen, ¬(place <+: q ∧ place ≠ q)) := by
  cases hnode : node.isFolder with
  | false =>
    obtain ⟨d', hd', hremoval, hgone⟩ := Disk.exists_unlink h hplace hat hnode
    refine ⟨d', ?_, hremoval, iff_of_true hgone fun q hq => ?_⟩
    · rw [delete, hsame, hnode]
      exact hd'
    · exact Disk.not_below_of_not_isFolder hat hnode (h.bareAt?_ne_none hq)
  | true =>
    cases node with
    | folder entries =>
      obtain ⟨d', hd', hremoval, hgone⟩ := Disk.exists_removeTree h hplace hat
      refine ⟨d', ?_, hremoval, hgone⟩
      rw [delete, hsame, hnode]
      exact hd'
    | file => cases hnode
    | link => cases hnode

theorem exists_delete_error (h : ¬∃ seen place, d.Leads false p seen place) :
    ∃ e, delete d p listed = .error e := by
  obtain ⟨e, he⟩ := Disk.exists_locate_error h
  refine ⟨e, ?_⟩
  rw [delete]
  split
  · simp [Disk.removeTree, he, bind, Except.bind]
  · simp [Disk.unlink, he, bind, Except.bind]

/-- An entry of a directory that may be emptied is not turned down. -/
theorem step_eq (hroot : Safety.isUserRoot home root = true) (hname : IsName name) :
    step home root (sweep, d) (name, listed) =
      match delete d (root.child name) listed with
      | .ok d' => ({ sweep with
          bytes := Bytes.add sweep.bytes (d.entrySize (root.child name))
          removed := sweep.removed + 1 }, d')
      | .error _ => ({ sweep with failed := sweep.failed + 1 }, d) := by
  have hprotected := Safety.isProtected_child hroot hname
  have hdirect := Path.isDirectChild_child root hname
  rw [step, hprotected, hdirect]
  rfl

/-! ### After some of the entries -/

/-- The entries of a folder that are gone from it. -/
def gone (place : Place) (d : Disk) (entries : List (String × Node)) : List (String × Node) :=
  entries.filter fun entry => (d.top.at? (place ++ [entry.1])).isNone

/-- The folders among the entries of a folder that are still there but have lost their contents. -/
def emptied (place : Place) (d : Disk) (entries : List (String × Node)) : List (String × Node) :=
  entries.filter fun entry =>
    !entry.2.isEmptyFolder && (d.top.at? (place ++ [entry.1])).any isEmptyFolder

/-- The entries of a folder that are neither gone nor have lost their contents. -/
def kept (place : Place) (d : Disk) (entries : List (String × Node)) : List (String × Node) :=
  entries.filter fun entry => !(d.top.at? (place ++ [entry.1])).isNone &&
    !(!entry.2.isEmptyFolder && (d.top.at? (place ++ [entry.1])).any isEmptyFolder)

theorem length_eq_gone_emptied_kept (place : Place) (d : Disk) (entries : List (String × Node)) :
    entries.length = (gone place d entries).length + (emptied place d entries).length +
      (kept place d entries).length := by
  induction entries with
  | nil => rfl
  | cons entry entries ih =>
    rw [gone, emptied, kept] at ih ⊢
    rw [List.length_cons, ih]
    cases hnode : d.top.at? (place ++ [entry.1]) with
    | none =>
      simp only [List.filter_cons, hnode, Option.isNone_none, Option.any_none, Bool.and_false,
        Bool.not_true, Bool.false_and, Bool.false_eq_true, ↓reduceIte, List.length_cons]
      omega
    | some node =>
      cases hempty : !entry.2.isEmptyFolder && node.isEmptyFolder <;>
        simp only [List.filter_cons, hnode, Option.isNone_some, Option.any_some, hempty,
          Bool.not_false, Bool.not_true, Bool.and_true, Bool.and_false, Bool.false_eq_true,
          ↓reduceIte, List.length_cons] <;>
        omega

/-- The lengths of the links among entries of a folder that are gone from it. -/
def goneLinkBytes (place : Place) (d : Disk) (entries : List (String × Node)) : Nat :=
  ((gone place d entries).map fun entry => linkBytes entry.2).sum

theorem goneLinkBytes_append (place : Place) (d : Disk) (entries entries' : List (String × Node)) :
    goneLinkBytes place d (entries ++ entries') =
      goneLinkBytes place d entries + goneLinkBytes place d entries' := by
  simp [goneLinkBytes, gone]

theorem goneLinkBytes_congr {d d' : Disk} (h : ∀ entry ∈ entries,
      d.top.bareAt? (place ++ [entry.1]) = d'.top.bareAt? (place ++ [entry.1])) :
    goneLinkBytes place d entries = goneLinkBytes place d' entries := by
  have hgone : ∀ entry ∈ entries, (d.top.at? (place ++ [entry.1])).isNone =
      (d'.top.at? (place ++ [entry.1])).isNone := by
    intro entry he
    rw [Bool.eq_iff_iff, Option.isNone_iff_eq_none, Option.isNone_iff_eq_none,
      ← bareAt?_eq_none_iff, ← bareAt?_eq_none_iff, h entry he]
  rw [goneLinkBytes, goneLinkBytes, gone, gone, List.filter_congr hgone]

/-- Only an entry that is not a link is left when it is deleted. -/
theorem goneLinkBytes_deleted {d' : Disk} (hat : d.top.at? (place ++ [name]) = some node)
    (hlink : linkBytes listed = linkBytes node) (hopen : ∀ q ∈ seen, d.top.bareAt? q ≠ none)
    (hgone : d'.top.bareAt? (place ++ [name]) = none ↔
      ∀ q ∈ seen, ¬(place ++ [name] <+: q ∧ place ++ [name] ≠ q)) :
    goneLinkBytes place d' [(name, listed)] = linkBytes node := by
  cases node with
  | folder entries =>
    have hzero : linkBytes (.folder entries) = 0 := rfl
    cases hthere : (d'.top.at? (place ++ [name])).isNone <;>
      simp [goneLinkBytes, gone, hthere, hlink, hzero]
  | file mode content =>
    have hnone := hgone.mpr fun q hq => Disk.not_below_of_not_isFolder hat rfl (hopen q hq)
    rw [bareAt?_eq_none_iff] at hnone
    simp [goneLinkBytes, gone, hnone, hlink]
  | link target =>
    have hnone := hgone.mpr fun q hq => Disk.not_below_of_not_isFolder hat rfl (hopen q hq)
    rw [bareAt?_eq_none_iff] at hnone
    simp [goneLinkBytes, gone, hnone, hlink]

/-- What holds of a sweep through the folder at a place when some of its entries have had their
turn. -/
structure Progress (d₀ : Disk) (root : Path) (seen : List Place) (place : Place)
    (passed : List (String × Node)) (sweep : Sweep) (d : Disk) : Prop where
  sound : d.top.Sound
  part : IsPartOf d.top d₀.top
  taken : ∀ q, d.top.bareAt? q = none ↔
    d₀.top.bareAt? q = none ∨ Takes root seen place passed q
  /-- The way to the directory is open until an entry goes that it runs through. -/
  open_iff : (∀ q ∈ seen, d.top.bareAt? q ≠ none) ↔
    ∀ entry ∈ reached root seen place passed, ¬RunsThrough seen place entry.1
  /-- What has been freed is what the tree has lost with the texts of the links that are gone, less
  the files that no path reached. -/
  bytes : ∃ freed, sweep.bytes = Bytes.wrap freed ∧
    freed + d.top.fileBytes + unreadBytes root (reached root seen place passed) =
      d₀.top.fileBytes + goneLinkBytes place d passed
  removed : sweep.removed = (reached root seen place passed).length
  count : sweep.removed + sweep.failed = passed.length

namespace Progress

theorem nil (hsound : d₀.top.Sound) (hleads : d₀.Leads true root seen place) :
    Progress d₀ root seen place [] {} d₀ where
  sound := hsound
  part := .refl _
  taken q := by simp [Takes, reached]
  open_iff := iff_of_true (fun q hq => hleads.bareAt?_ne_none hq) (by simp [reached])
  bytes := ⟨0, rfl, by simp [goneLinkBytes, gone, unreadBytes, reached]⟩
  removed := rfl
  count := rfl

variable {q : Place}

/-- Nothing changes but the entries that had their turn. -/
theorem beside (h : Progress d₀ root seen place passed sweep d)
    (hq : ∀ entry ∈ passed, root.Fits entry.1 → ¬place ++ [entry.1] <+: q) :
    d.top.bareAt? q = d₀.top.bareAt? q := by
  rcases h.part q with hnone | hsame
  · rcases (h.taken q).mp hnone with hbefore | ⟨entry, he, habove, -⟩
    · rw [hnone, hbefore]
    · obtain ⟨hmem, hfits⟩ := mem_of_mem_reached he
      exact absurd habove (hq entry hmem hfits)
  · exact hsame

/-- As long as the way is open, the entries that had their turn are gone. -/
theorem gone_of_open (h : Progress d₀ root seen place passed sweep d)
    (hopen : ∀ q ∈ seen, d.top.bareAt? q ≠ none) (he : (name, listed) ∈ passed)
    (hfits : root.Fits name) : d.top.bareAt? (place ++ [name]) = none := by
  have hclear := h.open_iff.mp hopen
  have hreached : (name, listed) ∈ reached root seen place passed := by
    rw [reached_eq_filter hclear]
    exact List.mem_filter.mpr ⟨he, decide_eq_true hfits⟩
  refine (h.taken _).mpr (.inr ⟨_, hreached, List.prefix_refl _, fun _ q' hq' hbelow => ?_⟩)
  exact hclear _ hreached ⟨q', hq', hbelow.1⟩

/-- If the way runs through nothing inside the directory, all entries are deleted whose paths are
not too long. -/
theorem removed_of_clear (h : Progress d₀ root seen place passed sweep d)
    (hclear : ∀ q ∈ seen, ¬(place <+: q ∧ place ≠ q)) :
    sweep.removed = (passed.filter fun entry => root.Fits entry.1).length := by
  rw [h.removed, reached_eq_filter fun entry _ => not_runsThrough hclear entry.1]

end Progress

section

variable (hsound : d₀.top.Sound) (hroot : Safety.isUserRoot home root = true)
  (hleads : d₀.Leads true root seen place)
  (hfolder : d₀.top.at? place = some (.folder entries)) (hentry : (name, listed) ∈ entries)
  (hnew : ∀ entry ∈ passed, entry.1 ≠ name)

include hsound hfolder hentry in
theorem bareAt?_listed : d₀.top.bareAt? (place ++ [name]) = some listed.bare := by
  have hlookup := lookup_of_mem (hsound.at? hfolder).once hentry
  rw [bareAt?, at?_concat hfolder, hlookup]
  rfl

include hsound hfolder hentry hnew in
/-- An entry whose turn has not come is as it was listed. -/
theorem Progress.bareAt?_next (h : Progress d₀ root seen place passed sweep d) :
    d.top.bareAt? (place ++ [name]) = some listed.bare := by
  rw [h.beside fun entry he _ habove => hnew entry he (by simpa using habove)]
  exact bareAt?_listed hsound hfolder hentry

include hsound hfolder hentry hnew in
/-- An entry whose turn has not come is as it was listed, with all below it. -/
theorem Progress.alike_next (h : Progress d₀ root seen place passed sweep d)
    (hat : d.top.at? (place ++ [name]) = some node) : Alike listed node := by
  intro q
  have hlisted : d₀.top.at? (place ++ [name]) = some listed := by
    rw [at?_concat hfolder, lookup_of_mem (hsound.at? hfolder).once hentry]
  have hsame := h.beside (q := place ++ [name] ++ q) fun entry he _ habove => hnew entry he (by
    rw [List.append_assoc] at habove
    simpa using habove)
  rw [bareAt?_append, bareAt?_append, hat, hlisted] at hsame
  exact hsame.symm

include hsound hleads hfolder hentry hnew in
/-- As long as the way to the directory is open, the next entry is reached. -/
theorem Progress.leads_next (h : Progress d₀ root seen place passed sweep d)
    (hfits : root.Fits name) (hopen : ∀ q ∈ seen, d.top.bareAt? q ≠ none) :
    d.Leads false (root.child name) (seen ++ [place ++ [name]]) (place ++ [name]) := by
  refine (hleads.child hsound hfolder hentry hfits).mono h.part ?_
  rw [List.forall_mem_append, List.forall_mem_singleton]
  refine ⟨hopen, ?_⟩
  rw [h.bareAt?_next hsound hfolder hentry hnew]
  exact Option.some_ne_none _

include hsound hleads hfolder hentry hnew in
/-- The next entry is deleted. -/
theorem Progress.delete_next (h : Progress d₀ root seen place passed sweep d) {seen' : List Place}
    {place' : Place} (hreach : d.Leads false (root.child name) seen' place') :
    ∃ d', delete d (root.child name) listed = .ok d' ∧
      Progress d₀ root seen place (passed ++ [(name, listed)])
        { sweep with
          bytes := Bytes.add sweep.bytes (d.entrySize (root.child name))
          removed := sweep.removed + 1 } d' := by
  have hfits : root.Fits name := hreach.1.2.2
  obtain ⟨rfl, rfl⟩ : seen' = seen ++ [place ++ [name]] ∧ place' = place ++ [name] :=
    (hreach.of_isPartOf h.part).unique (hleads.child hsound hfolder hentry hfits)
  have hopen : ∀ q ∈ seen, d.top.bareAt? q ≠ none := fun q hq =>
    hreach.bareAt?_ne_none (List.mem_append_left _ hq)
  have hreached : reached root seen place (passed ++ [(name, listed)]) =
      reached root seen place passed ++ [(name, listed)] := by
    rw [reached_append_singleton, if_pos ⟨h.open_iff.mp hopen, hfits⟩]
  have hnext := h.bareAt?_next hsound hfolder hentry hnew
  obtain ⟨node, hat, hbare⟩ := Option.map_eq_some_iff.mp hnext
  have hsame : listed.isFolder = node.isFolder := by
    rw [← isFolder_bare, ← hbare, isFolder_bare]
  have hlink : linkBytes listed = linkBytes node := by
    rw [← linkBytes_bare, ← hbare, linkBytes_bare]
  obtain ⟨d', hd', hremoval, hgone⟩ := exists_delete hreach (by simp) hat hsame
  rw [List.forall_mem_append, List.forall_mem_singleton] at hgone
  simp only [ne_eq, not_true_eq_false, and_false, not_false_eq_true, and_true] at hgone
  refine ⟨d', hd', ?_⟩
  constructor
  case sound => exact hremoval.sound h.sound
  case part => exact hremoval.isPartOf.trans h.part
  case taken =>
    intro q
    rw [takes_append_singleton hreached]
    by_cases habove : place ++ [name] <+: q
    · by_cases heq : place ++ [name] = q
      · subst heq
        have hthere := bareAt?_listed hsound hfolder hentry
        have hkept : ¬Takes root seen place passed (place ++ [name]) := by
          rintro ⟨entry, he, hsame, -⟩
          exact hnew entry (mem_of_mem_reached he).1 (by simpa using hsame)
        simpa [hthere, hkept] using hgone
      · simp [hremoval.below q habove heq, habove, heq]
    · rw [hremoval.beside q habove, h.taken q]
      simp [habove]
  case open_iff =>
    rw [hreached, List.forall_mem_append, List.forall_mem_singleton,
      and_iff_right (h.open_iff.mp hopen)]
    refine (hremoval.open_iff hopen hgone).trans ?_
    simp only [RunsThrough, not_exists, not_and]
  case bytes =>
    obtain ⟨freed, hcount, hbytes⟩ := h.bytes
    have hlost := hremoval.bytes h.sound
    have hsize := hreach.wrap_entrySize hat
    have hparts := fileBytes_within_add (root.child name) node
    have hunread : listed.unreadBytes (root.child name) = node.unreadBytes (root.child name) :=
      (h.alike_next hsound hfolder hentry hnew hat).unreadBytes_eq
        ((hsound.at? hfolder).nodes hentry) (h.sound.at? hat) (root.child name)
    have hbeside : ∀ entry ∈ passed, d'.top.bareAt? (place ++ [entry.1]) =
        d.top.bareAt? (place ++ [entry.1]) := fun entry he =>
      hremoval.beside _ fun habove => hnew entry he (Eq.symm (by simpa using habove))
    have hlinks := goneLinkBytes_deleted hat hlink hopen hgone
    refine ⟨freed + ((node.within (root.child name)).fileBytes + linkBytes node), ?_, ?_⟩
    · rw [hcount, Bytes.add, Bytes.wrap_wrap_add, ← Bytes.wrap_add_wrap, hsize,
        Bytes.wrap_add_wrap]
    · rw [goneLinkBytes_append, goneLinkBytes_congr hbeside, hlinks, hreached,
        unreadBytes_append, unreadBytes_singleton, hunread]
      omega
  case removed => rw [hreached, List.length_append, List.length_singleton, h.removed]
  case count =>
    have hcount := h.count
    rw [List.length_append, List.length_singleton]
    simp only
    omega

include hsound hleads hfolder hentry hnew in
/-- The next entry cannot be deleted, as its path is too long or does not lead to it any more. -/
theorem Progress.refuse_next (h : Progress d₀ root seen place passed sweep d)
    (hreach : ¬∃ seen' place', d.Leads false (root.child name) seen' place') :
    Progress d₀ root seen place (passed ++ [(name, listed)])
      { sweep with failed := sweep.failed + 1 } d := by
  have hreached : reached root seen place (passed ++ [(name, listed)]) =
      reached root seen place passed := by
    rw [reached_append_singleton, if_neg]
    rintro ⟨hclear, hfits⟩
    have hopen := h.open_iff.mpr hclear
    exact hreach ⟨_, _, h.leads_next hsound hleads hfolder hentry hnew hfits hopen⟩
  constructor
  case sound => exact h.sound
  case part => exact h.part
  case taken =>
    intro q
    rw [Takes, hreached]
    exact h.taken q
  case open_iff =>
    rw [hreached]
    exact h.open_iff
  case bytes =>
    have hnext := h.bareAt?_next hsound hfolder hentry hnew
    have hthere : d.top.at? (place ++ [name]) ≠ none := by
      rw [Ne, ← bareAt?_eq_none_iff, hnext]
      exact Option.some_ne_none _
    have hlinks : goneLinkBytes place d [(name, listed)] = 0 := by
      simp [goneLinkBytes, Sweep.gone, hthere]
    rw [goneLinkBytes_append, hlinks, hreached]
    exact h.bytes
  case removed =>
    rw [hreached]
    exact h.removed
  case count =>
    have hcount := h.count
    rw [List.length_append, List.length_singleton]
    simp only
    omega

include hsound hroot hleads hfolder hentry hnew in
/-- What one deletion preserves. -/
theorem Progress.step (h : Progress d₀ root seen place passed sweep d) :
    Progress d₀ root seen place (passed ++ [(name, listed)])
      (step home root (sweep, d) (name, listed)).1
      (step home root (sweep, d) (name, listed)).2 := by
  have hname : IsName name := ((hsound.at? hfolder).named hentry).1
  rw [step_eq hroot hname]
  by_cases hreach : ∃ seen' place', d.Leads false (root.child name) seen' place'
  · obtain ⟨seen', place', hreach⟩ := hreach
    obtain ⟨d', hd', hprogress⟩ := h.delete_next hsound hleads hfolder hentry hnew hreach
    rw [hd']
    exact hprogress
  · obtain ⟨e, he⟩ := exists_delete_error hreach
    rw [he]
    exact h.refuse_next hsound hleads hfolder hentry hnew hreach

end

/-! ### All entries -/

/-- What emptying a directory does. -/
theorem progress_run (hsound : d.top.Sound) (hroot : Safety.isUserRoot home root = true)
    (hleads : d.Leads true root seen place) (hfolder : d.top.at? place = some (.folder entries)) :
    Progress d root seen place entries (run home root d).1 (run home root d).2 := by
  have hfold : ∀ (todo passed : List (String × Node)) (sweep : Sweep) (d' : Disk),
      entries = passed ++ todo → Progress d root seen place passed sweep d' →
      Progress d root seen place entries (todo.foldl (Sweep.step home root) (sweep, d')).1
        (todo.foldl (Sweep.step home root) (sweep, d')).2 := by
    intro todo
    induction todo with
    | nil =>
      intro passed sweep d' hall h
      rw [List.append_nil] at hall
      exact hall ▸ h
    | cons entry todo ih =>
      intro passed sweep d' hall h
      have hentry : (entry.1, entry.2) ∈ entries := by simp [hall]
      have honce := (hsound.at? hfolder).once
      rw [hall, List.map_append, List.map_cons, List.nodup_append] at honce
      have hnew : ∀ e ∈ passed, e.1 ≠ entry.1 := fun e he =>
        honce.2.2 e.1 (List.mem_map_of_mem he) entry.1 List.mem_cons_self
      exact ih (passed ++ [entry]) _ _ (by simp [hall])
        (h.step hsound hroot hleads hfolder hentry hnew)
  have hlist : d.list root = .ok entries :=
    Disk.list_eq_ok_iff.mpr ⟨place, Disk.folderAt?_eq_some_iff.mpr ⟨⟨seen, hleads⟩, hfolder⟩⟩
  rw [run, if_pos hroot, hlist]
  exact hfold entries [] {} d rfl (.nil hsound hleads)

/-- Nothing happens to a directory that may not be emptied, or that is not there. -/
theorem run_eq_self (h : Safety.isUserRoot home root = false ∨ d.folderAt? root = none) :
    run home root d = ({}, d) := by
  rw [run]
  split
  next hroot =>
    rw [hroot] at h
    split
    next entries hlist =>
      obtain ⟨place, hfolder⟩ := Disk.list_eq_ok_iff.mp hlist
      rw [hfolder] at h
      simp at h
    next => rfl
  next => rfl

/-- A directory with too long a path for any of its entries stays as it is. -/
theorem run_of_not_fits (hsound : d.top.Sound) (hroot : Safety.isUserRoot home root = true)
    (hfolder : d.folderAt? root = some (place, entries))
    (hlong : ∀ entry ∈ entries, ¬root.Fits entry.1) :
    run home root d = ({ failed := entries.length }, d) := by
  obtain ⟨-, hat⟩ := Disk.folderAt?_eq_some_iff.mp hfolder
  have hstep : ∀ entry ∈ entries, ∀ sweep,
      step home root (sweep, d) entry = ({ sweep with failed := sweep.failed + 1 }, d) := by
    intro entry he sweep
    have hname : IsName entry.1 := ((hsound.at? hat).named he).1
    have hreach : ¬∃ seen place, d.Leads false (root.child entry.1) seen place :=
      fun ⟨seen, place, hleads⟩ => hlong entry he hleads.1.2.2
    obtain ⟨e, he⟩ := exists_delete_error hreach
    rw [step_eq hroot hname, he]
  have hfold : ∀ (todo : List (String × Node)), todo ⊆ entries → ∀ n : Nat,
      todo.foldl (step home root) (({ failed := n } : Sweep), d) =
        ({ failed := n + todo.length }, d) := by
    intro todo
    induction todo with
    | nil => exact fun _ _ => rfl
    | cons entry todo ih =>
      intro hsub n
      obtain ⟨hentry, hrest⟩ := List.cons_subset.mp hsub
      rw [List.foldl_cons, hstep entry hentry, ih hrest, List.length_cons]
      simp only [Prod.mk.injEq, Sweep.mk.injEq, true_and, and_true]
      omega
  have hlist : d.list root = .ok entries := Disk.list_eq_ok_iff.mpr ⟨place, hfolder⟩
  rw [run, if_pos hroot, hlist]
  have hall := hfold entries (List.Subset.refl _) 0
  rwa [Nat.zero_add] at hall

/-! ### What becomes of an entry -/

section

variable (hsound : d₀.top.Sound) (hleads : d₀.Leads true root seen place)
  (hfolder : d₀.top.at? place = some (.folder entries)) (hentry : (name, listed) ∈ entries)

include hsound hfolder hentry in
theorem Progress.at?_eq_none_iff (h : Progress d₀ root seen place entries sweep d) :
    d.top.at? (place ++ [name]) = none ↔ (name, listed) ∈ reached root seen place entries ∧
      ∀ q ∈ seen, ¬(place ++ [name] <+: q ∧ place ++ [name] ≠ q) := by
  have hthere := bareAt?_listed hsound hfolder hentry
  rw [← bareAt?_eq_none_iff, h.taken, takes_iff (hsound.at? hfolder).once hentry]
  simp [hthere]

include hsound hleads hfolder hentry in
/-- A folder is left without its contents exactly if it was reached by a path that runs through
something inside it. -/
theorem Progress.emptied_iff (h : Progress d₀ root seen place entries sweep d) :
    (!listed.isEmptyFolder && (d.top.at? (place ++ [name])).any isEmptyFolder) = true ↔
      (name, listed) ∈ reached root seen place entries ∧
        ¬∀ q ∈ seen, ¬(place ++ [name] <+: q ∧ place ++ [name] ≠ q) := by
  have honce := (hsound.at? hfolder).once
  have hlisted : d₀.top.at? (place ++ [name]) = some listed := by
    rw [at?_concat hfolder, lookup_of_mem honce hentry]
  have hbelow : ∀ m, d.top.bareAt? (place ++ [name] ++ [m]) = none ↔
      d₀.top.bareAt? (place ++ [name] ++ [m]) = none ∨
        (name, listed) ∈ reached root seen place entries := by
    intro m
    rw [List.append_assoc, List.singleton_append, h.taken, takes_iff honce hentry]
    simp
  rw [Bool.and_eq_true, Bool.not_eq_true', Option.any_eq_true]
  constructor
  · rintro ⟨hfull, node, hat, hempty⟩
    have hthere : d.top.at? (place ++ [name]) ≠ none := by simp [hat]
    cases node with
    | folder left =>
      have hsame := h.part.bareAt?_eq (mt bareAt?_eq_none_iff.mp hthere)
      rw [bareAt?_eq_folder_iff.mpr ⟨left, hat⟩, eq_comm, bareAt?_eq_folder_iff] at hsame
      obtain ⟨contents, hcontents⟩ := hsame
      obtain rfl := Option.some.inj (hlisted.symm.trans hcontents)
      rw [Bool.eq_false_iff, Ne, isEmptyFolder_iff hlisted, not_forall] at hfull
      obtain ⟨m, hm⟩ := hfull
      have hreached := ((hbelow m).mp ((isEmptyFolder_iff hat).mp hempty m)).resolve_left hm
      refine ⟨hreached, fun hclear => hthere ?_⟩
      exact (h.at?_eq_none_iff hsound hfolder hentry).mpr ⟨hreached, hclear⟩
    | file => cases hempty
    | link => cases hempty
  · rintro ⟨hreached, hruns⟩
    have hthere : d.top.at? (place ++ [name]) ≠ none := fun hnone =>
      hruns ((h.at?_eq_none_iff hsound hfolder hentry).mp hnone).2
    push Not at hruns
    obtain ⟨q, hq, ⟨below, rfl⟩, hne⟩ := hruns
    obtain ⟨m, below, rfl⟩ := List.exists_cons_of_ne_nil fun h : below = [] => hne (by simp [h])
    have hm : d₀.top.bareAt? (place ++ [name] ++ [m]) ≠ none := fun hnone =>
      hleads.bareAt?_ne_none hq (bareAt?_eq_none_below hnone (by simp))
    obtain ⟨below', hbelow'⟩ := Option.ne_none_iff_exists'.mp (mt bareAt?_eq_none_iff.mpr hm)
    obtain ⟨contents, hcontents⟩ := exists_folder_of_at?_append (List.cons_ne_nil m []) hbelow'
    obtain rfl := Option.some.inj (hlisted.symm.trans hcontents)
    have hsame := h.part.bareAt?_eq (mt bareAt?_eq_none_iff.mp hthere)
    rw [bareAt?_eq_folder_iff.mpr ⟨contents, hlisted⟩, bareAt?_eq_folder_iff] at hsame
    obtain ⟨left, hleft⟩ := hsame
    refine ⟨?_, _, hleft, (isEmptyFolder_iff hleft).mpr fun m => (hbelow m).mpr (.inr hreached)⟩
    rw [Bool.eq_false_iff, Ne, isEmptyFolder_iff hlisted]
    exact fun hnone => hm (hnone m)

include hsound hleads hfolder in
/-- The entries that are reached are those that are gone and the folders that are left without their
contents. -/
theorem Progress.perm_reached (h : Progress d₀ root seen place entries sweep d) :
    (gone place d entries ++ emptied place d entries).Perm (reached root seen place entries) := by
  have honce := (hsound.at? hfolder).once.of_map Prod.fst
  have hsub := (reached_sublist root seen place entries).trans List.filter_sublist
  have hreached := hsub.nodup honce
  refine (List.perm_ext_iff_of_nodup ?_ hreached).mpr ?_
  · refine List.nodup_append'.mpr ⟨honce.filter _, honce.filter _, ?_⟩
    intro entry hgone hemptied
    obtain ⟨he, hgone⟩ := List.mem_filter.mp hgone
    obtain ⟨-, hemptied⟩ := List.mem_filter.mp hemptied
    rw [Option.isNone_iff_eq_none] at hgone
    simp [hgone] at hemptied
  · intro entry
    rw [List.mem_append, gone, emptied, List.mem_filter, List.mem_filter, ← and_or_left]
    constructor
    · rintro ⟨he, hgone | hemptied⟩
      · exact ((h.at?_eq_none_iff hsound hfolder he).mp (Option.isNone_iff_eq_none.mp hgone)).1
      · exact ((h.emptied_iff hsound hleads hfolder he).mp hemptied).1
    · intro hmem
      have he := (mem_of_mem_reached hmem).1
      refine ⟨he, ?_⟩
      rw [Option.isNone_iff_eq_none, h.at?_eq_none_iff hsound hfolder he,
        h.emptied_iff hsound hleads hfolder he, ← and_or_left]
      exact ⟨hmem, em _⟩

include hsound hleads hfolder in
/-- The entries that are deleted are those that are gone and the folders that are left without their
contents. -/
theorem Progress.removed_eq (h : Progress d₀ root seen place entries sweep d) :
    sweep.removed = (gone place d entries).length + (emptied place d entries).length := by
  rw [h.removed, ← (h.perm_reached hsound hleads hfolder).length_eq, List.length_append]

include hsound hleads hfolder in
/-- The entries that cannot be deleted are the others. -/
theorem Progress.failed_eq (h : Progress d₀ root seen place entries sweep d) :
    sweep.failed = (kept place d entries).length := by
  have hcount := h.count
  have hremoved := h.removed_eq hsound hleads hfolder
  have hlength := length_eq_gone_emptied_kept place d entries
  omega

include hsound hleads hfolder in
/-- A path that runs through nothing inside its directory lets all entries go but those whose own
paths are too long. -/
theorem Progress.kept_eq (h : Progress d₀ root seen place entries sweep d)
    (hclear : ∀ q ∈ seen, ¬(place <+: q ∧ place ≠ q)) :
    emptied place d entries = [] ∧
      kept place d entries = entries.filter fun entry => ¬root.Fits entry.1 := by
  have hruns := not_runsThrough hclear
  have hreached := reached_eq_filter fun entry (_ : entry ∈ reached root seen place entries) =>
    hruns entry.1
  have hbelow : ∀ name, ∀ q ∈ seen, ¬(place ++ [name] <+: q ∧ place ++ [name] ≠ q) :=
    fun name q hq hbelow => hruns name ⟨q, hq, hbelow.1⟩
  have hemptied : ∀ entry ∈ entries, (!entry.2.isEmptyFolder &&
      (d.top.at? (place ++ [entry.1])).any isEmptyFolder) = false := by
    intro entry he
    rw [Bool.eq_false_iff, Ne, h.emptied_iff hsound hleads hfolder he]
    exact fun hemptied => hemptied.2 (hbelow entry.1)
  constructor
  · rw [emptied, List.filter_eq_nil_iff]
    intro entry he
    rw [hemptied entry he]
    exact Bool.false_ne_true
  · refine List.filter_congr fun entry he => ?_
    have hgone : (d.top.at? (place ++ [entry.1])).isNone = decide (root.Fits entry.1) := by
      rw [Bool.eq_iff_iff, Option.isNone_iff_eq_none, h.at?_eq_none_iff hsound hfolder he,
        and_iff_left (hbelow entry.1), hreached, List.mem_filter, and_iff_right he]
    rw [hemptied entry he, hgone, Bool.not_false, Bool.and_true, decide_not]

end

/-! ### The order of entries -/

section

variable {d₀' d' : Disk} {entries' : List (String × Node)} {sweep' : Sweep}

theorem goneLinkBytes_eq_sum (place : Place) (d : Disk) (entries : List (String × Node)) :
    goneLinkBytes place d entries = (entries.map fun entry =>
      if (d.top.at? (place ++ [entry.1])).isNone then linkBytes entry.2 else 0).sum := by
  induction entries with
  | nil => rfl
  | cons entry entries ih =>
    have happend := goneLinkBytes_append place d [entry] entries
    rw [List.singleton_append, ih] at happend
    rw [happend, List.map_cons, List.sum_cons, goneLinkBytes, gone, List.filter_singleton]
    cases (d.top.at? (place ++ [entry.1])).isNone <;> simp

/-- Folders that show the same have lost links of the same length if the same names are gone. -/
theorem goneLinkBytes_alike (place : Place) (hfolders : Alike (.folder entries) (.folder entries'))
    (once : (entries.map Prod.fst).Nodup) (once' : (entries'.map Prod.fst).Nodup)
    (hafter : Alike d.top d'.top) :
    goneLinkBytes place d entries = goneLinkBytes place d' entries' := by
  rw [goneLinkBytes_congr fun entry _ => hafter (place ++ [entry.1]), goneLinkBytes_eq_sum,
    goneLinkBytes_eq_sum]
  refine (hfolders.perm_map once once' fun name node node' he he' => ?_).sum_eq
  simp only
  rw [← linkBytes_bare, hfolders.bare_eq once once' he he', linkBytes_bare]

/-- Paths from the same folder reach the same of entries that show the same. -/
theorem unreadBytes_alike (root : Path) (hfolders : Alike (.folder entries) (.folder entries'))
    (hsound : Sound (.folder entries)) (hsound' : Sound (.folder entries')) :
    unreadBytes root (entries.filter fun entry => root.Fits entry.1) =
      unreadBytes root (entries'.filter fun entry => root.Fits entry.1) := by
  rw [unreadBytes_filter, unreadBytes_filter]
  refine (hfolders.perm_map hsound.once hsound'.once fun name node node' he he' => ?_).sum_eq
  have hat : Node.at? [name] (.folder entries) = some node := by
    simp [Node.at?, lookup_of_mem hsound.once he]
  have hat' : Node.at? [name] (.folder entries') = some node' := by
    simp [Node.at?, lookup_of_mem hsound'.once he']
  have halike : Alike node node' := hfolders.at? hat hat'
  simp only
  rw [halike.unreadBytes_eq (hsound.nodes he) (hsound'.nodes he')]

/-- Sweeps of directories that cannot be cut end alike if they begin alike. -/
theorem Progress.alike (h : Progress d₀ root seen place entries sweep d)
    (h' : Progress d₀' root seen place entries' sweep' d') (halike : Alike d₀.top d₀'.top)
    (hsound : d₀.top.Sound) (hsound' : d₀'.top.Sound)
    (hat : d₀.top.at? place = some (.folder entries))
    (hat' : d₀'.top.at? place = some (.folder entries'))
    (hclear : ∀ q ∈ seen, ¬(place <+: q ∧ place ≠ q)) :
    sweep = sweep' ∧ Alike d.top d'.top := by
  have hfolders : Alike (.folder entries) (.folder entries') := halike.at? hat hat'
  have honce := (hsound.at? hat).once
  have honce' := (hsound'.at? hat').once
  have hnames : (entries.map Prod.fst).Perm (entries'.map Prod.fst) :=
    hfolders.perm_map honce honce' fun _ _ _ _ _ => rfl
  have hafter : Alike d.top d'.top := by
    refine h.part.alike h'.part halike fun q => ?_
    rw [h.taken, h'.taken, halike q, takes_iff_of_clear hclear, takes_iff_of_clear hclear]
    simp only [hnames.mem_iff]
  have hremoved : sweep.removed = sweep'.removed := by
    have hfits : ∀ part : List (String × Node),
        (part.filter fun entry => root.Fits entry.1).length =
          ((part.map Prod.fst).filter fun name => root.Fits name).length := by
      intro part
      rw [List.filter_map, List.length_map]
      rfl
    rw [h.removed_of_clear hclear, h'.removed_of_clear hclear, hfits, hfits,
      (hnames.filter _).length_eq]
  have hlinks := goneLinkBytes_alike place hfolders honce honce' hafter
  have hbefore := halike.fileBytes_eq hsound hsound'
  have hafterBytes := hafter.fileBytes_eq h.sound h'.sound
  have hunread := unreadBytes_alike root hfolders (hsound.at? hat) (hsound'.at? hat')
  obtain ⟨freed, hwrap, hfreed⟩ := h.bytes
  obtain ⟨freed', hwrap', hfreed'⟩ := h'.bytes
  rw [reached_eq_filter fun entry _ => not_runsThrough hclear entry.1] at hfreed hfreed'
  have hbytes : sweep.bytes = sweep'.bytes := by
    have hsame : freed = freed' := by omega
    rw [hwrap, hwrap', hsame]
  have hcount := h.count
  have hcount' := h'.count
  have hlength := hnames.length_eq
  rw [List.length_map, List.length_map] at hlength
  refine ⟨?_, hafter⟩
  obtain ⟨bytes, removed, failed⟩ := sweep
  obtain ⟨bytes', removed', failed'⟩ := sweep'
  simp only [Sweep.mk.injEq] at *
  omega

end

end Sweep

end Reclaim
