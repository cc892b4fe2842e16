import Reclaim.Proofs.Clean.Survival
import Reclaim.Proofs.Walk.Totals

/-!
# A scan and a clean agree

A scan tells what a clean would free, though the two see different things: a scan shows neither
hidden files nor what is inside a bundle, and counts no links, while a clean deletes whatever it
finds.  On directories that do not get in each other's way the difference is exactly this, and after
a clean a scan finds nothing.

Directories get in each other's way if one is inside the other, or if the path of one runs through
something that is deleted before its turn is over.  Then a scan may tell more than a clean frees.
The other limit is the length of a path: what cannot be deleted for that reason is still found.

## Main definitions

* `Disk.EntriesFit` : the paths of the entries of a directory are not too long.
* `Disk.Apart`, `Disk.RunsInto` : directories one outside the other, and a path that runs through
  something inside a directory.
* `Disk.Independent` : directories that do not get in each other's way.
* `Node.clearedBytes` : what is freed when a folder is emptied.

## Main results

* `Cleaner.bytes_run_eq`, `Cleaner.inFolder_run_eq` : what a turn frees, and what it leaves for the
  others.
* `Cleaner.bytes_sweepAll_eq` : what all turns free.
* `Cleaner.scanned_sweepAll_eq_nil` : what a scan finds afterwards.
* `Cleaner.runOn_agrees` : a scan before a clean, the clean, and a scan afterwards.
-/

namespace Reclaim

open Node

/-! ### Directories that do not get in each other's way -/

namespace Disk

/-- The paths of the entries of the directory are not too long. -/
def EntriesFit (d : Disk) (p : Path) : Prop :=
  ∀ found ∈ d.folderAt? p, ∀ entry ∈ found.2, p.Fits entry.1

instance (d : Disk) (p : Path) : Decidable (d.EntriesFit p) :=
  inferInstanceAs (Decidable (∀ found ∈ d.folderAt? p, _))

/-- The folders that two paths lead to are different, and neither is inside the other. -/
def Apart (d : Disk) (p p' : Path) : Prop :=
  ∀ found ∈ d.folderAt? p, ∀ found' ∈ d.folderAt? p',
    ¬found.1 <+: found'.1 ∧ ¬found'.1 <+: found.1

instance (d : Disk) (p p' : Path) : Decidable (d.Apart p p') :=
  inferInstanceAs (Decidable (∀ found ∈ d.folderAt? p, _))

/-- The first path leads to a folder, and its way runs through something inside the folder that the
second path leads to. -/
def RunsInto (d : Disk) (p p' : Path) : Prop :=
  ∃ seen goal inner place entries, d.Leads true p seen goal ∧
    d.top.at? goal = some (.folder inner) ∧ d.folderAt? p' = some (place, entries) ∧
    ∃ q ∈ seen, place <+: q ∧ place ≠ q

/-- Directories that are emptied one after the other and do not get in each other's way: their
folders are apart, and the path of none runs through something inside its own folder or that of an
earlier one. -/
structure Independent (d : Disk) (paths : List Path) : Prop where
  apart : paths.Pairwise d.Apart
  later : paths.Pairwise fun p p' => ¬d.RunsInto p' p
  own : ∀ p ∈ paths, ¬d.RunsInto p p

variable {d d' : Disk} {p p' : Path} {paths : List Path} {place : Place}
  {entries : List (String × Node)}

/-! In a part of a tree directories get less in each other's way. -/

theorem EntriesFit.of_isPartOf (h : d.EntriesFit p) (hpart : IsPartOf d'.top d.top)
    (hsound' : d'.top.Sound) : d'.EntriesFit p := by
  rintro ⟨place, entries⟩ hfolder entry hentry
  obtain ⟨entries', hfolder'⟩ := folderAt?_of_isPartOf hpart hfolder
  obtain ⟨node, hnode, -⟩ := Cleaner.exists_mem_of_isPartOf hpart hsound'
    (folderAt?_eq_some_iff.mp hfolder').2 (folderAt?_eq_some_iff.mp hfolder).2 hentry
  exact h (place, entries') hfolder' (entry.1, node) hnode

theorem Apart.of_isPartOf (h : d.Apart p p') (hpart : IsPartOf d'.top d.top) : d'.Apart p p' := by
  rintro ⟨place, entries⟩ hfolder ⟨place', entries'⟩ hfolder'
  obtain ⟨before, hbefore⟩ := folderAt?_of_isPartOf hpart hfolder
  obtain ⟨before', hbefore'⟩ := folderAt?_of_isPartOf hpart hfolder'
  exact h (place, before) hbefore (place', before') hbefore'

theorem RunsInto.of_isPartOf (h : d'.RunsInto p p') (hpart : IsPartOf d'.top d.top) :
    d.RunsInto p p' := by
  obtain ⟨seen, goal, inner, place, entries, hleads, hat, hfolder, hthrough⟩ := h
  obtain ⟨inner', hat'⟩ := hpart.exists_folder hat
  obtain ⟨before, hbefore⟩ := folderAt?_of_isPartOf hpart hfolder
  exact ⟨seen, goal, inner', place, before, hleads.of_isPartOf hpart, hat', hbefore, hthrough⟩

theorem Independent.of_isPartOf (h : d.Independent paths) (hpart : IsPartOf d'.top d.top) :
    d'.Independent paths where
  apart := h.apart.imp fun hapart => hapart.of_isPartOf hpart
  later := h.later.imp fun hnot hruns => hnot (hruns.of_isPartOf hpart)
  own p hp hruns := h.own p hp (hruns.of_isPartOf hpart)

/-- If no link is followed, it is enough that the folders are apart. -/
theorem independent_of_isStraight
    (hplain : ∀ p ∈ paths, p.isAbsolute = true ∧ .up ∉ p.components ∧ d.IsStraight true p)
    (hapart : paths.Pairwise d.Apart) : d.Independent paths where
  apart := hapart
  later := by
    refine hapart.imp_of_mem fun {p p'} _ hp' hapart => ?_
    rintro ⟨seen, goal, inner, place, entries, hleads, hat, hfolder, q, hq, hinside, -⟩
    obtain ⟨habsolute, hup, hstraight⟩ := hplain p' hp'
    obtain ⟨-, habove⟩ := hleads.of_isStraight hstraight habsolute hup
    have hfolder' := folderAt?_eq_some_iff.mpr ⟨⟨seen, hleads⟩, hat⟩
    exact (hapart (place, entries) hfolder (goal, inner) hfolder').1 (hinside.trans (habove q hq))
  own := by
    rintro p hp ⟨seen, goal, inner, place, entries, hleads, hat, hfolder, q, hq, hinside, hne⟩
    obtain ⟨habsolute, hup, hstraight⟩ := hplain p hp
    obtain ⟨-, habove⟩ := hleads.of_isStraight hstraight habsolute hup
    obtain ⟨⟨seen', hleads'⟩, -⟩ := folderAt?_eq_some_iff.mp hfolder
    obtain ⟨-, rfl⟩ := hleads.unique hleads'
    exact hne (hinside.eq_of_length_le (habove q hq).length_le)

/-- Figures of folders that show the same are the same, whatever the order of entries. -/
theorem inFolder_congr {figure : Node → Nat} (hsound : d.top.Sound) (hsound' : d'.top.Sound)
    (hfigure : ∀ entries entries', Sound (.folder entries) → Sound (.folder entries') →
      Alike (.folder entries) (.folder entries') →
      figure (.folder entries) = figure (.folder entries'))
    (hfolder : d.folderAt? p = some (place, entries))
    (hfolder' : d'.folderAt? p = some (place, entries'))
    (hsame : ∀ q, d'.top.bareAt? (place ++ q) = d.top.bareAt? (place ++ q)) :
    d'.inFolder figure p = d.inFolder figure p := by
  have hat := (folderAt?_eq_some_iff.mp hfolder).2
  have hat' := (folderAt?_eq_some_iff.mp hfolder').2
  have halike : Alike (.folder entries') (.folder entries) := by
    intro q
    have hq := hsame q
    rwa [bareAt?_append, bareAt?_append, hat, hat'] at hq
  have hsound := hsound.at? hat
  have hsound' := hsound'.at? hat'
  rw [inFolder_eq _ hfolder, inFolder_eq _ hfolder']
  exact hfigure _ _ (hsound'.within p) (hsound.within p) (halike.within hsound' hsound p)

end Disk

/-! ### What is freed -/

namespace Node

/-- The lengths of the links directly inside a folder. -/
def childLinkBytes : Node → Nat
  | .folder entries => (entries.map fun entry => linkBytes entry.2).sum
  | _ => 0

/-- What is freed when a folder is emptied: all files below it, and the links directly inside. -/
def clearedBytes (node : Node) : Nat :=
  node.fileBytes + node.childLinkBytes

variable {entries entries' : List (String × Node)}

/-- What a folder frees does not depend on the order of entries. -/
theorem clearedBytes_alike (hsound : Sound (.folder entries)) (hsound' : Sound (.folder entries'))
    (h : Alike (.folder entries) (.folder entries')) :
    clearedBytes (.folder entries) = clearedBytes (.folder entries') := by
  have hlinks : childLinkBytes (.folder entries) = childLinkBytes (.folder entries') := by
    refine (h.perm_map hsound.once hsound'.once fun name node node' he he' => ?_).sum_eq
    simp only
    rw [← linkBytes_bare, h.bare_eq hsound.once hsound'.once he he', linkBytes_bare]
  rw [clearedBytes, clearedBytes, h.fileBytes_eq hsound hsound', hlinks]

/-- A folder frees what is shown of it, what is concealed, and the links directly inside. -/
theorem clearedBytes_eq (hsound : Sound (.folder entries)) :
    clearedBytes (.folder entries) = shownBytes (.folder entries) +
      (concealedBytes (.folder entries) + childLinkBytes (.folder entries)) := by
  rw [clearedBytes, ← shownBytes_add_concealedBytes hsound, Nat.add_assoc]

/-- If all entries of a folder can be reached, the files that cannot are those below the entries. -/
theorem unreadBytes_folder {p : Path} (hfits : ∀ entry ∈ entries, p.Fits entry.1) :
    (Node.folder entries).unreadBytes p = Sweep.unreadBytes p entries := by
  have hparts : entryBytes (entriesWithin p entries) + Sweep.unreadBytes p entries =
      entryBytes entries := by
    induction entries with
    | nil => rfl
    | cons entry entries ih =>
      obtain ⟨hfit, hfits⟩ := List.forall_mem_cons.mp hfits
      have hrest := ih hfits
      have hentry := fileBytes_within_add (p.child entry.1) entry.2
      have hunread := Sweep.unreadBytes_append p [entry] entries
      rw [List.singleton_append, Sweep.unreadBytes_singleton] at hunread
      rw [entriesWithin, Path.fits_iff.mp hfit, if_neg Bool.false_ne_true, hunread]
      simp only [entryBytes]
      omega
  have hfolder := fileBytes_within_add p (.folder entries)
  rw [within] at hfolder
  simp only [fileBytes] at hfolder
  omega

/-- If all entries of a folder can be reached, so can the links directly inside. -/
theorem childLinkBytes_within {p : Path} (hfits : ∀ entry ∈ entries, p.Fits entry.1) :
    ((Node.folder entries).within p).childLinkBytes = (Node.folder entries).childLinkBytes := by
  rw [within]
  induction entries with
  | nil => rfl
  | cons entry entries ih =>
    obtain ⟨hfit, hfits⟩ := List.forall_mem_cons.mp hfits
    have hrest := ih hfits
    have hentry : linkBytes (entry.2.within (p.child entry.1)) = linkBytes entry.2 := by
      rw [← linkBytes_bare, bare_within, linkBytes_bare]
    rw [entriesWithin, Path.fits_iff.mp hfit, if_neg Bool.false_ne_true]
    simp only [childLinkBytes, List.map_cons, List.sum_cons, hentry] at hrest ⊢
    rw [hrest]

end Node

/-- What emptying a directory frees is what a scan shows of it, what is concealed, and the links
directly inside. -/
theorem Disk.inFolder_clearedBytes {d : Disk} (hsound : d.top.Sound) (p : Path) :
    d.inFolder clearedBytes p = d.inFolder shownBytes p +
      (d.inFolder concealedBytes p + d.inFolder childLinkBytes p) := by
  simp only [inFolder]
  split
  next hfolder => exact clearedBytes_eq ((hsound.at? (folderAt?_eq_some_iff.mp hfolder).2).within p)
  next => rfl

/-! ### Turns -/

namespace Cleaner

variable {home : Option Path} {root : ReclaimRoot} {roots : List ReclaimRoot} {d : Disk}
  {place : Place} {entries : List (String × Node)}

/-- A turn of a directory whose path cannot be cut and whose entries can all be deleted clears its
folder. -/
theorem alike_clear_of_progress {seen : List Place} {sweep : Sweep} {d' : Disk} {p : Path}
    (hprogress : Sweep.Progress d p seen place entries sweep d')
    (hat : d.top.at? place = some (.folder entries)) (hfits : ∀ entry ∈ entries, p.Fits entry.1)
    (hclear : ∀ q ∈ seen, ¬(place <+: q ∧ place ≠ q)) : Alike d'.top (d.top.clear place) := by
  refine hprogress.part.alike (isPartOf_clear d.top place) (fun _ => rfl) fun q => ?_
  rw [hprogress.taken q, Sweep.takes_iff_of_clear hclear, bareAt?_clear]
  constructor
  · rintro (hnone | ⟨name, -, -, habove⟩)
    · split
      · rfl
      · exact hnone
    · rw [if_pos (Sweep.inside_of_child habove)]
  · intro hnone
    split at hnone
    next hinside =>
      obtain ⟨⟨rest, rfl⟩, hne⟩ := hinside
      cases rest with
      | nil => exact absurd (List.append_nil place).symm hne
      | cons name rest =>
        have habove : place ++ [name] <+: place ++ name :: rest :=
          ⟨rest, List.append_assoc place [name] rest⟩
        cases hentry : entries.lookup name with
        | none =>
          have hchild : d.top.bareAt? (place ++ [name]) = none := by
            rw [bareAt?_eq_none_iff, at?_concat hat, hentry]
          exact .inl (bareAt?_eq_none_below hchild habove)
        | some node =>
          have hmem := mem_of_lookup hentry
          exact .inr ⟨name, List.mem_map_of_mem hmem, hfits (name, node) hmem, habove⟩
    next => exact .inl hnone

/-- A turn frees what its folder holds, as far as paths reach it. -/
theorem bytes_run_eq (hsound : d.top.Sound) (hroot : Safety.isUserRoot home root.path = true)
    (hfits : d.EntriesFit root.path) (hown : ¬d.RunsInto root.path root.path) :
    (Sweep.run home root.path d).1.bytes = Bytes.wrap (d.inFolder clearedBytes root.path) := by
  rcases run_cases home hsound root with
    ⟨hidle, hrun⟩ | ⟨seen, place, entries, -, hleads, hat, hprogress⟩
  · have hfolder : d.folderAt? root.path = none := by
      rcases hidle with hunsafe | hfolder
      · simp [hroot] at hunsafe
      · exact hfolder
    rw [hrun, Disk.inFolder_eq_zero _ hfolder]
    rfl
  · have hfolder := Disk.folderAt?_eq_some_iff.mpr ⟨⟨seen, hleads⟩, hat⟩
    have hclear : ∀ q ∈ seen, ¬(place <+: q ∧ place ≠ q) := fun q hq hinside =>
      hown ⟨seen, place, entries, place, entries, hleads, hat, hfolder, q, hq, hinside⟩
    have hfits := hfits (place, entries) hfolder
    have halike := alike_clear_of_progress hprogress hat hfits hclear
    -- every link directly inside has gone
    have hlinks : Sweep.goneLinkBytes place (Sweep.run home root.path d).2 entries =
        childLinkBytes (.folder entries) := by
      rw [Sweep.goneLinkBytes_eq_sum, childLinkBytes]
      refine congrArg List.sum (List.map_congr_left fun entry _ => if_pos ?_)
      rw [Option.isNone_iff_eq_none, ← bareAt?_eq_none_iff, halike, bareAt?_clear,
        if_pos (Sweep.inside_of_child (List.prefix_refl _))]
    have hfiles := halike.fileBytes_eq hprogress.sound (hsound.clear place)
    have hcleared := fileBytes_clear hsound hat
    have hreached : Sweep.reached root.path seen place entries = entries := by
      rw [Sweep.reached_eq_filter fun entry _ => Sweep.not_runsThrough hclear entry.1]
      exact List.filter_eq_self.mpr fun entry he => decide_eq_true (hfits entry he)
    have hparts := fileBytes_within_add root.path (.folder entries)
    obtain ⟨freed, hwrap, hbalance⟩ := hprogress.bytes
    simp only at hfits hcleared
    rw [hlinks, hreached, ← unreadBytes_folder hfits] at hbalance
    rw [hwrap, Disk.inFolder_eq _ hfolder, clearedBytes, childLinkBytes_within hfits]
    refine congrArg Bytes.wrap ?_
    omega

/-- A turn leaves what is not inside its folder. -/
theorem bareAt?_run (hsound : d.top.Sound) (root : ReclaimRoot) {q : Place}
    (h : ∀ place entries, d.folderAt? root.path = some (place, entries) →
      ¬(place <+: q ∧ place ≠ q)) :
    (Sweep.run home root.path d).2.top.bareAt? q = d.top.bareAt? q := by
  rcases isPartOf_run home hsound root q with hnone | hsame
  · rcases (bareAt?_run_eq_none_iff home hsound root q).mp hnone with hbefore | ⟨-, htakes⟩
    · rw [hnone, hbefore]
    · obtain ⟨place, entries, hfolder, hinside⟩ := htakes.covers
      exact absurd hinside (h place entries hfolder)
  · exact hsame

/-- A turn leaves the figures of a directory that is apart and whose path it does not cut. -/
theorem inFolder_run_eq {figure : Node → Nat} (hsound : d.top.Sound)
    (hfigure : ∀ entries entries', Sound (.folder entries) → Sound (.folder entries') →
      Alike (.folder entries) (.folder entries') →
      figure (.folder entries) = figure (.folder entries'))
    {p : Path} (hapart : d.Apart root.path p) (hnot : ¬d.RunsInto p root.path) :
    (Sweep.run home root.path d).2.inFolder figure p = d.inFolder figure p := by
  have hpart := isPartOf_run home hsound root
  cases hfolder : d.folderAt? p with
  | none =>
    have hfolder' : (Sweep.run home root.path d).2.folderAt? p = none := by
      rw [Option.eq_none_iff_forall_ne_some]
      rintro ⟨place, entries⟩ hsome
      obtain ⟨entries', hbefore⟩ := Disk.folderAt?_of_isPartOf hpart hsome
      cases hfolder.symm.trans hbefore
    rw [Disk.inFolder_eq_zero _ hfolder, Disk.inFolder_eq_zero _ hfolder']
  | some found =>
    obtain ⟨place, entries⟩ := found
    obtain ⟨⟨seen, hleads⟩, hat⟩ := Disk.folderAt?_eq_some_iff.mp hfolder
    have hseen : ∀ q ∈ seen, (Sweep.run home root.path d).2.top.bareAt? q ≠ none := by
      intro q hq
      rw [bareAt?_run hsound root fun place' entries' hfolder' hinside =>
        hnot ⟨seen, place, entries, place', entries', hleads, hat, hfolder', q, hq, hinside⟩]
      exact hleads.bareAt?_ne_none hq
    have hsame : ∀ q, (Sweep.run home root.path d).2.top.bareAt? (place ++ q) =
        d.top.bareAt? (place ++ q) := by
      intro q
      refine bareAt?_run hsound root fun place' entries' hfolder' hinside => ?_
      obtain ⟨hnot, hnot'⟩ := hapart (place', entries') hfolder' (place, entries) hfolder
      rcases List.prefix_or_prefix_of_prefix hinside.1 (List.prefix_append place q) with h | h
      · exact hnot h
      · exact hnot' h
    obtain ⟨entries', hat'⟩ : ∃ entries',
        (Sweep.run home root.path d).2.top.at? place = some (.folder entries') := by
      rw [← bareAt?_eq_folder_iff]
      have hplace := hsame []
      rw [List.append_nil] at hplace
      rw [hplace]
      exact bareAt?_eq_folder_iff.mpr ⟨entries, hat⟩
    have hfolder' := Disk.folderAt?_eq_some_iff.mpr ⟨⟨seen, hleads.mono hpart hseen⟩, hat'⟩
    exact Disk.inFolder_congr hsound (sound_run home hsound root) hfigure hfolder hfolder' hsame

/-- Directories that do not get in each other's way free what their folders hold, as far as paths
reach it. -/
theorem bytes_sweepAll_eq (hsound : d.top.Sound)
    (hroots : ∀ root ∈ roots, Safety.isUserRoot home root.path = true)
    (hfits : ∀ root ∈ roots, d.EntriesFit root.path)
    (hindependent : d.Independent (roots.map ReclaimRoot.path)) :
    (sweepAll home roots d).1.bytes =
      Bytes.wrap (roots.map fun root => d.inFolder clearedBytes root.path).sum := by
  induction roots generalizing d with
  | nil => rfl
  | cons root roots ih =>
    obtain ⟨hroot, hroots⟩ := List.forall_mem_cons.mp hroots
    obtain ⟨hfit, hfits⟩ := List.forall_mem_cons.mp hfits
    obtain ⟨hown, -⟩ := List.forall_mem_cons.mp hindependent.own
    obtain ⟨hapart, hapart'⟩ := List.pairwise_cons.mp hindependent.apart
    obtain ⟨hlater, hlater'⟩ := List.pairwise_cons.mp hindependent.later
    have hpart := isPartOf_run home hsound root
    have hsound' := sound_run home hsound root
    -- the other directories are as independent as before, and hold what they held
    have hrest := ih hsound' hroots (fun r hr => (hfits r hr).of_isPartOf hpart hsound')
      (Disk.Independent.of_isPartOf ⟨hapart', hlater', fun p hp =>
        hindependent.own p (List.mem_cons_of_mem _ hp)⟩ hpart)
    have hsame : ∀ r ∈ roots, (Sweep.run home root.path d).2.inFolder clearedBytes r.path =
        d.inFolder clearedBytes r.path := fun r hr =>
      inFolder_run_eq hsound (fun _ _ => clearedBytes_alike)
        (hapart r.path (List.mem_map_of_mem hr)) (hlater r.path (List.mem_map_of_mem hr))
    rw [List.map_congr_left hsame] at hrest
    have hfirst := bytes_run_eq hsound hroot hfit hown
    rw [List.map_cons, List.sum_cons]
    simp only [sweepAll, Sweep.add, hfirst, hrest, Bytes.add_wrap_wrap]

/-! ### Before and after -/

/-- After all turns a scan finds nothing in a directory all of whose entries can be deleted. -/
theorem scanned_sweepAll_eq_nil (hsound : d.top.Sound) (hmem : root ∈ roots)
    (hroot : Safety.isUserRoot home root.path = true) (hfits : d.EntriesFit root.path) :
    (sweepAll home roots d).2.scanned root.path = [] := by
  have hsound' := sound_sweepAll home hsound roots
  cases hfolder : (sweepAll home roots d).2.folderAt? root.path with
  | none => exact Disk.scanned_eq_nil hfolder
  | some found =>
    obtain ⟨place, entries⟩ := found
    have hempty : entries = [] := by
      rw [List.eq_nil_iff_forall_not_mem]
      intro entry hentry
      have hfits' := hfits.of_isPartOf (isPartOf_sweepAll home hsound roots) hsound'
      exact not_fits_of_mem home hsound hmem hroot hfolder hentry
        (hfits' (place, entries) hfolder entry hentry)
    rw [Disk.scanned_eq hsound' hfolder, hempty]
    rfl

end Cleaner

/-- A scan of a catalog without directories of the system adds up those of the user. -/
theorem Scanner.totals_ofCatalog (home : Option Path) {catalog : Catalog}
    (h : catalog.system = []) (every : Nat) (seconds : Double) (d : Disk) (signals : Signals) :
    let result := ((ofCatalog catalog every).run home seconds d signals).1
    result.totalBytes = Bytes.wrap
        (catalog.user.map fun root => ((d.scanned root.path).map itemBytes).sum).sum ∧
      result.entriesVisited = (catalog.user.map fun root => (d.scanned root.path).length).sum := by
  have htotals := totals_run home d seconds (ofCatalog catalog every) signals
  have hlist : (ofCatalog catalog every).catalog.toList = catalog.user := by
    rw [ofCatalog, Catalog.toList, h, List.append_nil]
  rwa [hlist] at htotals

namespace Cleaner

/-- Without directories of the system, a clean is over with those of the user. -/
theorem runOn_of_system_eq_nil (home : Option Path) (present : Disk → Path → Bool) {c : Cleaner}
    (h : c.catalog.system = []) (s : Station) :
    (c.runOn home present s).1.user = (sweepAll home c.catalog.user s.disk).1 ∧
      (c.runOn home present s).2.disk = (sweepAll home c.catalog.user s.disk).2 := by
  have hphase : (c.runOn home present s).1.system = .notNeeded := by
    simp [runOn, runSystem, Catalog.systemCommand?, Catalog.eligibleRoots, h]
  refine ⟨(runUser_eq home c (s.setBusy true)).1, ?_⟩
  rcases runOn_disk home present c s with ⟨hrejected, -⟩ | ⟨-, hdisk⟩
  · cases hphase.symm.trans hrejected
  · exact hdisk

/-- **A scan and a clean agree.** Let a catalog of directories of the user be cleaned whose entries
have paths that are not too long.  A scan right after the clean finds nothing.  If the directories
do not get in each other's way, a clean frees what a scan just before it tells, together with the
bytes of the files that a scan does not show and the lengths of the links directly inside the
directories; files further down whose paths are too long are in neither figure, and the sum is exact
if a count can hold it.  If no link is followed on the way to any of them, it is enough that the
directories are apart. -/
theorem runOn_agrees (home : Option Path) (roots : List ReclaimRoot) (elevator : Elevator)
    (present : Disk → Path → Bool) (every : Nat) (seconds : Double) (signals : Signals)
    (s : Station) (hsound : s.disk.top.Sound) (htier : ∀ root ∈ roots, root.tier = .user)
    (hfits : ∀ root ∈ (Catalog.ofRoots home roots).user, s.disk.EntriesFit root.path) :
    let c : Cleaner := ⟨Catalog.ofRoots home roots, elevator⟩
    let paths := c.catalog.user.map ReclaimRoot.path
    let scan (d : Disk) := ((Scanner.ofCatalog c.catalog every).run home seconds d signals).1
    let outcome := (c.runOn home present s).1
    let after := (c.runOn home present s).2
    let unshown := (paths.map fun p => s.disk.inFolder concealedBytes p +
      s.disk.inFolder childLinkBytes p).sum
    (scan after.disk).totalBytes = 0 ∧ (scan after.disk).entriesVisited = 0 ∧
    (s.disk.Independent paths →
      outcome.user.bytes = Bytes.add (scan s.disk).totalBytes unshown ∧
      ((paths.map (s.disk.inFolder clearedBytes)).sum < Bytes.limit →
        outcome.user.bytes = (scan s.disk).totalBytes + unshown)) ∧
    ((∀ p ∈ paths, s.disk.IsStraight true p) → paths.Pairwise s.disk.Apart →
      s.disk.Independent paths) := by
  intro c paths scan outcome after unshown
  have hsystem : c.catalog.system = [] := Catalog.system_ofRoots home htier
  obtain ⟨huser, hdisk⟩ := runOn_of_system_eq_nil home present hsystem s
  have hroots : ∀ root ∈ c.catalog.user, Safety.isUserRoot home root.path = true :=
    fun _ hroot => Catalog.isUserRoot_of_mem_ofRoots hroot
  have hscan (d : Disk) := Scanner.totals_ofCatalog home hsystem every seconds d signals
  have hnothing : ∀ root ∈ c.catalog.user, after.disk.scanned root.path = [] := by
    intro root hroot
    rw [show after.disk = _ from hdisk]
    exact scanned_sweepAll_eq_nil hsound hroot (hroots root hroot) (hfits root hroot)
  refine ⟨?_, ?_, ?_, ?_⟩
  · have hzero : (c.catalog.user.map fun root =>
        ((after.disk.scanned root.path).map itemBytes).sum).sum = 0 := by
      refine List.sum_eq_zero (List.forall_mem_map.mpr fun root hroot => ?_)
      rw [hnothing root hroot]
      rfl
    rw [(hscan after.disk).1, hzero]
    rfl
  · rw [(hscan after.disk).2]
    refine List.sum_eq_zero (List.forall_mem_map.mpr fun root hroot => ?_)
    rw [hnothing root hroot]
    rfl
  · intro hindependent
    -- the exact figures are sums over the directories, and the counts are taken of these
    let shown := (c.catalog.user.map fun root => s.disk.inFolder shownBytes root.path).sum
    have htotal : (scan s.disk).totalBytes = Bytes.wrap shown := by
      refine (hscan s.disk).1.trans ?_
      simp only [Disk.bytes_scanned hsound]
      rfl
    have hcleared : (paths.map (s.disk.inFolder clearedBytes)).sum = shown + unshown := by
      simp only [shown, unshown, paths, List.map_map]
      rw [← List.sum_map_add]
      refine congrArg List.sum (List.map_congr_left fun root _ => ?_)
      exact Disk.inFolder_clearedBytes hsound root.path
    have hbytes : outcome.user.bytes = Bytes.wrap (shown + unshown) := by
      rw [show outcome.user = _ from huser, bytes_sweepAll_eq hsound hroots hfits hindependent,
        ← hcleared, List.map_map]
      rfl
    refine ⟨?_, fun hsmall => ?_⟩
    · rw [hbytes, htotal, Bytes.add, Bytes.wrap_wrap_add]
    · rw [hcleared] at hsmall
      rw [hbytes, htotal, Bytes.wrap_of_lt hsmall, Bytes.wrap_of_lt (by omega)]
  · intro hstraight hapart
    refine Disk.independent_of_isStraight (fun p hp => ?_) hapart
    obtain ⟨root, hroot, rfl⟩ := List.mem_map.mp hp
    obtain ⟨habsolute, -, hplain, -⟩ := Safety.isUserRoot_iff.mp (hroots root hroot)
    exact ⟨habsolute, fun hup => (hplain .up hup).2 rfl, hstraight _ hp⟩

/-- Two folders, one with a hidden file, a bundle, a link and a file, the other with a file. -/
def shelves : Disk :=
  ⟨.folder [("v", .folder Disk.shelfEntries), ("w", .folder [("x", .file 0 (.bytes ⟨#[1, 2]⟩))])]⟩

theorem sound_shelves : shelves.top.Sound := by decide

/-- A station with the two folders. -/
def shelvesStation : Station where
  machine := { disk := shelves }
  store := { path := ⟨"/key"⟩ }

/-- The cleaner of directories of the user. -/
def ofPaths (paths : List Path) : Cleaner :=
  ⟨Catalog.ofRoots none (paths.map fun path => ⟨path, .user⟩), {}⟩

/-- A scan of the directories of a cleaner. -/
def scan (c : Cleaner) (d : Disk) : ScanResult :=
  ((Scanner.ofCatalog c.catalog Scanner.defaultEvery).run none .nan d {}).1

/-- A scan of the two folders tells five bytes, and a clean frees ten: the hidden file, the file in
the bundle and the link come in addition. -/
theorem runOn_agrees_shelves : shelvesStation.disk.top.Sound ∧
    (∀ root ∈ [ReclaimRoot.mk ⟨"/v"⟩ .user, ⟨⟨"/w"⟩, .user⟩], root.tier = .user) ∧
    (∀ root ∈ (ofPaths [⟨"/v"⟩, ⟨"/w"⟩]).catalog.user, shelves.EntriesFit root.path) ∧
    shelves.Independent [⟨"/v"⟩, ⟨"/w"⟩] ∧
    ((ofPaths [⟨"/v"⟩, ⟨"/w"⟩]).runOn none (fun _ _ => false) shelvesStation).1.user.bytes =
      ((ofPaths [⟨"/v"⟩, ⟨"/w"⟩]).scan shelves).totalBytes + 5 := by
  have htier : ∀ root ∈ [ReclaimRoot.mk ⟨"/v"⟩ .user, ⟨⟨"/w"⟩, .user⟩], root.tier = .user := by
    decide
  have hfits : ∀ root ∈ (ofPaths [⟨"/v"⟩, ⟨"/w"⟩]).catalog.user, shelves.EntriesFit root.path := by
    decide +kernel
  obtain ⟨-, -, hbytes, hplain⟩ := runOn_agrees none [⟨⟨"/v"⟩, .user⟩, ⟨⟨"/w"⟩, .user⟩] {}
    (fun _ _ => false) Scanner.defaultEvery .nan {} shelvesStation sound_shelves htier hfits
  have hindependent := hplain (by decide +kernel) (by decide +kernel)
  refine ⟨sound_shelves, htier, hfits, hindependent, ?_⟩
  refine ((hbytes hindependent).2 (by decide +kernel)).trans ?_
  refine congrArg _ ?_
  decide +kernel

/-- A folder with a link to another one, which holds a file. -/
def crossing : Disk :=
  ⟨.folder [("a", .folder [("l", .link "/b")]),
    ("b", .folder [("f", .file 0 (.bytes ⟨#[1, 2, 3]⟩))])]⟩

theorem sound_crossing : crossing.top.Sound := by decide

/-- A station with the folder and the link. -/
def crossingStation : Station where
  machine := { disk := crossing }
  store := { path := ⟨"/key"⟩ }

theorem user_ofPaths_slashedFolder (n : Nat) :
    (ofPaths [slashedFolder n]).catalog.user = [⟨slashedFolder n, .user⟩] :=
  user_slashedFolder n

/-- A scan of the folder with two links to itself finds both, however its path is written. -/
theorem length_scanned_twoLinks : (twoLinks.scanned (slashedFolder 4093)).length = 2 := by
  have hfolder : twoLinks.folderAt? (slashedFolder 4093) = some (["d"], twoLinkEntries) :=
    folderAt?_slashedFolder (by decide) rfl
  have hshort : (slashedFolder 4093).isTooLong = false := by
    rw [Path.isTooLong, slashedFolder, Path.utf8ByteSize_slashed]
    decide
  have hinside : inside isHiddenName isBundleName (.folder twoLinkEntries) =
      [(["s"], .link "/d"), (["t"], .link "/d")] := rfl
  have hlisted (name : String) (node : Node) :
      isListed (slashedFolder 4093) ([name], node) = true := by
    rw [isListed, List.dropLast_singleton, Path.descend_nil, hshort]
    rfl
  rw [Disk.scanned_eq sound_twoLinks hfolder, hinside, List.filter_eq_self.mpr]
  · rfl
  · simp only [List.forall_mem_cons, hlisted, List.not_mem_nil, false_implies, implies_true,
      and_self]

/-- A scan and a clean of directories that are apart disagree when a path runs through something
that is deleted before its turn is over, be that in its own folder or in that of an earlier
directory; a scan after a clean finds what could not be deleted because its path is too long; and a
hidden file that is deleted with its folder is not counted if its path is too long. -/
theorem runOn_disagrees :
    ((ofPaths [⟨"/d/s/t"⟩]).scan twoLinks).totalBytes +
        (twoLinks.inFolder concealedBytes ⟨"/d/s/t"⟩ +
          twoLinks.inFolder childLinkBytes ⟨"/d/s/t"⟩) ≠
      ((ofPaths [⟨"/d/s/t"⟩]).runOn none (fun _ _ => false) twoLinksStation).1.user.bytes ∧
    crossing.Apart ⟨"/a"⟩ ⟨"/a/l"⟩ ∧
    ((ofPaths [⟨"/a"⟩, ⟨"/a/l"⟩]).runOn none (fun _ _ => false) crossingStation).1.user.bytes <
      ((ofPaths [⟨"/a"⟩, ⟨"/a/l"⟩]).scan crossing).totalBytes ∧
    ((ofPaths [slashedFolder 4093]).scan ((ofPaths [slashedFolder 4093]).runOn none
      (fun _ _ => false) twoLinksStation).2.disk).entriesVisited = 2 ∧
    deepFolder.folderAt? (slashedFolder 4090) = some (["d"], deepEntries) ∧
    (∀ entry ∈ deepEntries, (slashedFolder 4090).Fits entry.1) ∧
    ((ofPaths [slashedFolder 4090]).runOn none (fun _ _ => false) deepStation).1.user.bytes <
      ((ofPaths [slashedFolder 4090]).scan deepFolder).totalBytes +
        concealedBytes (.folder deepEntries) := by
  have hsystem (paths : List Path) : (ofPaths paths).catalog.system = [] :=
    Catalog.system_ofRoots none (by simp)
  have hscan (paths : List Path) (d : Disk) (hsound : d.top.Sound) :
      ((ofPaths paths).scan d).totalBytes = Bytes.wrap
        ((ofPaths paths).catalog.user.map fun root => d.inFolder shownBytes root.path).sum := by
    rw [scan, (Scanner.totals_ofCatalog none (hsystem paths) Scanner.defaultEvery .nan d {}).1]
    simp only [Disk.bytes_scanned hsound]
  have hclean (n : Nat) (s : Station) :
      ((ofPaths [slashedFolder n]).runOn none (fun _ _ => false) s).1.user =
          (Sweep.run none (slashedFolder n) s.disk).1.add {} ∧
        ((ofPaths [slashedFolder n]).runOn none (fun _ _ => false) s).2.disk =
          (Sweep.run none (slashedFolder n) s.disk).2 := by
    obtain ⟨huser, hafter⟩ :=
      runOn_of_system_eq_nil none (fun _ _ => false) (hsystem [slashedFolder n]) s
    rw [user_ofPaths_slashedFolder] at huser hafter
    obtain ⟨hone, hall⟩ := sweepAll_singleton none ⟨slashedFolder n, .user⟩ s.disk
    exact ⟨huser.trans hone, hafter.trans hall⟩
  refine ⟨?_, by decide +kernel, ?_, ?_, folderAt?_deepFolder, fits_deepEntries, ?_⟩
  · rw [hscan _ _ sound_twoLinks]
    decide +kernel
  · rw [hscan _ _ sound_crossing]
    decide +kernel
  · have hfolder : twoLinks.folderAt? (slashedFolder 4093) = some (["d"], twoLinkEntries) :=
      folderAt?_slashedFolder (by decide) rfl
    have hdisk : twoLinksStation.disk = twoLinks := rfl
    have hrun := Sweep.run_of_not_fits sound_twoLinks (isUserRoot_slashedFolder 4093) hfolder
      not_fits_twoLinkEntries
    rw [scan, (Scanner.totals_ofCatalog none (hsystem _) Scanner.defaultEvery .nan _ {}).2,
      user_ofPaths_slashedFolder, (hclean 4093 twoLinksStation).2, hdisk, hrun, List.map_singleton,
      List.sum_singleton, length_scanned_twoLinks]
  · have hdisk : deepStation.disk = deepFolder := rfl
    have hconcealed : concealedBytes (.folder deepEntries) = 3 := by decide
    rw [(hclean 4090 deepStation).1, hdisk, Sweep.add, run_deepFolder.1, hconcealed]
    exact Nat.lt_add_left _ (by decide)

end Cleaner

end Reclaim
