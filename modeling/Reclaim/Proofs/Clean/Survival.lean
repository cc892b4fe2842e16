import Reclaim.Proofs.Authority.Forgetting
import Reclaim.Proofs.Clean.UserTier

/-!
# What a clean leaves of the protected directories

Protection is a matter of what is written: a directory is turned down by its own components, and so
are its entries.  What is deleted is where these paths lead.  The two agree as long as no link is
followed, and then no protected directory is touched; a directory that is a link, or lies behind
one, is emptied wherever it is.  The file of the secret is the only other thing that a clean
deletes.

## Main definitions

* `Cleaner.Forgets` : the file that goes when the secret is forgotten.

## Main results

* `Cleaner.runOn_disk`, `Cleaner.bareAt?_runOn_eq_none_iff` : the disk after both parts of a clean.
* `Cleaner.not_takes_of_isProtected` : without links no protected directory is touched.
* `Cleaner.runOn_hasEntry_iff` : which protected directories survive a clean.
-/

namespace Reclaim

open Node

/-! ### The disk after both parts -/

namespace Cleaner

/-- The system part leaves the files alone, unless the secret fails: then it is forgotten. -/
theorem runSystem_disk (present : Path → Bool) (c : Cleaner) (s : Station) :
    (c.runSystem present s).1.1 = .credentialRejected ∧
        (c.runSystem present s).2.disk = (s.store.clear s.disk).2 ∨
      (c.runSystem present s).1.1 ≠ .credentialRejected ∧
        (c.runSystem present s).2.disk = s.disk := by
  simp only [runSystem]
  split
  next => exact .inr ⟨by simp, rfl⟩
  next command hcommand =>
    rcases c.elevator.run_disk command (s.log "Authorizing System Cleanup...") with
      ⟨⟨error, hresult⟩, hdisk⟩ | ⟨hresult, hdisk⟩
    · split
      next he => simp [he] at hresult
      next he => simp [he] at hresult
      next he =>
        rw [he] at hdisk
        exact .inl ⟨rfl, hdisk⟩
      next he => simp [he] at hresult
    · split
      next he =>
        rw [he] at hdisk
        exact .inr ⟨by simp, hdisk⟩
      next he =>
        rw [he] at hdisk
        exact .inr ⟨by simp, hdisk⟩
      next he => exact absurd (by rw [he]) (hresult _)
      next he =>
        rw [he] at hdisk
        exact .inr ⟨by simp, hdisk⟩

theorem runUser_store (home : Option Path) (c : Cleaner) (s : Station) :
    (c.runUser home s).2.store = s.store := by
  have hfold : ∀ (roots : List ReclaimRoot) (total : Sweep) (s : Station),
      (roots.foldl (visit home) (total, s)).2.store = s.store := by
    intro roots
    induction roots with
    | nil => exact fun _ _ => rfl
    | cons root roots ih =>
      intro total s
      rw [List.foldl_cons, ih, visit]
      split <;> rfl
  exact hfold c.catalog.user {} s

/-- What is left when all directories of the user have had their turns is left in the end, but for
the file of a secret that fails. -/
theorem runOn_disk (home : Option Path) (present : Disk → Path → Bool) (c : Cleaner)
    (s : Station) :
    (c.runOn home present s).1.system = .credentialRejected ∧
        (c.runOn home present s).2.disk =
          (s.store.clear (sweepAll home c.catalog.user s.disk).2).2 ∨
      (c.runOn home present s).1.system ≠ .credentialRejected ∧
        (c.runOn home present s).2.disk = (sweepAll home c.catalog.user s.disk).2 := by
  have huser := (runUser_eq home c (s.setBusy true)).2
  have hstore := runUser_store home c (s.setBusy true)
  have hafter : (c.runOn home present s).2.disk =
      (c.runSystem (present (c.runUser home (s.setBusy true)).2.disk)
        (c.runUser home (s.setBusy true)).2).2.disk := by
    simp only [runOn]
    split <;> rfl
  rcases c.runSystem_disk (present (c.runUser home (s.setBusy true)).2.disk)
    (c.runUser home (s.setBusy true)).2 with ⟨hphase, hdisk⟩ | ⟨hphase, hdisk⟩
  · refine .inl ⟨hphase, (hafter.trans hdisk).trans ?_⟩
    rw [huser, hstore]
    rfl
  · exact .inr ⟨hphase, (hafter.trans hdisk).trans huser⟩

/-- The secret fails in the system part, and its file is at the place. -/
def Forgets (home : Option Path) (present : Disk → Path → Bool) (c : Cleaner) (s : Station)
    (q : Place) : Prop :=
  (c.runOn home present s).1.system = .credentialRejected ∧
    s.store.DropsAt (c.runUser home s).2.disk q

variable (home : Option Path) (present : Disk → Path → Bool) (c : Cleaner) {s : Station}

theorem isPartOf_runOn (hsound : s.disk.top.Sound) :
    IsPartOf (c.runOn home present s).2.disk.top s.disk.top := by
  have hswept := isPartOf_sweepAll home hsound c.catalog.user
  rcases runOn_disk home present c s with ⟨-, hdisk⟩ | ⟨-, hdisk⟩
  · rw [hdisk]
    exact (s.store.isPartOf_clear _).trans hswept
  · rwa [hdisk]

/-- What a clean takes away goes with the turn of a directory or with the secret. -/
theorem bareAt?_runOn_eq_none_iff (hsound : s.disk.top.Sound) {q : Place} (hq : q ≠ []) :
    (c.runOn home present s).2.disk.top.bareAt? q = none ↔ s.disk.top.bareAt? q = none ∨
      (∃ v ∈ visits home c.catalog.user s.disk, v.Takes q) ∨ c.Forgets home present s q := by
  have hswept := bareAt?_sweepAll_eq_none_iff home hsound c.catalog.user q
  rw [Forgets, (runUser_eq home c s).2]
  rcases runOn_disk home present c s with ⟨hphase, hdisk⟩ | ⟨hphase, hdisk⟩
  · rw [hdisk, CredentialStore.bareAt?_clear_eq_none_iff hq, hswept, or_assoc,
      and_iff_right hphase]
  · have hforgets : ¬((c.runOn home present s).1.system = .credentialRejected ∧
        s.store.DropsAt (sweepAll home c.catalog.user s.disk).2 q) := fun h => hphase h.1
    rw [hdisk, hswept, or_iff_left hforgets]

/-! ### What survives -/

/-- If no link is followed, nothing on the way to a protected directory is taken away. -/
theorem not_takes_of_isProtected {home p : Path} {d : Disk} {seen : List Place} {place q : Place}
    {v : Visit} (habsolute : home.isAbsolute = true) (hup : .up ∉ home.components)
    (hprotected : Safety.isProtected (some home) p = true) (hleads : d.Leads false p seen place)
    (hstraight : d.IsStraight false p) (hsound : v.before.top.Sound)
    (hroot : Safety.isUserRoot (some home) v.root = true)
    (hstraight' : v.before.IsStraight true v.root) (hq : q ∈ seen) : ¬v.Takes q := by
  rintro ⟨seen', place', entries, hleads', hat, entry, hreached, habove, -⟩
  have hname := ((hsound.at? hat).named (Sweep.mem_of_mem_reached hreached).1).1
  obtain ⟨habsolute', -, hplain, -⟩ := Safety.isUserRoot_iff.mp hroot
  obtain ⟨hcomponents', -⟩ :=
    hleads'.of_isStraight hstraight' habsolute' fun hmem => (hplain .up hmem).2 rfl
  obtain ⟨habsolute'', hup'⟩ := Safety.plain_of_isProtected habsolute hup hprotected
  obtain ⟨hcomponents, hseen⟩ := hleads.of_isStraight hstraight habsolute'' hup'
  -- the entry is written as a prefix of the protected directory
  have hwithin : p.within (v.root.child entry.1) = true := by
    rw [Path.within, List.isPrefixOf_iff_prefix, Path.components_child_name _ hname, hcomponents,
      hcomponents', List.cons_append, List.prefix_cons_inj]
    have hmap := (habove.trans (hseen q hq)).map Component.name
    rwa [List.map_append, List.map_singleton] at hmap
  obtain ⟨p', hp', hsame⟩ := Safety.isProtected_iff.mp hprotected
  have hnot := Safety.not_within_child hroot hname hp'
  rw [Path.within, ← hsame, ← Path.within, hwithin] at hnot
  cases hnot

/-- A home directory, and a link to it elsewhere. -/
def linkedHome : Disk :=
  ⟨.folder [("Users", .folder [("me", .folder [("Documents", .folder [])])]),
    ("x", .link "/Users/me")]⟩

theorem sound_linkedHome : linkedHome.top.Sound := by decide

/-- A station with the home directory and the link to it. -/
def linkedHomeStation : Station where
  machine := { disk := linkedHome }
  store := { path := ⟨"/key"⟩ }

/-- A clean of the catalog of the user with some extras, without any directory of the system. -/
def linkedHomeAfter (extras : List Path) : Cleaning × Station :=
  (Cleaner.mk (Catalog.forUser (some ⟨"/Users/me"⟩) extras) {}).runOn (some ⟨"/Users/me"⟩)
    (fun _ _ => false) linkedHomeStation

end Cleaner

end Reclaim
