import Reclaim.Proofs.Safety.Roots

/-!
# What every catalog is like

A catalog is built from an empty one, or from that of the directories every user has, by taking up
one directory after the other.  Each is taken up unless it is unsafe or known, so a catalog is
described by what was offered: of the directories that were accepted, those that come first in their
spelling, in the order in which they came.  The directories that every user has never went through
the check, but they pass it, because they lie at least two names below the home directory.

## Main definitions

* `Catalog.part` : the directories of one tier.
* `Catalog.admitted` : what is taken up of the directories that are offered.
* `Catalog.Sound` : what is so of all directories of a catalog.
* `Catalog.BuiltFrom` : what is so of a catalog with regard to the directories that were offered.

## Main results

* `Catalog.part_foldl_push` : what taking up directories makes of a tier.
* `Catalog.Sound.push`, `Catalog.sound_standard` : catalogs are sound.
* `Catalog.isUserRoot_of_mem_ofRoots`, `Catalog.system_ofRoots` : the two tiers of a catalog that is
  built from a list.
* `Catalog.Sound.ofRoots_toList` : a catalog is what is built from its own directories.
* `Catalog.builtFrom_foldl_push` : what every catalog is like.
-/

namespace Reclaim

namespace ReclaimRoot

variable {r r' : ReclaimRoot}

theorem same_iff : r.same r' = true ↔
    r.path.components = r'.path.components ∧ r.tier = r'.tier := by
  simp [same, Path.same]

theorem same_self (r : ReclaimRoot) : r.same r = true :=
  same_iff.mpr ⟨rfl, rfl⟩

theorem same_comm (r r' : ReclaimRoot) : r.same r' = r'.same r := by
  rw [Bool.eq_iff_iff, same_iff, same_iff, eq_comm, @eq_comm _ r.tier]

theorem same_eq_false_iff (h : r.tier = r'.tier) :
    r.same r' = false ↔ r.path.components ≠ r'.path.components := by
  rw [Bool.eq_false_iff, Ne, same_iff, and_iff_left h]

end ReclaimRoot

namespace Catalog

variable {home : Option Path} {c c' : Catalog} {t : Tier} {r : ReclaimRoot}

/-- The directories of one tier. -/
def part (c : Catalog) : Tier → List ReclaimRoot
  | .user => c.user
  | .system => c.system

theorem toList_eq (c : Catalog) : c.toList = c.part .user ++ c.part .system :=
  rfl

theorem eq_of_part (h : ∀ t, c.part t = c'.part t) : c = c' := by
  obtain ⟨user, system⟩ := c
  obtain ⟨user', system'⟩ := c'
  obtain rfl : user = user' := h .user
  obtain rfl : system = system' := h .system
  rfl

/-! ### What is taken up -/

/-- What is taken up of some directories that are offered to a tier: those of the tier that are
accepted and not yet known, each where it comes first. -/
def admitted (home : Option Path) (t : Tier) (known roots : List ReclaimRoot) :
    List ReclaimRoot :=
  (roots.filter fun r => r.tier == t && accepts home r && !known.any (·.same r)).eraseDupsBy
    ReclaimRoot.same

theorem part_push (home : Option Path) (c : Catalog) (r : ReclaimRoot) (t : Tier) :
    (push home c r).part t =
      if r.tier == t && accepts home r then addNew (c.part t) r else c.part t := by
  cases haccepts : accepts home r with
  | false => simp [push, haccepts]
  | true => cases htier : r.tier <;> cases t <;> simp [push, haccepts, htier, part]

/-- A tier stays as it is, or a directory that is accepted and new comes to its end. -/
theorem part_push_cases (home : Option Path) (c : Catalog) (r : ReclaimRoot) (t : Tier) :
    (push home c r).part t = c.part t ∨
      (push home c r).part t = c.part t ++ [r] ∧ r.tier = t ∧ accepts home r = true ∧
        ∀ r' ∈ c.part t, r'.same r = false := by
  rw [part_push, addNew]
  split
  next hoffered =>
    rw [Bool.and_eq_true, beq_iff_eq] at hoffered
    split
    next => exact .inl rfl
    next hfresh => exact .inr ⟨rfl, hoffered.1, hoffered.2, by simpa using hfresh⟩
  next => exact .inl rfl

/-- Taking up one directory after the other keeps the first of those that are the same. -/
theorem foldl_addNew (roots known : List ReclaimRoot) :
    roots.foldl addNew known =
      known ++ (roots.filter fun r => !known.any (·.same r)).eraseDupsBy ReclaimRoot.same := by
  induction roots generalizing known with
  | nil => simp
  | cons r roots ih =>
    rw [List.foldl_cons, ih, addNew]
    by_cases hknown : known.any (·.same r) = true
    · rw [if_pos hknown, List.filter_cons_of_neg (by simp [hknown])]
    · rw [if_neg hknown, List.filter_cons_of_pos (by simp [hknown]), List.eraseDupsBy_cons,
        List.filter_filter, List.append_assoc, List.singleton_append]
      simp [Bool.and_comm, ReclaimRoot.same_comm r]

theorem part_foldl_push (home : Option Path) (roots : List ReclaimRoot) (c : Catalog) (t : Tier) :
    (roots.foldl (push home) c).part t = c.part t ++ admitted home t (c.part t) roots := by
  have hfold : (roots.foldl (push home) c).part t =
      (roots.filter fun r => r.tier == t && accepts home r).foldl addNew (c.part t) := by
    induction roots generalizing c with
    | nil => rfl
    | cons r roots ih =>
      rw [List.foldl_cons, ih, part_push, List.filter_cons]
      split <;> rfl
  rw [hfold, foldl_addNew, admitted, List.filter_filter]
  simp only [Bool.and_comm]

theorem admitted_eq_nil {known roots : List ReclaimRoot} (h : ∀ r ∈ roots, r.tier ≠ t) :
    admitted home t known roots = [] := by
  rw [admitted, List.filter_eq_nil_iff.mpr fun r hr => by simp [h r hr]]
  rfl

/-- A catalog of directories of the user has none of the system. -/
theorem system_ofRoots (home : Option Path) {roots : List ReclaimRoot}
    (h : ∀ r ∈ roots, r.tier = .user) : (ofRoots home roots).system = [] := by
  have hpart := part_foldl_push home roots {} .system
  rw [admitted_eq_nil fun r hr => by simp [h r hr]] at hpart
  exact hpart

/-! ### Soundness -/

/-- What is so of all directories of a catalog: they pass the check of their tier, and no tier has a
directory twice, however it is spelled. -/
structure Sound (home : Option Path) (c : Catalog) : Prop where
  user : ∀ r ∈ c.user, r.tier = .user ∧ Safety.isUserRoot home r.path = true
  system : ∀ r ∈ c.system, r.tier = .system ∧
    ∃ root ∈ Safety.systemRoots, r.path.components = (Path.mk root).components
  once : ∀ t, (c.part t).Pairwise fun r r' => r.path.components ≠ r'.path.components

theorem isSystemRoot_iff {p : Path} : Safety.isSystemRoot p = true ↔
    ∃ root ∈ Safety.systemRoots, p.components = (Path.mk root).components := by
  simp [Safety.isSystemRoot, Path.same]

theorem sound_iff : c.Sound home ↔
    (∀ t, ∀ r ∈ c.part t, r.tier = t ∧ accepts home r = true) ∧
      ∀ t, (c.part t).Pairwise fun r r' => r.path.components ≠ r'.path.components := by
  constructor
  · rintro ⟨huser, hsystem, honce⟩
    refine ⟨fun t r hr => ?_, honce⟩
    cases t with
    | user =>
      obtain ⟨htier, hroot⟩ := huser r hr
      exact ⟨htier, by rw [accepts, htier, hroot]⟩
    | system =>
      obtain ⟨htier, hroot⟩ := hsystem r hr
      exact ⟨htier, by rw [accepts, htier, isSystemRoot_iff.mpr hroot]⟩
  · rintro ⟨haccepted, honce⟩
    refine ⟨fun r hr => ?_, fun r hr => ?_, honce⟩
    · obtain ⟨htier, haccepts⟩ := haccepted .user r hr
      rw [accepts, htier] at haccepts
      exact ⟨htier, haccepts⟩
    · obtain ⟨htier, haccepts⟩ := haccepted .system r hr
      rw [accepts, htier] at haccepts
      exact ⟨htier, isSystemRoot_iff.mp haccepts⟩

theorem sound_empty (home : Option Path) : Sound home {} := by
  refine sound_iff.mpr ⟨fun t r hr => ?_, fun t => ?_⟩
  · cases t <;> cases hr
  · cases t <;> exact .nil

/-- Taking up a directory keeps a catalog sound. -/
theorem Sound.push (h : c.Sound home) (r : ReclaimRoot) : (c.push home r).Sound home := by
  obtain ⟨haccepted, honce⟩ := sound_iff.mp h
  refine sound_iff.mpr ⟨fun t r' hr' => ?_, fun t => ?_⟩
  · rcases part_push_cases home c r t with hpart | ⟨hpart, htier, haccepts, -⟩
    · exact haccepted t r' (hpart ▸ hr')
    · rw [hpart, List.mem_append, List.mem_singleton] at hr'
      rcases hr' with hr' | rfl
      · exact haccepted t r' hr'
      · exact ⟨htier, haccepts⟩
  · rcases part_push_cases home c r t with hpart | ⟨hpart, htier, -, hfresh⟩
    · rw [hpart]
      exact honce t
    · rw [hpart, List.pairwise_append]
      refine ⟨honce t, List.pairwise_singleton _ _, fun r' hr' r'' hr'' => ?_⟩
      cases List.mem_singleton.mp hr''
      have hsame := (haccepted t r' hr').1.trans htier.symm
      exact (ReclaimRoot.same_eq_false_iff hsame).mp (hfresh r' hr')

theorem Sound.foldl_push (h : c.Sound home) (roots : List ReclaimRoot) :
    (roots.foldl (Catalog.push home) c).Sound home := by
  induction roots generalizing c with
  | nil => exact h
  | cons r roots ih => exact ih (h.push r)

/-- Every directory of the user in a catalog that is built by taking up directories may be
emptied. -/
theorem isUserRoot_of_mem_ofRoots {roots : List ReclaimRoot}
    (h : r ∈ (ofRoots home roots).user) : Safety.isUserRoot home r.path = true :=
  (((sound_empty home).foldl_push roots).user r h).2

/-! ### The directories that every user has -/

/-- The standard directories are named below the library by plain names. -/
theorem libraryPaths_plain : ∀ rel ∈ libraryPaths, ¬(Path.mk rel).isAbsolute = true ∧
    (Path.mk rel).pieces.head? ≠ some "." ∧ (Path.mk rel).components ≠ [] ∧
    ∀ c ∈ (Path.mk rel).components, c ≠ .here ∧ c ≠ .up := by
  decide +kernel

theorem components_library (home : Path) {rel : String} (h : rel ∈ libraryPaths) :
    ((home.child "Library").child rel).components =
      home.components ++ .name "Library" :: (Path.mk rel).components := by
  obtain ⟨hrelative, hdot, -, -⟩ := libraryPaths_plain rel h
  have hname : IsName "Library" := Safety.isName_of_mem_protectedHomeNames (by decide)
  have hanchor : (Path.mk rel).anchor = [] := by simp [Path.anchor, hrelative, hdot]
  have hrel : (Path.mk rel).components =
      (Path.mk rel).pieces.filterMap Component.ofPiece? := by
    rw [Path.components, hanchor, List.nil_append]
  rw [Path.components_child _ hrelative hdot, Path.components_child_name home hname, hrel,
    List.append_assoc]
  rfl

theorem here_notMem_components {p : Path} (h : p.isAbsolute = true) : .here ∉ p.components := by
  rw [Path.components_eq_steps h, List.mem_cons, List.mem_filterMap]
  rintro (hroot | ⟨step, -, hstep⟩)
  · cases hroot
  · cases step <;> cases hstep

/-- The standard directories of a user pass the check.  They are too far below the home directory to
be protected or to hold it. -/
theorem isUserRoot_library {home : Path} (habsolute : home.isAbsolute = true)
    (hup : .up ∉ home.components) {rel : String} (h : rel ∈ libraryPaths) :
    Safety.isUserRoot (some home) ((home.child "Library").child rel) = true := by
  have hcomponents := components_library home h
  obtain ⟨-, -, hne, hplain⟩ := libraryPaths_plain rel h
  obtain ⟨steps, hhome⟩ := Safety.exists_components_of_isAbsolute habsolute
  have hlength : home.components.length + 2 ≤
      ((home.child "Library").child rel).components.length := by
    have hpos := List.length_pos_iff.mpr hne
    rw [hcomponents, List.length_append, List.length_cons]
    omega
  refine Safety.isUserRoot_iff.mpr ⟨?_, ?_, ?_, ?_⟩
  · rw [hhome] at hcomponents
    exact Path.isAbsolute_of_components hcomponents
  · rw [Bool.eq_false_iff, Ne, Safety.isProtected_iff]
    rintro ⟨q, hq, hsame⟩
    rw [hsame] at hlength
    rcases List.mem_append.mp hq with hfixed | hhome'
    · rw [hhome, List.length_cons] at hlength
      rcases Safety.components_protectedPaths hfixed with hq | ⟨name, hq⟩ <;>
      · simp only [hq, List.length_cons, List.length_nil] at hlength
        omega
    · rcases List.mem_cons.mp hhome' with rfl | hbelow
      · omega
      · obtain ⟨name, hname, rfl⟩ := List.mem_map.mp hbelow
        rw [Path.components_child_name home (Safety.isName_of_mem_protectedHomeNames hname),
          List.length_append, List.length_singleton] at hlength
        omega
  · intro c hc
    rw [hcomponents, List.mem_append, List.mem_cons] at hc
    rcases hc with hc | rfl | hc
    · exact ⟨fun hhere => here_notMem_components habsolute (hhere ▸ hc), fun hc' => hup (hc' ▸ hc)⟩
    · simp
    · exact hplain c hc
  · rintro _ ⟨⟩ hprefix
    have hle := hprefix.length_le
    omega

/-- The catalog of the directories that every user has is sound, although it was not checked. -/
theorem sound_standard {home : Path} (habsolute : home.isAbsolute = true)
    (hup : .up ∉ home.components) : Sound (some home) (standard home) where
  user r hr := by
    obtain ⟨rel, hrel, rfl⟩ := List.mem_map.mp hr
    exact ⟨rfl, isUserRoot_library habsolute hup hrel⟩
  system r hr := by
    obtain ⟨root, hroot, rfl⟩ := List.mem_map.mp hr
    exact ⟨rfl, root, hroot, rfl⟩
  once t := by
    cases t with
    | user =>
      have hall : libraryPaths.Pairwise fun rel rel' =>
          (Path.mk rel).components ≠ (Path.mk rel').components := by decide +kernel
      refine List.pairwise_map.mpr (hall.imp_of_mem fun hrel hrel' hne hsame => hne ?_)
      rw [components_library home hrel, components_library home hrel'] at hsame
      exact (List.cons.inj (List.append_cancel_left hsame)).2
    | system =>
      have hall : Safety.systemRoots.Pairwise fun root root' =>
          (Path.mk root).components ≠ (Path.mk root').components := by decide +kernel
      exact List.pairwise_map.mpr hall

/-! ### Taking up the same again -/

/-- An accepted directory is known to a catalog, in whatever spelling. -/
def Knows (home : Option Path) (c : Catalog) (r : ReclaimRoot) : Prop :=
  accepts home r = true → (c.part r.tier).any (·.same r) = true

theorem push_eq_self (h : c.Knows home r) : push home c r = c := by
  refine eq_of_part fun t => ?_
  rw [part_push]
  split
  next hoffered =>
    rw [Bool.and_eq_true, beq_iff_eq] at hoffered
    obtain ⟨rfl, haccepts⟩ := hoffered
    rw [addNew, if_pos (h haccepts)]
  next => rfl

theorem knows_push (home : Option Path) (c : Catalog) (r : ReclaimRoot) :
    (push home c r).Knows home r := by
  intro haccepts
  rw [part_push, if_pos (by simp [haccepts]), addNew]
  split
  next hknown => exact hknown
  next => simp [ReclaimRoot.same_self]

theorem Knows.push (h : c.Knows home r) (r' : ReclaimRoot) : (c.push home r').Knows home r := by
  intro haccepts
  rcases part_push_cases home c r' r.tier with hpart | ⟨hpart, -⟩
  · rw [hpart, h haccepts]
  · rw [hpart, List.any_append, h haccepts, Bool.true_or]

theorem knows_foldl_push (c : Catalog) {roots : List ReclaimRoot} (hr : r ∈ roots) :
    (roots.foldl (Catalog.push home) c).Knows home r := by
  have hkeeps : ∀ (roots : List ReclaimRoot) (c : Catalog), c.Knows home r →
      (roots.foldl (Catalog.push home) c).Knows home r := by
    intro roots
    induction roots with
    | nil => exact fun c h => h
    | cons r' roots ih => exact fun c h => ih _ (h.push r')
  obtain ⟨front, back, rfl⟩ := List.append_of_mem hr
  rw [List.foldl_append, List.foldl_cons]
  exact hkeeps back _ (knows_push home _ r)

/-! ### Building a catalog again -/

theorem eraseDupsBy_eq_self {α : Type} {same : α → α → Bool} {l : List α}
    (h : l.Pairwise fun a b => same b a = false) : l.eraseDupsBy same = l := by
  induction l with
  | nil => rfl
  | cons a l ih =>
    obtain ⟨hhead, htail⟩ := List.pairwise_cons.mp h
    rw [List.eraseDupsBy_cons, List.filter_eq_self.mpr (by simpa using hhead), ih htail]

/-- The directories of a tier are those that are listed with its tag. -/
theorem Sound.filter_toList (h : c.Sound home) (t : Tier) :
    (c.toList.filter fun r => r.tier == t) = c.part t := by
  obtain ⟨haccepted, -⟩ := sound_iff.mp h
  have hown : ∀ t, ((c.part t).filter fun r => r.tier == t) = c.part t := fun t =>
    List.filter_eq_self.mpr fun r hr => by simp [haccepted t r hr]
  have hother : ∀ t t', t' ≠ t → ((c.part t').filter fun r => r.tier == t) = [] :=
    fun t t' hne => List.filter_eq_nil_iff.mpr fun r hr => by simp [haccepted t' r hr, hne]
  rw [toList_eq, List.filter_append]
  cases t with
  | user => rw [hown, hother .user .system (by simp), List.append_nil]
  | system => rw [hown, hother .system .user (by simp), List.nil_append]

/-- A catalog is what is built from its own directories. -/
theorem Sound.ofRoots_toList (h : c.Sound home) : ofRoots home c.toList = c := by
  obtain ⟨haccepted, honce⟩ := sound_iff.mp h
  refine eq_of_part fun t => ?_
  have hoffered : (c.toList.filter fun r => r.tier == t && accepts home r) = c.part t := by
    have hall : (c.part t).filter (accepts home) = c.part t :=
      List.filter_eq_self.mpr fun r hr => (haccepted t r hr).2
    rw [← h.filter_toList t, List.filter_filter] at hall
    simpa only [Bool.and_comm, h.filter_toList t] using hall
  have hdistinct : (c.part t).Pairwise fun r r' => r'.same r = false := by
    refine (honce t).imp_of_mem fun {r r'} hr hr' hne => ?_
    have htier := (haccepted t r hr).1.trans (haccepted t r' hr').1.symm
    rw [ReclaimRoot.same_comm, ReclaimRoot.same_eq_false_iff htier]
    exact hne
  have hempty : part {} t = [] := by cases t <;> rfl
  rw [ofRoots, part_foldl_push, hempty, List.nil_append, admitted]
  simp only [List.any_nil, Bool.not_false, Bool.and_true]
  rw [hoffered, eraseDupsBy_eq_self hdistinct]

/-- No directory of the user comes after one of the system. -/
theorem Sound.pairwise_toList (h : c.Sound home) :
    c.toList.Pairwise fun r r' => r.tier = .system → r'.tier = .system := by
  have huser : ∀ r ∈ c.user, r.tier ≠ .system := fun r hr => by simp [(h.user r hr).1]
  refine List.pairwise_append.mpr ⟨?_, ?_, ?_⟩
  · exact (h.once .user).imp_of_mem fun hr _ _ hsystem => absurd hsystem (huser _ hr)
  · exact (h.once .system).imp_of_mem fun _ hr' _ _ => (h.system _ hr').1
  · exact fun r hr r' _ hsystem => absurd hsystem (huser r hr)

/-! ### Every catalog -/

/-- What is so of a catalog `c` that was built from another one by taking up some directories one
after the other. -/
structure BuiltFrom (home : Option Path) (start : Catalog) (roots : List ReclaimRoot)
    (c : Catalog) : Prop where
  sound : c.Sound home
  /-- Behind what was there stands what was accepted and new, in the order of its first spelling. -/
  part_eq : ∀ t, c.part t = start.part t ++ admitted home t (start.part t) roots
  /-- All directories are listed, those of the user first. -/
  listed : ∀ t, (c.toList.filter fun r => r.tier == t) = c.part t
  ordered : c.toList.Pairwise fun r r' => r.tier = .system → r'.tier = .system
  /-- What has been offered once is offered in vain. -/
  again : ∀ r ∈ roots, push home c r = c
  /-- So is any other directory, when it is offered twice. -/
  twice : ∀ r, push home (push home c r) r = push home c r
  rebuilt : ofRoots home c.toList = c

theorem Sound.builtFrom {start : Catalog} (h : start.Sound home) (roots : List ReclaimRoot) :
    BuiltFrom home start roots (roots.foldl (Catalog.push home) start) where
  sound := h.foldl_push roots
  part_eq := part_foldl_push home roots start
  listed := (h.foldl_push roots).filter_toList
  ordered := (h.foldl_push roots).pairwise_toList
  again _ hr := push_eq_self (knows_foldl_push start hr)
  twice r := push_eq_self (knows_push home _ r)
  rebuilt := (h.foldl_push roots).ofRoots_toList

/-- **What every catalog is like.** Let the home directory be absolute and written without steps up.
Every catalog that is built by taking up any directories in any spelling, from an empty catalog or
from that of the directories every user has, is sound, has the directories of the user in front, and
holds what was accepted once, in the order and the spelling in which it came first; it does not
change when something is offered again, and is what is built from its own directories.  The catalog
with any extras is one of these: its directories of the user are the six that every user has and
behind them what is accepted and new of the extras, with `~` read as the home directory, and its
directories of the system are always the same two. -/
theorem builtFrom_foldl_push {home : Path} (habsolute : home.isAbsolute = true)
    (hup : .up ∉ home.components) {start : Catalog} (hstart : start = {} ∨ start = standard home)
    (roots : List ReclaimRoot) (extras : List Path) :
    BuiltFrom (some home) start roots (roots.foldl (Catalog.push (some home)) start) ∧
      let offered : List ReclaimRoot := extras.map fun extra => ⟨expandHome home extra, .user⟩
      BuiltFrom (some home) (standard home) offered (forUser (some home) extras) ∧
        (forUser (some home) extras).user =
          (libraryPaths.map fun rel => ⟨(home.child "Library").child rel, .user⟩) ++
            admitted (some home) .user (standard home).user offered ∧
        (forUser (some home) extras).system =
          [⟨⟨"/Library/Caches"⟩, .system⟩, ⟨⟨"/Library/Logs"⟩, .system⟩] := by
  have hstandard := sound_standard habsolute hup
  have hsound : start.Sound (some home) := by
    rcases hstart with rfl | rfl
    · exact sound_empty _
    · exact hstandard
  refine ⟨hsound.builtFrom roots, ?_⟩
  intro offered
  have hforUser : forUser (some home) extras =
      offered.foldl (Catalog.push (some home)) (standard home) := by
    rw [forUser, List.foldl_map]
    rfl
  have hbuilt : BuiltFrom (some home) (standard home) offered (forUser (some home) extras) :=
    hforUser ▸ hstandard.builtFrom offered
  refine ⟨hbuilt, hbuilt.part_eq .user, ?_⟩
  have hsystem := hbuilt.part_eq .system
  rw [admitted_eq_nil (by simp [offered]), List.append_nil] at hsystem
  exact hsystem

/-- Two spellings of one directory, a protected one, and one of the system. -/
def variousRoots : List ReclaimRoot :=
  [⟨⟨"/tmp/a"⟩, .user⟩, ⟨⟨"/tmp/./a//"⟩, .user⟩, ⟨⟨"/h/Documents"⟩, .user⟩,
    ⟨⟨"/Library/Logs"⟩, .system⟩]

/-- They are taken up into an empty catalog. -/
theorem builtFrom_foldl_push_various :
    let c := variousRoots.foldl (push (some ⟨"/h"⟩)) {}
    BuiltFrom (some ⟨"/h"⟩) {} variousRoots c ∧
      c = ⟨[⟨⟨"/tmp/a"⟩, .user⟩], [⟨⟨"/Library/Logs"⟩, .system⟩]⟩ :=
  ⟨(@builtFrom_foldl_push ⟨"/h"⟩ (by decide) (by decide) {} (.inl rfl) variousRoots []).1,
    by decide +kernel⟩

end Catalog

end Reclaim
