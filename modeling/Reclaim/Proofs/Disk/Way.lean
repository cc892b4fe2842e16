import Reclaim.Proofs.Disk.Tree

/-!
# The way along a path

Following a path looks at one entry after the other, those behind links included.  The way of a path
records these entries in their order together with the number of links that were followed.  A tree
that is part of another one has no ways of its own, and a way of the larger tree is lost exactly if
one of its entries is gone.

## Main definitions

* `Way` : the entries on the way along some steps, and where it ends.
* `Disk.Goes` : how the way along a path goes on from a folder.

## Main results

* `Disk.resolve_of_way`, `Disk.exists_way_of_resolve` : ways are what resolving a path finds.
* `Way.unique` : there is at most one way.
* `Way.of_isPartOf`, `Way.mono` : ways in a part of a tree.
* `Way.child` : the way to an entry of the folder at the end of a way.
* `Way.exists_unfollowed` : the way if a link at its end is not followed.
* `Way.of_no_links` : where a way without links ends.
-/

namespace Reclaim

open Node

/-- Where the steps behind a link are counted from: the top, or the folder that the link is in. -/
def linkStart (place : Place) (target : String) : Place :=
  if (Path.mk target).isAbsolute then [] else place

/-- The entries on the way along some steps from a folder, the number of links among them that are
followed, and where it ends. -/
inductive Way (top : Node) (follow : Bool) :
    Nat → Place → List Step → List Place → Place → Prop
  | done (place : Place) : Way top follow 0 place [] [] place
  | here {n place steps seen goal} (folder : bareAt? top place = some (.folder []))
      (rest : Way top follow n place steps seen goal) :
      Way top follow n place (.here :: steps) seen goal
  | up {n place steps seen goal} (folder : bareAt? top place = some (.folder []))
      (rest : Way top follow n place.dropLast steps seen goal) :
      Way top follow n place (.up :: steps) seen goal
  /-- The last name is that of a link, and the link itself is meant. -/
  | stop {place name target} (short : name.utf8ByteSize ≤ Disk.nameLimit)
      (link : bareAt? top (place ++ [name]) = some (.link target)) (ends : follow = false) :
      Way top follow 0 place [.name name] [place ++ [name]] (place ++ [name])
  | jump {n place name target steps seen goal} (short : name.utf8ByteSize ≤ Disk.nameLimit)
      (link : bareAt? top (place ++ [name]) = some (.link target))
      (goesOn : ¬(steps = [] ∧ follow = false)) (written : target ≠ "")
      (rest : Way top follow n (linkStart place target) ((Path.mk target).steps ++ steps) seen
        goal) :
      Way top follow (n + 1) place (.name name :: steps) ((place ++ [name]) :: seen) goal
  | enter {n place name node steps seen goal} (short : name.utf8ByteSize ≤ Disk.nameLimit)
      (entry : bareAt? top (place ++ [name]) = some node) (real : ∀ target, node ≠ .link target)
      (rest : Way top follow n (place ++ [name]) steps seen goal) :
      Way top follow n place (.name name :: steps) ((place ++ [name]) :: seen) goal

/-! ### Ways and resolution -/

namespace Disk

/-- What goes on behind a link when so many links may be followed. -/
def behindLink (top : Node) (follow : Bool) : Nat → Place → List Step → Except Errno Place
  | 0 => fun _ _ => .error .linkLoop
  | links + 1 => resolve top follow links

theorem resolve_eq_walk (top : Node) (follow : Bool) (links : Nat) :
    resolve top follow links = walk top (behindLink top follow links) follow := by
  cases links <;> rfl

variable {top : Node} {follow : Bool} {n links : Nat} {place goal : Place} {steps : List Step}
  {seen : List Place} {entries : List (String × Node)}

theorem exists_lookup_of_bareAt? {name : String} {node : Node}
    (h : bareAt? top (place ++ [name]) = some node) :
    ∃ entries full, at? place top = some (.folder entries) ∧ entries.lookup name = some full ∧
      full.bare = node := by
  obtain ⟨full, hfull, hbare⟩ := Option.map_eq_some_iff.mp h
  obtain ⟨entries, hentries⟩ := exists_folder_of_at?_append (List.cons_ne_nil name []) hfull
  exact ⟨entries, full, hentries, at?_concat hentries name ▸ hfull, hbare⟩

section

variable {name target : String} {node : Node}

theorem resolve_here (folder : bareAt? top place = some (.folder [])) :
    resolve top follow links place (.here :: steps) = resolve top follow links place steps := by
  obtain ⟨entries, hentries⟩ := bareAt?_eq_folder_iff.mp folder
  rw [resolve_eq_walk]
  simp only [walk, hentries]

theorem resolve_up (folder : bareAt? top place = some (.folder [])) :
    resolve top follow links place (.up :: steps) =
      resolve top follow links place.dropLast steps := by
  obtain ⟨entries, hentries⟩ := bareAt?_eq_folder_iff.mp folder
  rw [resolve_eq_walk]
  simp only [walk, hentries]

theorem resolve_stop (short : name.utf8ByteSize ≤ nameLimit)
    (link : bareAt? top (place ++ [name]) = some (.link target)) (ends : follow = false) :
    resolve top follow links place [.name name] = .ok (place ++ [name]) := by
  obtain ⟨entries, full, hentries, hlookup, hbare⟩ := exists_lookup_of_bareAt? link
  cases full with
  | link target' => simp [resolve_eq_walk, walk, hentries, hlookup, Nat.not_lt.mpr short, ends]
  | file => cases hbare
  | folder => cases hbare

theorem resolve_jump (short : name.utf8ByteSize ≤ nameLimit)
    (link : bareAt? top (place ++ [name]) = some (.link target))
    (goesOn : ¬(steps = [] ∧ follow = false)) (written : target ≠ "") :
    resolve top follow links place (.name name :: steps) =
      behindLink top follow links (linkStart place target) ((Path.mk target).steps ++ steps) := by
  obtain ⟨entries, full, hentries, hlookup, hbare⟩ := exists_lookup_of_bareAt? link
  cases full with
  | link target' =>
    cases hbare
    rw [resolve_eq_walk]
    simp only [walk, hentries, hlookup, if_neg (Nat.not_lt.mpr short), if_neg goesOn,
      if_neg written, linkStart]
  | file => cases hbare
  | folder => cases hbare

theorem resolve_enter (short : name.utf8ByteSize ≤ nameLimit)
    (entry : bareAt? top (place ++ [name]) = some node) (real : ∀ target, node ≠ .link target) :
    resolve top follow links place (.name name :: steps) =
      resolve top follow links (place ++ [name]) steps := by
  obtain ⟨entries, full, hentries, hlookup, hbare⟩ := exists_lookup_of_bareAt? entry
  rw [resolve_eq_walk]
  cases full with
  | link target => exact absurd hbare.symm (real target)
  | file => simp only [walk, hentries, hlookup, if_neg (Nat.not_lt.mpr short)]
  | folder => simp only [walk, hentries, hlookup, if_neg (Nat.not_lt.mpr short)]

end

/-- The resolution of a path finds the end of its way. -/
theorem resolve_of_way (h : Way top follow n place steps seen goal) (hlinks : n ≤ links) :
    resolve top follow links place steps = .ok goal := by
  induction h generalizing links with
  | done place => rw [resolve_eq_walk, walk]
  | here folder rest ih =>
    rw [resolve_here folder]
    exact ih hlinks
  | up folder rest ih =>
    rw [resolve_up folder]
    exact ih hlinks
  | stop short link ends => exact resolve_stop short link ends
  | jump short link goesOn written rest ih =>
    obtain ⟨links, rfl⟩ : ∃ l, links = l + 1 := ⟨links - 1, by omega⟩
    rw [resolve_jump short link goesOn written]
    exact ih (Nat.le_of_succ_le_succ hlinks)
  | enter short entry real rest ih =>
    rw [resolve_enter short entry real]
    exact ih hlinks

/-- Along a way with links the resolution stops at the first one if none may be followed. -/
theorem resolve_eq_linkLoop_of_way (h : Way top follow (n + 1) place steps seen goal) :
    resolve top follow 0 place steps = .error .linkLoop := by
  generalize hn : n + 1 = links at h
  induction h with
  | done => cases hn
  | here folder rest ih =>
    rw [resolve_here folder]
    exact ih hn
  | up folder rest ih =>
    rw [resolve_up folder]
    exact ih hn
  | stop => cases hn
  | jump short link goesOn written rest ih =>
    rw [resolve_jump short link goesOn written]
    rfl
  | enter short entry real rest ih =>
    rw [resolve_enter short entry real]
    exact ih hn

section

variable {jump : Place → List Step → Except Errno Place} {step : Step}

/-- How the way along a path goes on from a folder with the given entries. -/
inductive Goes (top : Node) (jump : Place → List Step → Except Errno Place) (follow : Bool)
    (place : Place) (entries : List (String × Node)) (goal : Place) : Step → List Step → Prop
  | here {ahead} (rest : walk top jump follow place ahead = .ok goal) :
      Goes top jump follow place entries goal .here ahead
  | up {ahead} (rest : walk top jump follow place.dropLast ahead = .ok goal) :
      Goes top jump follow place entries goal .up ahead
  | free {name} (short : name.utf8ByteSize ≤ nameLimit) (free : entries.lookup name = none)
      (ends : goal = place ++ [name]) : Goes top jump follow place entries goal (.name name) []
  | stop {name target} (short : name.utf8ByteSize ≤ nameLimit)
      (link : entries.lookup name = some (.link target)) (unfollowed : follow = false)
      (ends : goal = place ++ [name]) : Goes top jump follow place entries goal (.name name) []
  | jump {name target ahead} (short : name.utf8ByteSize ≤ nameLimit)
      (link : entries.lookup name = some (.link target)) (goesOn : ¬(ahead = [] ∧ follow = false))
      (written : target ≠ "")
      (rest : jump (linkStart place target) ((Path.mk target).steps ++ ahead) = .ok goal) :
      Goes top jump follow place entries goal (.name name) ahead
  | enter {name node ahead} (short : name.utf8ByteSize ≤ nameLimit)
      (entry : entries.lookup name = some node) (real : ∀ target, node ≠ .link target)
      (rest : walk top jump follow (place ++ [name]) ahead = .ok goal) :
      Goes top jump follow place entries goal (.name name) ahead

theorem walk_cons_eq_ok_iff : walk top jump follow place (step :: steps) = .ok goal ↔
    ∃ entries, at? place top = some (.folder entries) ∧
      Goes top jump follow place entries goal step steps := by
  constructor
  · intro h
    rw [walk] at h
    split at h
    next entries hentries =>
      refine ⟨entries, hentries, ?_⟩
      cases step with
      | here => exact .here h
      | up => exact .up h
      | name name =>
        simp only at h
        split at h
        next => cases h
        next hlong =>
          have hshort := Nat.not_lt.mp hlong
          split at h
          next hnone =>
            split at h
            next hends =>
              subst hends
              cases h
              exact .free hshort hnone rfl
            next => cases h
          next target hlookup =>
            split at h
            next hends =>
              obtain ⟨rfl, hfollow⟩ := hends
              cases h
              exact .stop hshort hlookup hfollow rfl
            next hgoesOn =>
              split at h
              next => cases h
              next hwritten => exact .jump hshort hlookup hgoesOn hwritten h
          next node hreal hlookup =>
            exact .enter hshort hlookup (fun target htarget => hreal target htarget) h
    next => cases h
  · rintro ⟨entries, hentries, hgoes⟩
    rw [walk, hentries]
    cases hgoes with
    | here rest => exact rest
    | up rest => exact rest
    | free short free ends => simp [Nat.not_lt.mpr short, free, ends]
    | stop short link unfollowed ends => simp [Nat.not_lt.mpr short, link, unfollowed, ends]
    | jump short link goesOn written rest =>
      simp only [if_neg (Nat.not_lt.mpr short), link, if_neg goesOn, if_neg written]
      exact rest
    | enter short entry real rest =>
      simp only [if_neg (Nat.not_lt.mpr short), entry]
      exact rest

end

/-- What a path leads to, if it is there, is the end of its way. -/
theorem exists_way_of_resolve {node : Node} (h : resolve top follow links place steps = .ok goal)
    (hgoal : at? goal top = some node) :
    ∃ n seen, n ≤ links ∧ Way top follow n place steps seen goal := by
  induction links using Nat.strongRecOn generalizing place steps with
  | ind links ihlinks =>
  induction steps generalizing place with
  | nil =>
    rw [resolve_eq_walk, walk] at h
    cases h
    exact ⟨0, [], Nat.zero_le links, .done _⟩
  | cons step steps ih =>
    rw [resolve_eq_walk] at h ih
    obtain ⟨entries, hentries, hgoes⟩ := walk_cons_eq_ok_iff.mp h
    have hfolder := bareAt?_eq_folder_iff.mpr ⟨entries, hentries⟩
    have hbare : ∀ {name : String} {full : Node}, entries.lookup name = some full →
        bareAt? top (place ++ [name]) = some full.bare := by
      intro name full hfull
      rw [bareAt?, at?_concat hentries, hfull]
      rfl
    cases hgoes with
    | here rest =>
      obtain ⟨n, seen, hn, hway⟩ := ih rest
      exact ⟨n, seen, hn, .here hfolder hway⟩
    | up rest =>
      obtain ⟨n, seen, hn, hway⟩ := ih rest
      exact ⟨n, seen, hn, .up hfolder hway⟩
    | free short free ends =>
      -- a free place has no entry
      rw [ends, at?_concat hentries, free] at hgoal
      cases hgoal
    | stop short link unfollowed ends =>
      subst ends
      exact ⟨0, _, Nat.zero_le links, .stop short (hbare link) unfollowed⟩
    | jump short link goesOn written rest =>
      cases links with
      | zero => cases rest
      | succ links =>
        obtain ⟨n, seen, hn, hway⟩ := ihlinks links (Nat.lt_succ_self links) rest
        exact ⟨n + 1, _, Nat.succ_le_succ hn, .jump short (hbare link) goesOn written hway⟩
    | @enter name full ahead short entry real rest =>
      obtain ⟨n, seen, hn, hway⟩ := ih rest
      refine ⟨n, _, hn, .enter short (hbare entry) ?_ hway⟩
      intro target htarget
      cases full with
      | link target' => exact real target' rfl
      | file => cases htarget
      | folder => cases htarget

end Disk

/-! ### Ways and parts of a tree -/

namespace Way

variable {top top' : Node} {follow : Bool} {n n' : Nat} {place goal goal' : Place}
  {steps : List Step} {seen seen' : List Place}

/-- There is at most one way. -/
theorem unique (h : Way top follow n place steps seen goal)
    (h' : Way top follow n' place steps seen' goal') : n = n' ∧ seen = seen' ∧ goal = goal' := by
  induction h generalizing n' seen' goal' with
  | done place =>
    cases h'
    exact ⟨rfl, rfl, rfl⟩
  | here folder rest ih =>
    cases h' with
    | here folder' rest' => exact ih rest'
  | up folder rest ih =>
    cases h' with
    | up folder' rest' => exact ih rest'
  | stop short link ends =>
    cases h' with
    | stop => exact ⟨rfl, rfl, rfl⟩
    | jump short' link' goesOn => exact absurd ⟨rfl, ends⟩ goesOn
    | enter short' entry real => exact absurd (Option.some.inj (entry.symm.trans link)) (real _)
  | jump short link goesOn written rest ih =>
    cases h' with
    | stop short' link' ends => exact absurd ⟨rfl, ends⟩ goesOn
    | jump short' link' goesOn' written' rest' =>
      cases link.symm.trans link'
      obtain ⟨rfl, rfl, rfl⟩ := ih rest'
      exact ⟨rfl, rfl, rfl⟩
    | enter short' entry real => exact absurd (Option.some.inj (entry.symm.trans link)) (real _)
  | enter short entry real rest ih =>
    cases h' with
    | stop short' link => exact absurd (Option.some.inj (entry.symm.trans link)) (real _)
    | jump short' link => exact absurd (Option.some.inj (entry.symm.trans link)) (real _)
    | enter short' entry' real' rest' =>
      obtain ⟨rfl, rfl, rfl⟩ := ih rest'
      exact ⟨rfl, rfl, rfl⟩

/-- Every entry on a way is there. -/
theorem bareAt?_ne_none (h : Way top follow n place steps seen goal) {q : Place} (hq : q ∈ seen) :
    bareAt? top q ≠ none := by
  induction h with
  | done => cases hq
  | here folder rest ih => exact ih hq
  | up folder rest ih => exact ih hq
  | stop short link => simp_all
  | jump short link goesOn written rest ih =>
    rcases List.mem_cons.mp hq with rfl | hq
    · simp [link]
    · exact ih hq
  | enter short entry real rest ih =>
    rcases List.mem_cons.mp hq with rfl | hq
    · simp [entry]
    · exact ih hq

theorem ne_nil_of_mem (h : Way top follow n place steps seen goal) {q : Place} (hq : q ∈ seen) :
    q ≠ [] := by
  induction h with
  | done => cases hq
  | here folder rest ih => exact ih hq
  | up folder rest ih => exact ih hq
  | stop short link => simp_all
  | jump short link goesOn written rest ih =>
    rcases List.mem_cons.mp hq with rfl | hq
    · simp
    · exact ih hq
  | enter short entry real rest ih =>
    rcases List.mem_cons.mp hq with rfl | hq
    · simp
    · exact ih hq

/-- A way through a part of a tree is one through the whole. -/
theorem of_isPartOf (hpart : IsPartOf top' top) (h : Way top' follow n place steps seen goal) :
    Way top follow n place steps seen goal := by
  have hshown : ∀ {q : Place} {node : Node}, bareAt? top' q = some node →
      bareAt? top q = some node := by
    intro q node hq
    rw [← hpart.bareAt?_eq (by simp [hq]), hq]
  induction h with
  | done place => exact .done place
  | here folder rest ih => exact .here (hshown folder) ih
  | up folder rest ih => exact .up (hshown folder) ih
  | stop short link ends => exact .stop short (hshown link) ends
  | jump short link goesOn written rest ih => exact .jump short (hshown link) goesOn written ih
  | enter short entry real rest ih => exact .enter short (hshown entry) real ih

theorem bareAt?_dropLast_ne_none (h : bareAt? top place ≠ none) :
    bareAt? top place.dropLast ≠ none := by
  rcases place.eq_nil_or_concat' with rfl | ⟨front, name, rfl⟩
  · exact h
  · obtain ⟨node, hnode⟩ := Option.ne_none_iff_exists'.mp (mt bareAt?_eq_none_iff.mpr h)
    obtain ⟨entries, hentries⟩ := exists_folder_of_at?_append (List.cons_ne_nil name []) hnode
    rw [List.dropLast_concat, Ne, bareAt?_eq_none_iff, hentries]
    exact Option.some_ne_none _

theorem bareAt?_nil_ne_none (top : Node) : bareAt? top [] ≠ none :=
  Option.some_ne_none _

theorem bareAt?_linkStart_ne_none {name : String} (target : String)
    (h : bareAt? top (place ++ [name]) ≠ none) : bareAt? top (linkStart place target) ≠ none := by
  rw [linkStart]
  split
  · exact bareAt?_nil_ne_none top
  · simpa using bareAt?_dropLast_ne_none h

/-- A way stays open in a part of the tree as long as its entries are there. -/
theorem mono (hpart : IsPartOf top' top) (h : Way top follow n place steps seen goal)
    (hplace : bareAt? top' place ≠ none) (hseen : ∀ q ∈ seen, bareAt? top' q ≠ none) :
    Way top' follow n place steps seen goal := by
  induction h with
  | done place => exact .done place
  | here folder rest ih => exact .here ((hpart.bareAt?_eq hplace).trans folder) (ih hplace hseen)
  | up folder rest ih =>
    exact .up ((hpart.bareAt?_eq hplace).trans folder) (ih (bareAt?_dropLast_ne_none hplace) hseen)
  | stop short link ends =>
    have hlink := hseen _ (List.mem_singleton_self _)
    exact .stop short ((hpart.bareAt?_eq hlink).trans link) ends
  | jump short link goesOn written rest ih =>
    obtain ⟨hlink, hseen⟩ := List.forall_mem_cons.mp hseen
    exact .jump short ((hpart.bareAt?_eq hlink).trans link) goesOn written
      (ih (bareAt?_linkStart_ne_none _ hlink) hseen)
  | enter short entry real rest ih =>
    obtain ⟨hentry, hseen⟩ := List.forall_mem_cons.mp hseen
    exact .enter short ((hpart.bareAt?_eq hentry).trans entry) real (ih hentry hseen)

/-- What a way leads to is there. -/
theorem bareAt?_goal_ne_none (h : Way top follow n place steps seen goal)
    (hplace : bareAt? top place ≠ none) : bareAt? top goal ≠ none := by
  induction h with
  | done place => exact hplace
  | here folder rest ih => exact ih hplace
  | up folder rest ih => exact ih (bareAt?_dropLast_ne_none hplace)
  | stop short link ends => simp [link]
  | @jump n place name target steps seen goal short link goesOn written rest ih =>
    have hlink : bareAt? top (place ++ [name]) ≠ none := by simp [link]
    exact ih (bareAt?_linkStart_ne_none target hlink)
  | enter short entry real rest ih => exact ih (by simp [entry])

/-! ### One step more -/

/-- The way to an entry of the folder at the end of a way, itself not followed. -/
theorem child (h : Way top true n place steps seen goal) {name : String} {node : Node}
    (short : name.utf8ByteSize ≤ Disk.nameLimit)
    (hentry : bareAt? top (goal ++ [name]) = some node) :
    Way top false n place (steps ++ [.name name]) (seen ++ [goal ++ [name]]) (goal ++ [name]) := by
  have hlast : ∀ goal, bareAt? top (goal ++ [name]) = some node →
      Way top false 0 goal [.name name] [goal ++ [name]] (goal ++ [name]) := by
    intro goal hentry
    cases node with
    | link target => exact .stop short hentry rfl
    | file => exact .enter short hentry (fun _ => Node.noConfusion) (.done _)
    | folder => exact .enter short hentry (fun _ => Node.noConfusion) (.done _)
  induction h with
  | done place => exact hlast place hentry
  | here folder rest ih => exact .here folder (ih hentry)
  | up folder rest ih => exact .up folder (ih hentry)
  | stop short' link ends => cases ends
  | jump short' link goesOn written rest ih =>
    have hrest := ih hentry
    rw [List.append_assoc] at hrest
    exact .jump short' link (by simp) written hrest
  | enter short' entry real rest ih => exact .enter short' entry real (ih hentry)

/-- A closing slash does not change where a way leads. -/
theorem of_concat_here (h : Way top true n place (steps ++ [.here]) seen goal) :
    Way top true n place steps seen goal := by
  generalize hall : steps ++ [.here] = all at h
  induction h generalizing steps with
  | done place => simp at hall
  | here folder rest ih =>
    cases steps with
    | nil =>
      rw [List.nil_append, List.cons.injEq] at hall
      obtain ⟨-, rfl⟩ := hall
      exact rest
    | cons step steps =>
      rw [List.cons_append, List.cons.injEq] at hall
      obtain ⟨rfl, hrest⟩ := hall
      exact .here folder (ih hrest)
  | up folder rest ih =>
    cases steps with
    | nil => cases hall
    | cons step steps =>
      rw [List.cons_append, List.cons.injEq] at hall
      obtain ⟨rfl, hrest⟩ := hall
      exact .up folder (ih hrest)
  | stop short link ends => cases ends
  | jump short link goesOn written rest ih =>
    cases steps with
    | nil => cases hall
    | cons step steps =>
      rw [List.cons_append, List.cons.injEq] at hall
      obtain ⟨rfl, hrest⟩ := hall
      refine .jump short link (by simp) written (ih ?_)
      rw [List.append_assoc, hrest]
  | enter short entry real rest ih =>
    cases steps with
    | nil => cases hall
    | cons step steps =>
      rw [List.cons_append, List.cons.injEq] at hall
      obtain ⟨rfl, hrest⟩ := hall
      exact .enter short entry real (ih hrest)

/-- A path that leads somewhere also does so if a link at its end is not followed: to the same place
or to such a link. -/
theorem exists_unfollowed (h : Way top true n place steps seen goal) :
    ∃ m ≤ n, ∃ seen' goal', Way top false m place steps seen' goal' ∧
      (goal' = goal ∨ ∃ target, bareAt? top goal' = some (.link target)) := by
  induction h with
  | done place => exact ⟨0, Nat.le_refl _, [], place, .done place, .inl rfl⟩
  | here folder rest ih =>
    obtain ⟨m, hm, seen', goal', hway, hgoal⟩ := ih
    exact ⟨m, hm, seen', goal', .here folder hway, hgoal⟩
  | up folder rest ih =>
    obtain ⟨m, hm, seen', goal', hway, hgoal⟩ := ih
    exact ⟨m, hm, seen', goal', .up folder hway, hgoal⟩
  | stop short link ends => cases ends
  | @jump n place name target steps seen goal short link goesOn written rest ih =>
    by_cases hlast : steps = []
    · subst hlast
      exact ⟨0, Nat.zero_le _, _, _, .stop short link rfl, .inr ⟨target, link⟩⟩
    · obtain ⟨m, hm, seen', goal', hway, hgoal⟩ := ih
      exact ⟨m + 1, Nat.succ_le_succ hm, _, goal',
        .jump short link (fun hends => hlast hends.1) written hway, hgoal⟩
  | enter short entry real rest ih =>
    obtain ⟨m, hm, seen', goal', hway, hgoal⟩ := ih
    exact ⟨m, hm, _, goal', .enter short entry real hway, hgoal⟩

/-! ### Ways without links -/

/-- Without links and without steps up, a way ends where the steps say, and passes nothing but what
is above. -/
theorem of_no_links (h : Way top follow 0 place steps seen goal) (hup : .up ∉ steps) :
    goal.map Component.name = place.map .name ++ steps.filterMap Step.component? ∧
      ∀ q ∈ seen, q <+: goal := by
  generalize hn : 0 = n at h
  induction h with
  | done place => simp
  | here folder rest ih => exact ih (List.not_mem_of_not_mem_cons hup) hn
  | up folder rest ih => exact absurd List.mem_cons_self hup
  | stop short link ends => simp [Step.component?]
  | jump short link goesOn written rest ih => cases hn
  | @enter n place name node steps seen goal short entry real rest ih =>
    obtain ⟨hgoal, hseen⟩ := ih (List.not_mem_of_not_mem_cons hup) hn
    refine ⟨by simpa [Step.component?] using hgoal, List.forall_mem_cons.mpr ⟨?_, hseen⟩⟩
    have habove : (place ++ [name]).map Component.name <+: goal.map Component.name :=
      ⟨_, hgoal.symm⟩
    have hinjective : Function.Injective Component.name := fun _ _ => Component.name.inj
    rwa [List.prefix_map_iff_of_injective hinjective] at habove

end Way

end Reclaim
