import Mathlib
import Reclaim.Proofs.Path.Spelling

/-!
# Parts of a file tree

Deleting leaves a part of a tree: every place shows what it showed before, or nothing.  What a place
shows is an entry without its contents, as the contents of a folder are at places of their own.

## Main definitions

* `Node.bareAt?` : what a place shows.
* `Node.IsPartOf` : a tree shows nothing that the other one does not.
* `Node.Alike` : two trees show the same everywhere.
* `Node.Sound` : the names of a tree can be names, and no folder has one twice.
* `Node.isEmptyFolder`, `Node.linkBytes` : an empty folder, and the length of the text of a link.

## Main results

* `Node.bareAt?_drop`, `Node.bareAt?_clear` : what is shown after an entry is taken away, and after
  a folder is emptied.
* `Node.fileBytes_drop`, `Node.fileBytes_clear` : how many bytes that takes.
* `Node.Alike.fileBytes_eq` : the bytes of a tree do not depend on the order of its entries.
-/

namespace Reclaim.Node

variable {top top' top'' : Node} {place q : Place} {name : String} {entries : List (String × Node)}

/-! ### Places -/

theorem at?_append (place q : Place) (top : Node) :
    at? (place ++ q) top = (at? place top).bind (at? q) := by
  induction place generalizing top with
  | nil => rfl
  | cons name place ih =>
    cases top with
    | folder entries =>
      rw [List.cons_append, at?, at?, Option.bind_assoc]
      exact congrArg _ (funext ih)
    | file => rfl
    | link => rfl

theorem at?_concat (h : at? place top = some (.folder entries)) (name : String) :
    at? (place ++ [name]) top = entries.lookup name := by
  simp [at?_append, h, at?]

/-- What has something below it is a folder. -/
theorem exists_folder_of_at?_append {node : Node} (hq : q ≠ [])
    (h : at? (place ++ q) top = some node) : ∃ entries, at? place top = some (.folder entries) := by
  obtain ⟨name, q, rfl⟩ := List.exists_cons_of_ne_nil hq
  rw [at?_append, Option.bind_eq_some_iff] at h
  obtain ⟨above, habove, hbelow⟩ := h
  cases above with
  | folder entries => exact ⟨entries, habove⟩
  | file => cases hbelow
  | link => cases hbelow

/-! ### What a place shows -/

/-- An entry without its contents. -/
def bare : Node → Node
  | .folder _ => .folder []
  | node => node

/-- What a place shows: its entry without the contents. -/
def bareAt? (top : Node) (place : Place) : Option Node :=
  (at? place top).map bare

theorem bareAt?_eq_none_iff : bareAt? top place = none ↔ at? place top = none :=
  Option.map_eq_none_iff

theorem bareAt?_eq_folder_iff :
    bareAt? top place = some (.folder []) ↔ ∃ entries, at? place top = some (.folder entries) := by
  rw [bareAt?, Option.map_eq_some_iff]
  constructor
  · rintro ⟨node, hnode, hbare⟩
    cases node with
    | folder entries => exact ⟨entries, hnode⟩
    | file => cases hbare
    | link => cases hbare
  · rintro ⟨entries, hentries⟩
    exact ⟨_, hentries, rfl⟩

theorem bareAt?_eq_some_iff {node : Node} (hnode : node.isFolder = false) :
    bareAt? top place = some node ↔ at? place top = some node := by
  rw [bareAt?, Option.map_eq_some_iff]
  constructor
  · rintro ⟨node', hnode', hbare⟩
    cases node' with
    | folder entries => cases hbare; cases hnode
    | file => cases hbare; exact hnode'
    | link => cases hbare; exact hnode'
  · intro hat
    refine ⟨node, hat, ?_⟩
    cases node with
    | folder entries => cases hnode
    | file => rfl
    | link => rfl

/-- Nothing is shown below a place that shows nothing. -/
theorem bareAt?_eq_none_below (h : bareAt? top place = none) (hq : place <+: q) :
    bareAt? top q = none := by
  obtain ⟨rest, rfl⟩ := hq
  rw [bareAt?_eq_none_iff] at h ⊢
  rw [at?_append, h]
  rfl

/-- A tree shows nothing that the other one does not. -/
def IsPartOf (top' top : Node) : Prop :=
  ∀ place, bareAt? top' place = none ∨ bareAt? top' place = bareAt? top place

theorem IsPartOf.refl (top : Node) : IsPartOf top top :=
  fun _ => .inr rfl

theorem IsPartOf.trans (h' : IsPartOf top'' top') (h : IsPartOf top' top) : IsPartOf top'' top := by
  intro place
  rcases h' place with hnone | hsame
  · exact .inl hnone
  · rw [hsame]
    exact h place

theorem IsPartOf.bareAt?_eq (h : IsPartOf top' top) (hthere : bareAt? top' place ≠ none) :
    bareAt? top' place = bareAt? top place :=
  (h place).resolve_left hthere

theorem IsPartOf.bareAt?_ne_none (h : IsPartOf top' top) (hthere : bareAt? top' place ≠ none) :
    bareAt? top place ≠ none :=
  h.bareAt?_eq hthere ▸ hthere

theorem IsPartOf.exists_folder (h : IsPartOf top' top)
    (hfolder : at? place top' = some (.folder entries)) :
    ∃ entries, at? place top = some (.folder entries) := by
  have hshown := bareAt?_eq_folder_iff.mpr ⟨entries, hfolder⟩
  rw [← bareAt?_eq_folder_iff, ← h.bareAt?_eq (by simp [hshown]), hshown]

/-- Two trees show the same everywhere. -/
def Alike (top top' : Node) : Prop :=
  ∀ place, bareAt? top place = bareAt? top' place

theorem Alike.symm (h : Alike top top') : Alike top' top :=
  fun place => (h place).symm

theorem Alike.isPartOf (h : Alike top top') : IsPartOf top top' :=
  fun place => .inr (h place)

/-- A folder without entries. -/
def isEmptyFolder : Node → Bool
  | .folder [] => true
  | _ => false

/-- A folder is empty if nothing is shown below it. -/
theorem isEmptyFolder_iff (h : at? place top = some (.folder entries)) :
    (Node.folder entries).isEmptyFolder = true ↔
      ∀ name, bareAt? top (place ++ [name]) = none := by
  have hshown : ∀ name, bareAt? top (place ++ [name]) = none ↔ entries.lookup name = none := by
    intro name
    rw [bareAt?_eq_none_iff, at?_concat h]
  simp only [hshown]
  cases entries with
  | nil => simp [isEmptyFolder]
  | cons entry entries =>
    simp only [isEmptyFolder, Bool.false_eq_true, false_iff, not_forall]
    exact ⟨entry.1, by simp⟩

/-- Parts of trees that show the same show the same if the same places are gone. -/
theorem IsPartOf.alike {part part' : Node} (h : IsPartOf part top) (h' : IsPartOf part' top')
    (halike : Alike top top') (hgone : ∀ place, bareAt? part place = none ↔
      bareAt? part' place = none) : Alike part part' := by
  intro place
  rcases h place with hnone | hsame
  · rw [hnone, (hgone place).mp hnone]
  · rcases h' place with hnone' | hsame'
    · rw [hnone', (hgone place).mpr hnone']
    · rw [hsame, hsame', halike place]

/-! ### Changing the entries of a folder -/

theorem lookup_cons_eq (n m : String) (node : Node) (entries : List (String × Node)) :
    ((m, node) :: entries).lookup n = if n = m then some node else entries.lookup n := by
  rw [List.lookup_cons]
  by_cases hm : n = m
  · simp [hm]
  · rw [beq_false_of_ne hm, if_neg hm]

theorem lookup_map_update (change : Node → Node) (name n : String)
    (entries : List (String × Node)) :
    (entries.map fun entry =>
        if entry.1 = name then (entry.1, change entry.2) else entry).lookup n =
      if n = name then (entries.lookup n).map change else entries.lookup n := by
  induction entries with
  | nil => simp
  | cons entry entries ih =>
    obtain ⟨m, node⟩ := entry
    by_cases hm : m = name
    · subst hm
      rw [List.map_cons, if_pos rfl, lookup_cons_eq, lookup_cons_eq, ih]
      by_cases hn : n = m <;> simp [hn]
    · rw [List.map_cons, if_neg hm, lookup_cons_eq, lookup_cons_eq, ih]
      by_cases hn : n = m
      · subst hn
        simp [hm]
      · simp [hn]

theorem lookup_dropEntry (name n : String) (entries : List (String × Node)) :
    (dropEntry name entries).lookup n = if n = name then none else entries.lookup n := by
  induction entries with
  | nil => simp [dropEntry]
  | cons entry entries ih =>
    obtain ⟨m, node⟩ := entry
    rw [dropEntry] at ih ⊢
    by_cases hm : m = name
    · subst hm
      rw [List.filter_cons_of_neg (by simp), ih, lookup_cons_eq]
      by_cases hn : n = m <;> simp [hn]
    · rw [List.filter_cons_of_pos (by simpa using hm), lookup_cons_eq, lookup_cons_eq, ih]
      by_cases hn : n = m
      · subst hn
        simp [hm]
      · simp [hn]

/-- Below the folder that is changed. -/
theorem at?_updateFolder_append (change : List (String × Node) → List (String × Node))
    (place q : Place) (top : Node) : at? (place ++ q) (updateFolder change place top) =
      (at? place top).bind fun node => at? q (updateFolder change [] node) := by
  induction place generalizing top with
  | nil => rfl
  | cons name place ih =>
    cases top with
    | folder entries =>
      rw [List.cons_append, updateFolder, at?, lookup_map_update, if_pos rfl, at?]
      cases entries.lookup name with
      | none => rfl
      | some node => exact ih node
    | file => rfl
    | link => rfl

/-- Beside the folder that is changed. -/
theorem bareAt?_updateFolder_beside (change : List (String × Node) → List (String × Node))
    (top : Node) (h : ¬place <+: q) :
    bareAt? (updateFolder change place top) q = bareAt? top q := by
  induction place generalizing q top with
  | nil => exact absurd q.nil_prefix h
  | cons name place ih =>
    cases top with
    | folder entries =>
      cases q with
      | nil => rfl
      | cons n q =>
        rw [updateFolder, bareAt?, at?, lookup_map_update, bareAt?, at?]
        by_cases hn : n = name
        · subst hn
          have hq : ¬place <+: q := fun hq => h (List.cons_prefix_cons.mpr ⟨rfl, hq⟩)
          rw [if_pos rfl]
          cases entries.lookup n with
          | none => rfl
          | some node => exact ih node hq
        · rw [if_neg hn]
    | file => rfl
    | link => rfl

/-- At and below the folder that is changed. -/
theorem bareAt?_updateFolder_append (change : List (String × Node) → List (String × Node))
    (place q : Place) (top : Node) : bareAt? (updateFolder change place top) (place ++ q) =
      (at? place top).bind fun node => bareAt? (updateFolder change [] node) q := by
  rw [bareAt?, at?_updateFolder_append]
  cases at? place top <;> rfl

theorem bareAt?_append (place q : Place) (top : Node) :
    bareAt? top (place ++ q) = (at? place top).bind fun node => bareAt? node q := by
  rw [bareAt?, at?_append]
  cases at? place top <;> rfl

/-- A tree without one of its entries shows the rest as before. -/
theorem bareAt?_drop (top : Node) (hplace : place ≠ []) (q : Place) :
    bareAt? (drop top place) q = if place <+: q then none else bareAt? top q := by
  obtain ⟨front, name, rfl⟩ := place.eq_nil_or_concat'.resolve_left hplace
  have hdrop : drop top (front ++ [name]) = updateFolder (dropEntry name) front top := by
    simp [drop]
  rw [hdrop]
  by_cases hfront : front <+: q
  · obtain ⟨q, rfl⟩ := hfront
    rw [bareAt?_updateFolder_append, bareAt?_append]
    simp only [List.prefix_append_right_inj]
    cases at? front top with
    | none => simp
    | some node =>
      cases node with
      | folder entries =>
        cases q with
        | nil => simp [updateFolder, bareAt?, at?, bare]
        | cons n q =>
          by_cases hn : n = name
          · simp [updateFolder, bareAt?, at?, lookup_dropEntry, hn]
          · simp [updateFolder, bareAt?, at?, lookup_dropEntry, hn, Ne.symm hn]
      | file => cases q <;> simp [updateFolder, bareAt?, at?]
      | link => cases q <;> simp [updateFolder, bareAt?, at?]
  · rw [bareAt?_updateFolder_beside _ _ hfront,
      if_neg fun h => hfront ((List.prefix_append front [name]).trans h)]

/-- A tree with an emptied folder shows the rest as before. -/
theorem bareAt?_clear (top : Node) (place q : Place) :
    bareAt? (clear top place) q = if place <+: q ∧ place ≠ q then none else bareAt? top q := by
  rw [clear]
  by_cases hplace : place <+: q
  · obtain ⟨q, rfl⟩ := hplace
    rw [bareAt?_updateFolder_append, bareAt?_append]
    cases at? place top with
    | none => simp
    | some node => cases node <;> cases q <;> simp [updateFolder, bareAt?, at?, bare]
  · rw [bareAt?_updateFolder_beside _ _ hplace, if_neg fun h => hplace h.1]

theorem at?_clear (h : at? place top = some (.folder entries)) :
    at? place (clear top place) = some (.folder []) := by
  have hat := at?_updateFolder_append (fun _ => []) place [] top
  rw [List.append_nil, h] at hat
  exact hat

theorem isPartOf_drop (top : Node) (place : Place) : IsPartOf (drop top place) top := by
  intro q
  by_cases hplace : place = []
  · subst hplace
    exact .inr rfl
  · rw [bareAt?_drop top hplace]
    split
    · exact .inl rfl
    · exact .inr rfl

theorem isPartOf_clear (top : Node) (place : Place) : IsPartOf (clear top place) top := by
  intro q
  rw [bareAt?_clear]
  split
  · exact .inl rfl
  · exact .inr rfl

/-! ### Sound trees -/

/-- The text can be the name of an entry. -/
def IsEntryName (text : String) : Prop :=
  IsName text ∧ text.utf8ByteSize ≤ Disk.nameLimit ∧ '\x00' ∉ text.toList

instance (text : String) : Decidable (IsEntryName text) :=
  inferInstanceAs (Decidable (_ ∧ _))

/-- The names of a tree can be names, and no folder has one twice. -/
inductive Sound : Node → Prop
  | file (mode : Nat) (content : Content) : Sound (.file mode content)
  | link (target : String) : Sound (.link target)
  | folder (entries : List (String × Node)) (once : (entries.map Prod.fst).Nodup)
      (named : ∀ entry ∈ entries, IsEntryName entry.1)
      (nodes : ∀ entry ∈ entries, Sound entry.2) : Sound (.folder entries)

theorem Sound.once (h : Sound (.folder entries)) : (entries.map Prod.fst).Nodup := by
  cases h; assumption

theorem Sound.named (h : Sound (.folder entries)) {entry : String × Node} (he : entry ∈ entries) :
    IsEntryName entry.1 := by
  cases h with
  | folder _ _ named _ => exact named entry he

theorem Sound.nodes (h : Sound (.folder entries)) {entry : String × Node} (he : entry ∈ entries) :
    Sound entry.2 := by
  cases h with
  | folder _ _ _ nodes => exact nodes entry he

/-! Whether a tree is sound can be computed. -/

mutual

def decideSound : (node : Node) → Decidable node.Sound
  | .file mode content => .isTrue (.file mode content)
  | .link target => .isTrue (.link target)
  | .folder entries =>
    match decideSoundAll entries with
    | .isTrue nodes =>
      decidable_of_iff ((entries.map Prod.fst).Nodup ∧ ∀ entry ∈ entries, IsEntryName entry.1)
        ⟨fun h => .folder entries h.1 h.2 nodes, fun h => ⟨h.once, fun _ he => h.named he⟩⟩
    | .isFalse hnot => .isFalse fun h => hnot fun _ he => h.nodes he

def decideSoundAll :
    (entries : List (String × Node)) → Decidable (∀ entry ∈ entries, Sound entry.2)
  | [] => .isTrue fun _ he => absurd he List.not_mem_nil
  | (_, node) :: entries =>
    match decideSound node, decideSoundAll entries with
    | .isTrue hnode, .isTrue nodes => .isTrue (List.forall_mem_cons.mpr ⟨hnode, nodes⟩)
    | .isFalse hnot, _ => .isFalse fun h => hnot (List.forall_mem_cons.mp h).1
    | _, .isFalse hnot => .isFalse fun h => hnot (List.forall_mem_cons.mp h).2

end

instance (node : Node) : Decidable node.Sound :=
  decideSound node

theorem mem_of_lookup {node : Node} (h : entries.lookup name = some node) :
    (name, node) ∈ entries := by
  induction entries with
  | nil => cases h
  | cons entry entries ih =>
    obtain ⟨n, node'⟩ := entry
    rw [List.lookup_cons] at h
    split at h
    next hn =>
      obtain rfl := eq_of_beq hn
      obtain rfl := Option.some.inj h
      exact List.mem_cons_self
    next => exact List.mem_cons_of_mem _ (ih h)

theorem lookup_of_mem (once : (entries.map Prod.fst).Nodup) {node : Node}
    (h : (name, node) ∈ entries) : entries.lookup name = some node := by
  induction entries with
  | nil => cases h
  | cons entry entries ih =>
    obtain ⟨n, node'⟩ := entry
    rw [List.map_cons, List.nodup_cons] at once
    rcases List.mem_cons.mp h with heq | h
    · cases heq
      simp
    · have hne : name ≠ n := fun hn => once.1 (hn ▸ List.mem_map.mpr ⟨_, h, rfl⟩)
      rw [List.lookup_cons, beq_false_of_ne hne]
      exact ih once.2 h

theorem Sound.at? (h : Sound top) {node : Node} (hnode : Node.at? place top = some node) :
    Sound node := by
  induction place generalizing top with
  | nil => exact Option.some.inj hnode ▸ h
  | cons name place ih =>
    cases top with
    | folder entries =>
      obtain ⟨child, hchild, hbelow⟩ := Option.bind_eq_some_iff.mp hnode
      exact ih (h.nodes (mem_of_lookup hchild)) hbelow
    | file => cases hnode
    | link => cases hnode

/-- The names on the way to an entry can be names. -/
theorem isEntryName_of_at? (hsound : Sound top) {node : Node}
    (h : Node.at? place top = some node) :
    ∀ name ∈ place, IsEntryName name := by
  induction place generalizing top with
  | nil => exact fun name hname => absurd hname List.not_mem_nil
  | cons name place ih =>
    cases top with
    | folder entries =>
      obtain ⟨child, hchild, hbelow⟩ := Option.bind_eq_some_iff.mp h
      have hentry := mem_of_lookup hchild
      exact List.forall_mem_cons.mpr ⟨hsound.named hentry, ih (hsound.nodes hentry) hbelow⟩
    | file => cases h
    | link => cases h

/-- A tree stays sound if the entries of a folder become fewer. -/
theorem Sound.updateFolder (h : Sound top) {change : List (String × Node) → List (String × Node)}
    (hchange : ∀ entries, (change entries).Sublist entries) (place : Place) :
    Sound (updateFolder change place top) := by
  induction place generalizing top with
  | nil =>
    cases h with
    | file => exact .file _ _
    | link => exact .link _
    | folder entries once named nodes =>
      have hsub := hchange entries
      exact .folder _ ((hsub.map _).nodup once) (fun e he => named e (hsub.subset he))
        fun e he => nodes e (hsub.subset he)
  | cons name place ih =>
    cases h with
    | file => exact .file _ _
    | link => exact .link _
    | folder entries once named nodes =>
      refine .folder _ ?_ ?_ ?_
      · have hfst : (fun entry : String × Node => Prod.fst (if entry.1 = name
            then (entry.1, Node.updateFolder change place entry.2) else entry)) = Prod.fst := by
          funext entry
          split <;> rfl
        rwa [List.map_map, Function.comp_def, hfst]
      · rw [List.forall_mem_map]
        intro entry he
        split <;> exact named entry he
      · rw [List.forall_mem_map]
        intro entry he
        split
        · exact ih (nodes entry he)
        · exact nodes entry he

theorem Sound.drop (h : Sound top) (place : Place) : Sound (drop top place) := by
  rw [Node.drop]
  split
  · exact h
  · exact h.updateFolder (fun _ => List.filter_sublist) _

theorem Sound.clear (h : Sound top) (place : Place) : Sound (clear top place) :=
  h.updateFolder (fun _ => List.nil_sublist _) place

/-! ### Bytes -/

theorem entryBytes_eq_sum (entries : List (String × Node)) :
    entryBytes entries = (entries.map fun entry => entry.2.fileBytes).sum := by
  induction entries with
  | nil => rfl
  | cons entry entries ih => rw [entryBytes, List.map_cons, List.sum_cons, ih]

theorem entryBytes_append (entries entries' : List (String × Node)) :
    entryBytes (entries ++ entries') = entryBytes entries + entryBytes entries' := by
  simp [entryBytes_eq_sum]

/-- A list of entries cut at the one with a given name. -/
theorem exists_append_of_lookup {node : Node} (h : entries.lookup name = some node) :
    ∃ front back, entries = front ++ (name, node) :: back ∧ ∀ entry ∈ front, entry.1 ≠ name := by
  induction entries with
  | nil => cases h
  | cons entry entries ih =>
    obtain ⟨n, node'⟩ := entry
    rw [List.lookup_cons] at h
    split at h
    next hn =>
      obtain rfl := eq_of_beq hn
      obtain rfl := Option.some.inj h
      exact ⟨[], entries, rfl, by simp⟩
    next hn =>
      obtain ⟨front, back, rfl, hfront⟩ := ih h
      refine ⟨(n, node') :: front, back, rfl, ?_⟩
      rw [List.forall_mem_cons]
      exact ⟨fun hname : n = name => by simp [hname] at hn, hfront⟩

/-- The bytes of a tree change by as much as those of the entries that are changed. -/
theorem fileBytes_updateFolder (hsound : Sound top)
    (change : List (String × Node) → List (String × Node))
    (h : at? place top = some (.folder entries)) :
    (updateFolder change place top).fileBytes + entryBytes entries =
      top.fileBytes + entryBytes (change entries) := by
  induction place generalizing top with
  | nil =>
    obtain rfl := Option.some.inj h
    simp only [updateFolder, fileBytes]
    omega
  | cons name place ih =>
    cases top with
    | folder all =>
      obtain ⟨child, hchild, hbelow⟩ := Option.bind_eq_some_iff.mp h
      obtain ⟨front, back, rfl, hfront⟩ := exists_append_of_lookup hchild
      have honce := hsound.once
      have hback : ∀ entry ∈ back, entry.1 ≠ name := by
        rw [List.map_append, List.map_cons, List.nodup_append, List.nodup_cons] at honce
        exact fun entry he hname => honce.2.1.1 (hname ▸ List.mem_map.mpr ⟨_, he, rfl⟩)
      have hkeep : ∀ part : List (String × Node), (∀ entry ∈ part, entry.1 ≠ name) →
          (part.map fun entry => if entry.1 = name
            then (entry.1, updateFolder change place entry.2) else entry) = part := by
        intro part hpart
        conv_rhs => rw [← part.map_id]
        exact List.map_congr_left fun entry he => if_neg (hpart entry he)
      have hnode : Sound child := hsound.nodes (mem_of_lookup hchild)
      have hbytes := ih hnode hbelow
      rw [updateFolder, List.map_append, List.map_cons, hkeep front hfront, hkeep back hback,
        if_pos rfl]
      simp only [fileBytes, entryBytes_append, entryBytes]
      omega
    | file => cases h
    | link => cases h

/-- Taking an entry away frees its bytes. -/
theorem fileBytes_drop (hsound : Sound top) (hplace : place ≠ []) {node : Node}
    (h : at? place top = some node) :
    (drop top place).fileBytes + node.fileBytes = top.fileBytes := by
  obtain ⟨front, name, rfl⟩ := place.eq_nil_or_concat'.resolve_left hplace
  obtain ⟨entries, hentries⟩ := exists_folder_of_at?_append (List.cons_ne_nil name []) h
  rw [at?_concat hentries] at h
  have hdrop : drop top (front ++ [name]) = updateFolder (dropEntry name) front top := by
    simp [drop]
  have hbytes := fileBytes_updateFolder hsound (dropEntry name) hentries
  obtain ⟨before, after, rfl, hbefore⟩ := exists_append_of_lookup h
  have honce := (hsound.at? hentries).once
  have hafter : ∀ entry ∈ after, entry.1 ≠ name := by
    rw [List.map_append, List.map_cons, List.nodup_append, List.nodup_cons] at honce
    exact fun entry he hname => honce.2.1.1 (hname ▸ List.mem_map.mpr ⟨_, he, rfl⟩)
  have hkept : dropEntry name (before ++ (name, node) :: after) = before ++ after := by
    rw [dropEntry, List.filter_append, List.filter_cons_of_neg (by simp),
      List.filter_eq_self.mpr (by simpa using hbefore),
      List.filter_eq_self.mpr (by simpa using hafter)]
  rw [hkept] at hbytes
  simp only [entryBytes_append, entryBytes] at hbytes
  rw [hdrop]
  omega

/-- Emptying a folder frees the bytes below it. -/
theorem fileBytes_clear (hsound : Sound top) (h : at? place top = some (.folder entries)) :
    (clear top place).fileBytes + (Node.folder entries).fileBytes = top.fileBytes := by
  have hbytes := fileBytes_updateFolder hsound (fun _ => []) h
  simpa only [clear, fileBytes, entryBytes, Nat.add_zero] using hbytes

/-- The length of the text of a link, and nothing for any other entry. -/
def linkBytes : Node → Nat
  | .link target => target.utf8ByteSize
  | _ => 0

theorem linkBytes_bare (node : Node) : linkBytes node.bare = linkBytes node := by
  cases node <;> rfl

theorem isFolder_bare (node : Node) : node.bare.isFolder = node.isFolder := by
  cases node <;> rfl

/-! ### The order of entries -/

theorem bareAt?_singleton (entries : List (String × Node)) (name : String) :
    bareAt? (.folder entries) [name] = (entries.lookup name).map bare := by
  rw [bareAt?, at?]
  cases entries.lookup name <;> rfl

theorem Alike.folder_iff (h : Alike top top') :
    (∃ entries, at? place top = some (.folder entries)) ↔
      ∃ entries, at? place top' = some (.folder entries) := by
  rw [← bareAt?_eq_folder_iff, ← bareAt?_eq_folder_iff, h place]

theorem Alike.at? (h : Alike top top') {node node' : Node} (hnode : Node.at? place top = some node)
    (hnode' : Node.at? place top' = some node') : Alike node node' := by
  intro q
  have hsame := h (place ++ q)
  rwa [bareAt?_append, bareAt?_append, hnode, hnode'] at hsame

/-- Folders that show the same have the same entries, up to their order and to what else is said of
them. -/
theorem Alike.perm_map {β : Type} {entries entries' : List (String × Node)}
    (h : Alike (.folder entries) (.folder entries')) (once : (entries.map Prod.fst).Nodup)
    (once' : (entries'.map Prod.fst).Nodup) {f : String × Node → β}
    (hf : ∀ name node node', (name, node) ∈ entries → (name, node') ∈ entries' →
      f (name, node) = f (name, node')) : (entries.map f).Perm (entries'.map f) := by
  have hpaired : ∀ part : List (String × Node), (part.map Prod.fst).Nodup →
      (part.map fun entry => (entry.1, f entry)).Nodup := by
    intro part hpart
    refine List.Nodup.of_map Prod.fst ?_
    rwa [List.map_map]
  have hsub : ∀ part part' : List (String × Node), Alike (.folder part) (.folder part') →
      (part.map Prod.fst).Nodup →
      (∀ name node node', (name, node) ∈ part → (name, node') ∈ part' →
        f (name, node) = f (name, node')) →
      part.map (fun entry => (entry.1, f entry)) ⊆ part'.map fun entry => (entry.1, f entry) := by
    intro part part' halike hpart hsame x hx
    obtain ⟨⟨name, node⟩, hmem, rfl⟩ := List.mem_map.mp hx
    have hshown := halike [name]
    rw [bareAt?_singleton, bareAt?_singleton, lookup_of_mem hpart hmem] at hshown
    obtain ⟨node', hnode', -⟩ := Option.map_eq_some_iff.mp hshown.symm
    have hmem' := mem_of_lookup hnode'
    exact List.mem_map.mpr ⟨_, hmem', by rw [hsame name node node' hmem hmem']⟩
  have hperm := (List.perm_ext_iff_of_nodup (hpaired entries once) (hpaired entries' once')).mpr
    fun x => ⟨fun hx => hsub _ _ h once hf hx, fun hx => hsub _ _ h.symm once'
      (fun name node node' hmem hmem' => (hf name node' node hmem' hmem).symm) hx⟩
  have hsnd := hperm.map Prod.snd
  simpa only [List.map_map, Function.comp_def] using hsnd

/-- Entries of the same name in folders that show the same are the same but for their contents. -/
theorem Alike.bare_eq {entries entries' : List (String × Node)}
    (h : Alike (.folder entries) (.folder entries')) (once : (entries.map Prod.fst).Nodup)
    (once' : (entries'.map Prod.fst).Nodup) {node node' : Node} (hmem : (name, node) ∈ entries)
    (hmem' : (name, node') ∈ entries') : node.bare = node'.bare := by
  have hsame := h [name]
  rw [bareAt?_singleton, bareAt?_singleton, lookup_of_mem once hmem,
    lookup_of_mem once' hmem'] at hsame
  exact Option.some.inj hsame

/-- The bytes of a tree do not depend on the order of its entries. -/
theorem Alike.fileBytes_eq (h : Alike top top') (hsound : Sound top) (hsound' : Sound top') :
    top.fileBytes = top'.fileBytes := by
  induction hsound generalizing top' with
  | file mode content =>
    have hshown : bareAt? top' [] = some (.file mode content) := (h []).symm
    rw [bareAt?_eq_some_iff rfl] at hshown
    rw [← Option.some.inj hshown]
  | link target =>
    have hshown : bareAt? top' [] = some (.link target) := (h []).symm
    rw [bareAt?_eq_some_iff rfl] at hshown
    rw [← Option.some.inj hshown]
  | folder entries once named nodes ih =>
    obtain ⟨entries', hentries'⟩ := bareAt?_eq_folder_iff.mp (h []).symm
    obtain rfl := Option.some.inj hentries'
    rw [fileBytes, fileBytes, entryBytes_eq_sum, entryBytes_eq_sum]
    refine (h.perm_map once hsound'.once fun name node node' hmem hmem' => ?_).sum_eq
    refine ih (name, node) hmem ?_ (hsound'.nodes hmem')
    have hat : Node.at? [name] (.folder entries) = some node := by
      rw [Node.at?, lookup_of_mem once hmem]; rfl
    have hat' : Node.at? [name] (.folder entries') = some node' := by
      rw [Node.at?, lookup_of_mem hsound'.once hmem']; rfl
    exact h.at? hat hat'

end Reclaim.Node
