import Reclaim.Proofs.Disk.Writing

/-!
# Trees with hidden contents

The contents of the files at some places are hidden: their bytes are taken away, and what is left is
that there are files, with their permissions.  Where a path leads, what is in a folder and what a
change does to a tree depend on nothing else, so hiding can be done before or after, and the result
is the same.  Only reading a file that is hidden gives away what it holds.

## Main definitions

* `Node.beneath` : the hidden places below a place.
* `Node.hide`, `Disk.hide` : a tree with hidden contents.
* `Disk.WritesIn` : what is written at a path is hidden.

## Main results

* `Node.at?_hide` : what is at a place of a tree with hidden contents.
* `Node.drop_hide`, `Node.clear_hide`, `Node.put_hide` : changing a tree with hidden contents.
* `Disk.aim_hide`, `Disk.locate_hide` : where paths lead.
* `Disk.unlink_hide`, `Disk.removeTree_hide`, `Disk.makeFolders_hide` : changing the files.
* `Disk.writeOwnerOnly_hide` : a hidden file may be written with anything.
-/

namespace Reclaim

/-! ### Trees -/

namespace Node

/-- The hidden places below a place, counted from there. -/
def beneath (keys : Place → Bool) (place : Place) : Place → Bool :=
  fun q => keys (place ++ q)

/-- What is shown of a hidden content. -/
def hiddenContent : Content :=
  .bytes .empty

mutual

/-- The tree whose files at the given places have nothing in them. -/
def hide (keys : Place → Bool) : Node → Node
  | .file mode content => .file mode (if keys [] then hiddenContent else content)
  | .link target => .link target
  | .folder entries => .folder (hideEntries keys entries)
termination_by structural node => node

/-- The entries of a folder whose files at the given places have nothing in them. -/
def hideEntries (keys : Place → Bool) : List (String × Node) → List (String × Node)
  | [] => []
  | (name, node) :: entries => (name, hide (beneath keys [name]) node) :: hideEntries keys entries
termination_by structural entries => entries

end

variable {keys : Place → Bool} {top node : Node} {place : Place} {name : String}
  {entries : List (String × Node)}

theorem beneath_nil (keys : Place → Bool) : beneath keys [] = keys := rfl

theorem beneath_beneath (keys : Place → Bool) (place q : Place) :
    beneath (beneath keys place) q = beneath keys (place ++ q) := by
  funext rest
  simp [beneath]

theorem hideEntries_eq_map (keys : Place → Bool) (entries : List (String × Node)) :
    hideEntries keys entries =
      entries.map fun entry => (entry.1, hide (beneath keys [entry.1]) entry.2) := by
  induction entries with
  | nil => rfl
  | cons entry entries ih => rw [List.map_cons, ← ih, hideEntries]

@[simp] theorem isFolder_hide (keys : Place → Bool) (node : Node) :
    (hide keys node).isFolder = node.isFolder := by
  cases node <;> rfl

@[simp] theorem isFile_hide (keys : Place → Bool) (node : Node) :
    (hide keys node).isFile = node.isFile := by
  cases node <;> rfl

theorem lookup_hideEntries (keys : Place → Bool) (name : String)
    (entries : List (String × Node)) : (hideEntries keys entries).lookup name =
      (entries.lookup name).map (hide (beneath keys [name])) := by
  induction entries with
  | nil => rfl
  | cons entry entries ih =>
    obtain ⟨n, node⟩ := entry
    rw [hideEntries, lookup_cons_eq, lookup_cons_eq, ih]
    by_cases hn : name = n
    · subst hn
      simp
    · simp [hn]

/-- What is at a place is hidden as far as places below it are. -/
theorem at?_hide (keys : Place → Bool) (place : Place) (top : Node) :
    at? place (hide keys top) = (at? place top).map (hide (beneath keys place)) := by
  induction place generalizing keys top with
  | nil => rfl
  | cons name place ih =>
    cases top with
    | folder entries =>
      rw [hide, at?, at?, lookup_hideEntries]
      cases entries.lookup name with
      | none => rfl
      | some node =>
        rw [Option.map_some, Option.bind_some, Option.bind_some, ih, beneath_beneath]
        rfl
    | file => rfl
    | link => rfl

mutual

/-- Where nothing is hidden, hiding changes nothing. -/
theorem hide_eq_self : (keys : Place → Bool) → (∀ q, keys q = false) → (node : Node) →
    hide keys node = node
  | keys, h, .file mode content => by rw [hide, h, if_neg Bool.false_ne_true]
  | _, _, .link target => rfl
  | keys, h, .folder entries => by rw [hide, hideEntries_eq_self keys h entries]
termination_by structural _ _ node => node

theorem hideEntries_eq_self : (keys : Place → Bool) → (∀ q, keys q = false) →
    (entries : List (String × Node)) → hideEntries keys entries = entries
  | _, _, [] => rfl
  | keys, h, (name, node) :: entries => by
    have hbeneath : ∀ q, beneath keys [name] q = false := fun q => h ([name] ++ q)
    rw [hideEntries, hide_eq_self _ hbeneath node, hideEntries_eq_self keys h entries]
termination_by structural _ _ entries => entries

end

theorem map_fst_hideEntries (keys : Place → Bool) (entries : List (String × Node)) :
    (hideEntries keys entries).map Prod.fst = entries.map Prod.fst := by
  rw [hideEntries_eq_map, List.map_map]
  rfl

mutual

/-- Whether a tree is sound does not depend on what is hidden. -/
theorem sound_hide_iff : (keys : Place → Bool) → (node : Node) →
    ((hide keys node).Sound ↔ node.Sound)
  | _, .file .. => iff_of_true (.file ..) (.file ..)
  | _, .link _ => Iff.rfl
  | keys, .folder entries => by
    have hfst := map_fst_hideEntries keys entries
    have hnodes := sound_hideEntries_iff keys entries
    rw [hide]
    constructor
    · intro h
      refine .folder entries (hfst ▸ h.once) ?_ (hnodes.mp fun _ he => h.nodes he)
      rw [← List.forall_mem_map (f := Prod.fst), ← hfst, List.forall_mem_map]
      exact fun _ he => h.named he
    · intro h
      refine .folder _ (hfst.symm ▸ h.once) ?_ (hnodes.mpr fun _ he => h.nodes he)
      rw [← List.forall_mem_map (f := Prod.fst), hfst, List.forall_mem_map]
      exact fun _ he => h.named he
termination_by structural _ node => node

theorem sound_hideEntries_iff : (keys : Place → Bool) → (entries : List (String × Node)) →
    ((∀ entry ∈ hideEntries keys entries, entry.2.Sound) ↔ ∀ entry ∈ entries, entry.2.Sound)
  | _, [] => Iff.rfl
  | keys, (name, node) :: entries => by
    rw [hideEntries, List.forall_mem_cons, List.forall_mem_cons,
      sound_hide_iff (beneath keys [name]) node, sound_hideEntries_iff keys entries]
termination_by structural _ entries => entries

end

/-! ### Changing trees -/

/-- A change of a folder that hiding does not disturb does not disturb hiding. -/
theorem updateFolder_hide {change change' : List (String × Node) → List (String × Node)}
    (h : ∀ entries, change (hideEntries (beneath keys place) entries) =
      hideEntries (beneath keys place) (change' entries)) :
    updateFolder change place (hide keys top) = hide keys (updateFolder change' place top) := by
  induction place generalizing keys top with
  | nil =>
    cases top with
    | folder entries => rw [hide, updateFolder, updateFolder, hide, ← beneath_nil keys, h]
    | file => rfl
    | link => rfl
  | cons name place ih =>
    cases top with
    | folder entries =>
      rw [hide, updateFolder, updateFolder, hide, hideEntries_eq_map, hideEntries_eq_map,
        List.map_map, List.map_map]
      congr 1
      refine List.map_congr_left fun entry _ => ?_
      by_cases hname : entry.1 = name
      · have hentry : updateFolder change place (hide (beneath keys [entry.1]) entry.2) =
            hide (beneath keys [entry.1]) (updateFolder change' place entry.2) := by
          refine ih fun entries => ?_
          rw [beneath_beneath, hname]
          exact h entries
        simpa [hname] using hentry
      · simp [hname]
    | file => rfl
    | link => rfl

theorem dropEntry_hideEntries (keys : Place → Bool) (name : String)
    (entries : List (String × Node)) :
    dropEntry name (hideEntries keys entries) = hideEntries keys (dropEntry name entries) := by
  rw [dropEntry, dropEntry, hideEntries_eq_map, hideEntries_eq_map, List.filter_map]
  rfl

theorem putEntry_hideEntries (keys : Place → Bool) (name : String) (node : Node)
    (entries : List (String × Node)) :
    putEntry name (hide (beneath keys [name]) node) (hideEntries keys entries) =
      hideEntries keys (putEntry name node entries) := by
  induction entries with
  | nil => rfl
  | cons entry entries ih =>
    obtain ⟨n, other⟩ := entry
    rw [hideEntries, putEntry, putEntry]
    by_cases hn : n = name
    · rw [if_pos hn, if_pos hn, hideEntries]
    · rw [if_neg hn, if_neg hn, hideEntries, ih]

theorem drop_hide (keys : Place → Bool) (top : Node) (place : Place) :
    drop (hide keys top) place = hide keys (drop top place) := by
  rw [drop, drop]
  split
  · rfl
  · exact updateFolder_hide fun entries => dropEntry_hideEntries _ _ entries

theorem clear_hide (keys : Place → Bool) (top : Node) (place : Place) :
    clear (hide keys top) place = hide keys (clear top place) :=
  updateFolder_hide fun _ => rfl

/-- What is put at a place is hidden as far as places below it are. -/
theorem put_hide (keys : Place → Bool) (top : Node) (place : Place) (node : Node) :
    put (hide keys top) place (hide (beneath keys place) node) =
      hide keys (put top place node) := by
  rcases place.eq_nil_or_concat' with rfl | ⟨front, name, rfl⟩
  · rfl
  · rw [put_concat, put_concat, ← beneath_beneath]
    exact updateFolder_hide fun entries => putEntry_hideEntries _ _ _ entries

end Node

/-! ### Results that look the same -/

section

variable {ε α α' β β' γ δ : Type} {f : α → γ} {f' : α' → γ} {x : Except ε α} {x' : Except ε α'}

/-- Two results that look the same are one error, or two values that look the same. -/
theorem cases_of_map_eq (h : x.map f = x'.map f') :
    (∃ e, x = .error e ∧ x' = .error e) ∨ ∃ a a', x = .ok a ∧ x' = .ok a' ∧ f a = f' a' := by
  cases x with
  | error e =>
    cases x' with
    | error e' => cases h; exact .inl ⟨e, rfl, rfl⟩
    | ok a' => cases h
  | ok a =>
    cases x' with
    | error e' => cases h
    | ok a' => exact .inr ⟨a, a', rfl, rfl, Except.ok.inj h⟩

/-- Two calculations look the same if they go on from results that look the same with calculations
that do. -/
theorem map_bind_congr {g : β → δ} {g' : β' → δ} {k : α → Except ε β} {k' : α' → Except ε β'}
    (h : x.map f = x'.map f')
    (hk : ∀ a a', x = .ok a → x' = .ok a' → f a = f' a' → (k a).map g = (k' a').map g') :
    (x >>= k).map g = (x' >>= k').map g' := by
  rcases cases_of_map_eq h with ⟨e, rfl, rfl⟩ | ⟨a, a', rfl, rfl, hsame⟩
  · rfl
  · exact hk a a' rfl rfl hsame

/-- A condition on the value of a result can be checked if it can be on every value. -/
instance decidableForallOk {P : α → Prop} [DecidablePred P] : Decidable (∀ a, x = .ok a → P a) :=
  match x with
  | .ok a => decidable_of_iff (P a) ⟨fun h _ ha => Except.ok.inj ha ▸ h, fun h => h a rfl⟩
  | .error _ => .isTrue fun _ ha => nomatch ha

end

/-! ### Where paths lead -/

namespace Disk

open Node (at? at?_hide beneath hideEntries lookup_hideEntries hiddenContent drop_hide clear_hide
  put_hide)

variable {keys : Place → Bool} {d : Disk} {p : Path}

/-- The files with hidden contents. -/
def hide (keys : Place → Bool) (d : Disk) : Disk :=
  ⟨d.top.hide keys⟩

theorem walk_hide (keys : Place → Bool) (top : Node)
    (jump : Place → List Step → Except Errno Place) (follow : Bool) (place : Place)
    (steps : List Step) :
    walk (top.hide keys) jump follow place steps = walk top jump follow place steps := by
  induction steps generalizing place with
  | nil => rfl
  | cons step steps ih =>
    rw [walk, walk, at?_hide]
    cases at? place top with
    | none => rfl
    | some node =>
      cases node with
      | file => rfl
      | link => rfl
      | folder entries =>
        simp only [Option.map_some, Node.hide, lookup_hideEntries, ih]
        cases step with
        | here => rfl
        | up => rfl
        | name name =>
          dsimp only
          cases entries.lookup name with
          | none => rfl
          | some node => cases node <;> rfl

theorem resolve_hide (keys : Place → Bool) (top : Node) (follow : Bool) (links : Nat) :
    resolve (top.hide keys) follow links = resolve top follow links := by
  induction links with
  | zero =>
    funext place steps
    exact walk_hide keys top _ follow place steps
  | succ links ih =>
    funext place steps
    rw [resolve, resolve, ih]
    exact walk_hide keys top _ follow place steps

/-- A path leads to the same place. -/
@[simp] theorem aim_hide (keys : Place → Bool) (d : Disk) (follow : Bool) (p : Path) :
    (d.hide keys).aim follow p = d.aim follow p := by
  rw [aim, aim, hide, resolve_hide]

/-- What a path leads to is hidden as far as places below it are. -/
theorem locate_hide (keys : Place → Bool) (d : Disk) (follow : Bool) (p : Path) :
    (d.hide keys).locate follow p = (d.locate follow p).map fun found =>
      (found.1, found.2.hide (beneath keys found.1)) := by
  rw [locate, locate, aim_hide]
  cases d.aim follow p with
  | error e => rfl
  | ok place =>
    simp only [hide, at?_hide, bind, Except.bind]
    cases at? place d.top <;> rfl

/-- Nothing of what a path leads to is hidden but contents of files. -/
theorem exists_status_hide (keys : Place → Bool) (d : Disk) (follow : Bool) (p : Path) :
    ∃ inside, (d.hide keys).status follow p = (d.status follow p).map (Node.hide inside) := by
  rw [status, status, locate_hide]
  cases d.locate follow p with
  | error e => exact ⟨keys, rfl⟩
  | ok found => exact ⟨beneath keys found.1, rfl⟩

@[simp] theorem isPresent_hide (keys : Place → Bool) (d : Disk) (p : Path) :
    (d.hide keys).isPresent p = d.isPresent p := by
  obtain ⟨inside, hstatus⟩ := exists_status_hide keys d true p
  rw [isPresent, isPresent, hstatus]
  cases d.status true p <;> rfl

@[simp] theorem hasEntry_hide (keys : Place → Bool) (d : Disk) (p : Path) :
    (d.hide keys).hasEntry p = d.hasEntry p := by
  obtain ⟨inside, hstatus⟩ := exists_status_hide keys d false p
  rw [hasEntry, hasEntry, hstatus]
  cases d.status false p <;> rfl

@[simp] theorem isFile_hide (keys : Place → Bool) (d : Disk) (p : Path) :
    (d.hide keys).isFile p = d.isFile p := by
  obtain ⟨inside, hstatus⟩ := exists_status_hide keys d true p
  rw [isFile, isFile, hstatus]
  cases d.status true p with
  | error e => rfl
  | ok node => exact node.isFile_hide inside

@[simp] theorem isFolder_hide (keys : Place → Bool) (d : Disk) (p : Path) :
    (d.hide keys).isFolder p = d.isFolder p := by
  obtain ⟨inside, hstatus⟩ := exists_status_hide keys d true p
  rw [isFolder, isFolder, hstatus]
  cases d.status true p with
  | error e => rfl
  | ok node => exact node.isFolder_hide inside

/-- A folder is listed with the same names. -/
theorem exists_list_hide (keys : Place → Bool) (d : Disk) (p : Path) :
    ∃ inside, (d.hide keys).list p = (d.list p).map (hideEntries inside) := by
  obtain ⟨inside, hstatus⟩ := exists_status_hide keys d true p
  refine ⟨inside, ?_⟩
  rw [list, list, hstatus]
  cases d.status true p with
  | error e => rfl
  | ok node => cases node <;> rfl

/-! ### Changing the files -/

/-- Taking an entry away does not disturb hiding. -/
theorem unlink_hide (keys : Place → Bool) (d : Disk) (p : Path) :
    (d.hide keys).unlink p = (d.unlink p).map (hide keys) := by
  rw [unlink, unlink, locate_hide]
  cases d.locate false p with
  | error e => rfl
  | ok found =>
    obtain ⟨place, node⟩ := found
    have hdrop : (Disk.mk ((d.top.hide keys).drop place)) = hide keys ⟨d.top.drop place⟩ := by
      rw [drop_hide, hide]
    cases node with
    | file => exact congrArg Except.ok hdrop
    | link => exact congrArg Except.ok hdrop
    | folder => rfl

theorem removeTree_hide (keys : Place → Bool) (d : Disk) (p : Path) :
    (d.hide keys).removeTree p = (d.removeTree p).map (hide keys) := by
  rw [removeTree, removeTree, locate_hide]
  cases d.locate false p with
  | error e => rfl
  | ok found =>
    obtain ⟨place, node⟩ := found
    have hclear : (d.hide keys).top.clear place = (d.top.clear place).hide keys :=
      clear_hide keys d.top place
    have hlocate := locate_hide keys ⟨d.top.clear place⟩ false p
    rw [hide] at hlocate
    simp only [Except.map, bind, Except.bind, hclear, hlocate]
    cases Disk.locate ⟨d.top.clear place⟩ false p with
    | error e => rfl
    | ok found => exact congrArg (fun top => Except.ok (Disk.mk top)) (drop_hide keys _ place)

theorem makeFolder_hide (keys : Place → Bool) (d : Disk) (p : Path) :
    (d.hide keys).makeFolder p = (d.makeFolder p).map (hide keys) := by
  rw [makeFolder, makeFolder, aim_hide]
  cases d.aim false p with
  | error e => rfl
  | ok place =>
    simp only [hide, at?_hide, bind, Except.bind]
    cases at? place d.top with
    | some node => rfl
    | none =>
      exact congrArg (fun top => Except.ok (Disk.mk top)) (put_hide keys d.top place (.folder []))

theorem makeFoldersFrom_hide (keys : Place → Bool) (passed steps : List Component) (d : Disk) :
    makeFoldersFrom passed steps (d.hide keys) =
      (makeFoldersFrom passed steps d).map (hide keys) := by
  induction steps generalizing passed d with
  | nil => rfl
  | cons step steps ih =>
    rw [makeFoldersFrom, makeFoldersFrom, isFolder_hide, makeFolder_hide]
    split
    · exact ih _ d
    · cases d.makeFolder (Path.ofComponents (passed ++ [step])) with
      | error e => rfl
      | ok made => exact ih _ made

theorem makeFolders_hide (keys : Place → Bool) (d : Disk) (p : Path) :
    (d.hide keys).makeFolders p = (d.makeFolders p).map (hide keys) := by
  rw [makeFolders, makeFolders]
  split
  · rfl
  · exact makeFoldersFrom_hide keys [] p.components d

theorem foldersAbove_hide (keys : Place → Bool) (d : Disk) (p : Path) :
    (d.hide keys).foldersAbove p = (d.foldersAbove p).map (hide keys) := by
  rw [foldersAbove, foldersAbove]
  split
  · exact makeFolders_hide keys d _
  · rfl

theorem setMode_hide (keys : Place → Bool) (d : Disk) (p : Path) (mode : Nat) :
    (d.hide keys).setMode p mode = (d.setMode p mode).map (hide keys) := by
  rw [setMode, setMode, locate_hide]
  cases d.locate true p with
  | error e => rfl
  | ok found =>
    obtain ⟨place, node⟩ := found
    cases node with
    | link => rfl
    | folder => rfl
    | file old content =>
      exact congrArg (fun top => Except.ok (Disk.mk top))
        (put_hide keys d.top place (.file mode content))

/-! ### Writing what is hidden -/

/-- A path leads to a place that is hidden, if anywhere. -/
def AimsIn (keys : Place → Bool) (d : Disk) (p : Path) : Prop :=
  ∀ place, d.aim true p = .ok place → keys place = true

/-- What is written at a path, below folders that are made if they are missing, is hidden. -/
def WritesIn (keys : Place → Bool) (d : Disk) (p : Path) : Prop :=
  ∀ folders, d.foldersAbove p = .ok folders → folders.AimsIn keys p

instance (keys : Place → Bool) (d : Disk) (p : Path) : Decidable (d.AimsIn keys p) :=
  inferInstanceAs (Decidable (∀ place, d.aim true p = .ok place → keys place = true))

instance (keys : Place → Bool) (d : Disk) (p : Path) : Decidable (d.WritesIn keys p) :=
  inferInstanceAs (Decidable (∀ folders, d.foldersAbove p = .ok folders → folders.AimsIn keys p))

theorem hide_file {keys : Place → Bool} {place : Place} (h : keys place = true) (mode : Nat)
    (content : Content) :
    (Node.file mode content).hide (beneath keys place) = .file mode hiddenContent := by
  rw [Node.hide, beneath, List.append_nil, if_pos h]

/-- A hidden file may be written with anything. -/
theorem write_hide (h : d.AimsIn keys p) (content : Content) (mode : Nat) :
    (d.hide keys).write p hiddenContent mode = (d.write p content mode).map (hide keys) := by
  rw [write, write, aim_hide]
  cases haim : d.aim true p with
  | error e => rfl
  | ok place =>
    have hkey := h place haim
    have hput : ∀ kept, (d.top.hide keys).put place (.file kept hiddenContent) =
        (d.top.put place (.file kept content)).hide keys := by
      intro kept
      rw [← hide_file hkey kept content, put_hide]
    simp only [hide, at?_hide, bind, Except.bind]
    cases at? place d.top with
    | none => exact congrArg (fun top => Except.ok (Disk.mk top)) (hput mode)
    | some node =>
      cases node with
      | file old content' => exact congrArg (fun top => Except.ok (Disk.mk top)) (hput old)
      | link => rfl
      | folder => rfl

/-- A secret that is written where files are hidden does not show. -/
theorem writeOwnerOnly_hide (h : d.WritesIn keys p) (text : String) :
    (d.hide keys).writeOwnerOnly p "" = (d.writeOwnerOnly p text).hide keys := by
  rw [writeOwnerOnly_eq, writeOwnerOnly_eq, foldersAbove_hide]
  cases hfolders : d.foldersAbove p with
  | error e => rfl
  | ok folders =>
    have hwrite := write_hide (h folders hfolders) (.bytes text.toUTF8) ownerOnly
    have hempty : Content.bytes "".toUTF8 = hiddenContent := rfl
    simp only [Except.map, hempty, hwrite]
    cases folders.write p (.bytes text.toUTF8) ownerOnly with
    | error e => rfl
    | ok written =>
      simp only [Except.map, bind, Except.bind, setMode_hide]
      cases written.setMode p ownerOnly <;> rfl

end Disk

end Reclaim
