import Reclaim.Proofs.Authority.Forgetting

/-!
# Writing a file and reading it back

A file is written where its path leads, which is the place of a file or a free place in a folder.
The path leads to the same place afterwards, since nothing else has changed, and so the file that is
read there is the one that was written, with the permissions that it was given last.  A write that
is refused leaves the path with the file that it led to before, if any.

## Main definitions

* `Node.Takes` : a file can be put at a place.
* `Disk.foldersAbove` : the disk with the folders above a path.
* `Disk.GrowsAt` : bytes have been written behind a file.
* `Disk.Accepts` : a file can be written at a path.

## Main results

* `Node.at?_put`, `Node.bareAt?_put_of_ne` : what is shown after an entry is put at a place.
* `Disk.locate_put` : a path leads to what was put where it led.
* `Disk.exists_locate_writeOwnerOnly`, `Disk.readText_writeOwnerOnly` : what is written is read.
* `Disk.writeOwnerOnly_of_not_accepts` : a refused write.
-/

namespace Reclaim

open Node

/-! ### Putting an entry at a place -/

namespace Node

variable {top node : Node} {front goal q : Place} {name : String} {entries : List (String × Node)}

theorem lookup_putEntry (name n : String) (node : Node) (entries : List (String × Node)) :
    (putEntry name node entries).lookup n = if n = name then some node else entries.lookup n := by
  induction entries with
  | nil => rw [putEntry, lookup_cons_eq]
  | cons entry entries ih =>
    obtain ⟨m, node'⟩ := entry
    rw [putEntry]
    by_cases hm : m = name
    · subst hm
      rw [if_pos rfl, lookup_cons_eq, lookup_cons_eq]
      by_cases hn : n = m <;> simp [hn]
    · rw [if_neg hm, lookup_cons_eq, ih, lookup_cons_eq]
      by_cases hn : n = m
      · subst hn
        simp [hm]
      · simp [hn]

/-- A file can be put at a place: its folder is there, and the place is free or has a file. -/
structure Takes (top : Node) (goal : Place) : Prop where
  folder : ∃ front name entries, goal = front ++ [name] ∧ at? front top = some (.folder entries)
  file : ∀ node, at? goal top = some node → node.isFile = true

theorem put_concat (top : Node) (front : Place) (name : String) (node : Node) :
    put top (front ++ [name]) node = updateFolder (putEntry name node) front top := by
  simp [put]

/-- At the place itself is what was put there. -/
theorem at?_put (h : top.Takes goal) (node : Node) : at? goal (top.put goal node) = some node := by
  obtain ⟨front, name, entries, rfl, hfolder⟩ := h.folder
  rw [put_concat, at?_updateFolder_append, hfolder]
  simp [updateFolder, at?, lookup_putEntry]

/-- Nothing is below a place that takes a file. -/
theorem Takes.bareAt?_below (h : top.Takes goal) {rest : Place} (hrest : rest ≠ []) :
    bareAt? top (goal ++ rest) = none := by
  rw [bareAt?_eq_none_iff]
  by_contra hthere
  obtain ⟨node, hnode⟩ := Option.ne_none_iff_exists'.mp hthere
  obtain ⟨entries, hentries⟩ := exists_folder_of_at?_append hrest hnode
  cases h.file _ hentries

/-- Everywhere else is what was there before. -/
theorem bareAt?_put_of_ne (h : top.Takes goal) (hnode : ∀ rest ≠ [], bareAt? node rest = none)
    (hq : q ≠ goal) : bareAt? (top.put goal node) q = bareAt? top q := by
  by_cases hbelow : goal <+: q
  · obtain ⟨rest, rfl⟩ := hbelow
    have hrest : rest ≠ [] := fun hnil => hq (by rw [hnil, List.append_nil])
    rw [bareAt?_append, at?_put h, h.bareAt?_below hrest]
    exact hnode rest hrest
  · obtain ⟨front, name, entries, rfl, hfolder⟩ := h.folder
    rw [put_concat]
    by_cases hfront : front <+: q
    · obtain ⟨rest, rfl⟩ := hfront
      rw [bareAt?_updateFolder_append, bareAt?_append, hfolder]
      cases rest with
      | nil => rfl
      | cons n rest =>
        have hn : n ≠ name := by
          rintro rfl
          exact hbelow ⟨rest, by simp⟩
        simp [updateFolder, bareAt?, at?, lookup_putEntry, hn]
    · exact bareAt?_updateFolder_beside _ _ hfront

theorem bareAt?_file_below (mode : Nat) (content : Content) {rest : Place} (h : rest ≠ []) :
    bareAt? (.file mode content) rest = none := by
  obtain ⟨name, rest, rfl⟩ := List.exists_cons_of_ne_nil h
  rfl

theorem bareAt?_emptyFolder_below {rest : Place} (h : rest ≠ []) :
    bareAt? (.folder []) rest = none := by
  obtain ⟨name, rest, rfl⟩ := List.exists_cons_of_ne_nil h
  rfl

/-- A folder that is made where nothing was leaves everything as it was. -/
theorem isPartOf_put_folder (h : top.Takes goal) (hfree : at? goal top = none) :
    IsPartOf top (top.put goal (.folder [])) := by
  intro q
  by_cases hq : q = goal
  · exact .inl (by rw [hq, bareAt?_eq_none_iff, hfree])
  · exact .inr (bareAt?_put_of_ne h (fun _ => bareAt?_emptyFolder_below) hq).symm

end Node

/-! ### Where a path leads after an entry is put there -/

namespace Disk

variable {top node : Node} {jump jump' : Place → List Step → Except Errno Place}
  {follow follow' : Bool} {place goal : Place} {steps : List Step} {links mode : Nat}
  {content : Content}

/-- A free place that a way leads to is in a folder, if links lead to none but such places. -/
theorem exists_folder_of_walk (hjump : ∀ place steps, jump place steps = .ok goal →
      at? place top ≠ none → ∃ front name entries,
        goal = front ++ [name] ∧ at? front top = some (.folder entries))
    (hfree : at? goal top = none) (hplace : at? place top ≠ none)
    (h : walk top jump follow place steps = .ok goal) : ∃ front name entries,
      goal = front ++ [name] ∧ at? front top = some (.folder entries) := by
  have hthere : ∀ {q : Place}, bareAt? top q ≠ none → at? q top ≠ none :=
    fun hq => mt bareAt?_eq_none_iff.mpr hq
  induction steps generalizing place with
  | nil =>
    cases h
    exact absurd hfree hplace
  | cons step steps ih =>
    obtain ⟨entries, hentries, hgoes⟩ := walk_cons_eq_ok_iff.mp h
    have hbare : bareAt? top place ≠ none := mt bareAt?_eq_none_iff.mp hplace
    cases hgoes with
    | here rest => exact ih hplace rest
    | up rest => exact ih (hthere (Way.bareAt?_dropLast_ne_none hbare)) rest
    | free short free ends => exact ⟨place, _, entries, ends, hentries⟩
    | stop short link unfollowed ends => exact ⟨place, _, entries, ends, hentries⟩
    | @jump name target ahead short link goesOn written rest =>
      have hlink : bareAt? top (place ++ [name]) ≠ none := by
        rw [bareAt?, at?_concat hentries, link]
        exact Option.some_ne_none _
      exact hjump _ _ rest (hthere (Way.bareAt?_linkStart_ne_none target hlink))
    | enter short entry real rest =>
      exact ih (by rw [at?_concat hentries, entry]; exact Option.some_ne_none _) rest

/-- A free place that a path leads to is in a folder. -/
theorem exists_folder_of_resolve (hfree : at? goal top = none) (hplace : at? place top ≠ none)
    (h : resolve top follow links place steps = .ok goal) : ∃ front name entries,
      goal = front ++ [name] ∧ at? front top = some (.folder entries) := by
  induction links generalizing place steps with
  | zero => exact exists_folder_of_walk (fun _ _ hjump => by cases hjump) hfree hplace h
  | succ links ih =>
    exact exists_folder_of_walk (fun _ _ hjump hplace => ih hplace hjump) hfree hplace h

/-- A walk leads where it led after a file or an empty folder is put there, and a final link may be
followed then, as there was none. -/
theorem walk_put (htakes : top.Takes goal) (hnode : ∀ rest ≠ [], bareAt? node rest = none)
    (hreal : ∀ target, node ≠ .link target) (hfollow : follow' = false → follow = false)
    (hjump : ∀ place steps, jump place steps = .ok goal → jump' place steps = .ok goal)
    (h : walk top jump follow place steps = .ok goal) :
    walk (top.put goal node) jump' follow' place steps = .ok goal := by
  have helsewhere : ∀ {q : Place}, q ≠ goal →
      bareAt? (top.put goal node) q = bareAt? top q :=
    bareAt?_put_of_ne htakes hnode
  induction steps generalizing place with
  | nil =>
    cases h
    rfl
  | cons step steps ih =>
    obtain ⟨entries, hentries, hgoes⟩ := walk_cons_eq_ok_iff.mp h
    have hne : place ≠ goal := by
      rintro rfl
      cases htakes.file _ hentries
    obtain ⟨entries', hentries'⟩ := bareAt?_eq_folder_iff.mp
      ((helsewhere hne).trans (bareAt?_eq_folder_iff.mpr ⟨entries, hentries⟩))
    refine walk_cons_eq_ok_iff.mpr ⟨entries', hentries', ?_⟩
    have hlink : ∀ {name target : String}, entries.lookup name = some (.link target) →
        entries'.lookup name = some (.link target) := by
      intro name target hlookup
      have hname : place ++ [name] ≠ goal := by
        rintro rfl
        cases htakes.file _ ((at?_concat hentries name).trans hlookup)
      have hbare : bareAt? (top.put goal node) (place ++ [name]) = some (.link target) := by
        rw [helsewhere hname, bareAt?, at?_concat hentries, hlookup]
        rfl
      rwa [bareAt?_eq_some_iff rfl, at?_concat hentries'] at hbare
    cases hgoes with
    | here rest => exact .here (ih rest)
    | up rest => exact .up (ih rest)
    | free short free ends =>
      subst ends
      have hfound := at?_put htakes node
      rw [at?_concat hentries'] at hfound
      exact .enter short hfound hreal rfl
    | stop short link unfollowed ends =>
      subst ends
      cases htakes.file _ ((at?_concat hentries _).trans link)
    | jump short link goesOn written rest =>
      exact .jump short (hlink link) (fun hstop => goesOn ⟨hstop.1, hfollow hstop.2⟩) written
        (hjump _ _ rest)
    | @enter name node' ahead short entry real rest =>
      have hreal' : ∃ node'', entries'.lookup name = some node'' ∧
          ∀ target, node'' ≠ .link target := by
        rw [← at?_concat hentries']
        by_cases hname : place ++ [name] = goal
        · rw [hname]
          exact ⟨_, at?_put htakes _, hreal⟩
        · have hbare := helsewhere hname
          rw [bareAt?, bareAt?, at?_concat hentries, entry] at hbare
          obtain ⟨node'', hnode'', hsame⟩ := Option.map_eq_some_iff.mp hbare
          refine ⟨node'', hnode'', ?_⟩
          rintro target rfl
          cases node' with
          | link target' => exact real target' rfl
          | file => cases hsame
          | folder => cases hsame
      obtain ⟨node'', hlookup, hreal'⟩ := hreal'
      exact .enter short hlookup hreal' (ih rest)

/-- A path leads where it led after a file or an empty folder is put there. -/
theorem resolve_put (htakes : top.Takes goal) (hnode : ∀ rest ≠ [], bareAt? node rest = none)
    (hreal : ∀ target, node ≠ .link target) (hfollow : follow' = false → follow = false)
    (h : resolve top follow links place steps = .ok goal) :
    resolve (top.put goal node) follow' links place steps = .ok goal := by
  induction links generalizing place steps with
  | zero => exact walk_put htakes hnode hreal hfollow (fun _ _ hjump => by cases hjump) h
  | succ links ih => exact walk_put htakes hnode hreal hfollow (fun _ _ => ih) h

/-! ### Calls that write -/

variable {d d' : Disk} {p : Path} {text : String}

/-- Where a path leads, a file can be put if nothing else is there. -/
theorem takes_of_aim (htop : d.top.isFolder = true) (h : d.aim follow p = .ok goal)
    (hfile : ∀ node, d.top.at? goal = some node → node.isFile = true) : d.top.Takes goal := by
  refine ⟨?_, hfile⟩
  rw [aim_of_isUsable (isUsable_of_aim h)] at h
  cases hresolve : resolve d.top follow linkLimit [] p.steps with
  | error e => rw [hresolve] at h; cases h
  | ok found =>
    rw [hresolve] at h
    cases h
    cases hat : d.top.at? goal with
    | none =>
      have hstart : at? [] d.top ≠ none := Option.some_ne_none d.top
      exact exists_folder_of_resolve hat hstart hresolve
    | some node =>
      have hgoal : goal ≠ [] := by
        rintro rfl
        have hnode := hfile node hat
        rw [← Option.some.inj hat] at hnode
        cases htopnode : d.top with
        | folder => rw [htopnode] at hnode; cases hnode
        | file => rw [htopnode] at htop; cases htop
        | link => rw [htopnode] at htop; cases htop
      obtain ⟨front, name, rfl⟩ := goal.eq_nil_or_concat'.resolve_left hgoal
      obtain ⟨entries, hentries⟩ := exists_folder_of_at?_append (List.cons_ne_nil name []) hat
      exact ⟨front, name, entries, rfl, hentries⟩

/-- A path leads to what is put where it led. -/
theorem locate_put (htakes : d.top.Takes goal) (hnode : ∀ rest ≠ [], bareAt? node rest = none)
    (hreal : ∀ target, node ≠ .link target) (hfollow : follow' = false → follow = false)
    (h : d.aim follow p = .ok goal) :
    Disk.locate ⟨d.top.put goal node⟩ follow' p = .ok (goal, node) := by
  have husable := isUsable_of_aim h
  have haim : Disk.aim ⟨d.top.put goal node⟩ follow' p = .ok goal := by
    rw [aim_of_isUsable husable] at h ⊢
    cases hresolve : resolve d.top follow linkLimit [] p.steps with
    | error e => rw [hresolve] at h; cases h
    | ok found =>
      rw [hresolve] at h
      cases h
      rw [resolve_put htakes hnode hreal hfollow hresolve]
      rfl
  rw [locate, haim]
  simp [bind, Except.bind, at?_put htakes]

/-- A path leads to the file that is put where it led. -/
theorem locate_put_file (htakes : d.top.Takes goal) (h : d.aim follow p = .ok goal) :
    Disk.locate ⟨d.top.put goal (.file mode content)⟩ follow p =
      .ok (goal, .file mode content) :=
  locate_put htakes (fun _ => bareAt?_file_below mode content) (fun _ => Node.noConfusion) id h

/-- A write leaves a file where the path leads. -/
theorem exists_locate_write (htop : d.top.isFolder = true) (h : d.write p content mode = .ok d') :
    ∃ place kept, d'.locate true p = .ok (place, .file kept content) := by
  obtain ⟨place, haim, h⟩ := exists_ok_of_bind h
  have htakes : (∀ node, d.top.at? place = some node → node.isFile = true) → d.top.Takes place :=
    takes_of_aim htop haim
  cases hat : d.top.at? place with
  | none =>
    rw [hat] at h
    cases h
    exact ⟨place, mode, locate_put_file (htakes (by simp [hat])) haim⟩
  | some node =>
    rw [hat] at h
    cases node with
    | file old content' =>
      cases h
      exact ⟨place, old, locate_put_file (htakes (by simp [hat, Node.isFile])) haim⟩
    | link => cases h
    | folder => cases h

/-- Bytes stand behind the content of the file that a path leads to, or in a new file there, and
nothing else has changed. -/
structure GrowsAt (d d' : Disk) (p : Path) (more : ByteArray) (place : Place) : Prop where
  aimed : d.aim true p = .ok place
  written : d.top.at? place = none ∧ d'.top.at? place = some (.file fileMode (.bytes more)) ∨
    ∃ mode content, d.top.at? place = some (.file mode content) ∧
      d'.top.at? place = some (.file mode (content.followedBy more))
  elsewhere : ∀ q ≠ place, d'.top.bareAt? q = d.top.bareAt? q

/-- Bytes that are written behind a file are there, and nothing else has changed. -/
theorem exists_growsAt_append {more : ByteArray} (htop : d.top.isFolder = true)
    (h : d.append p more = .ok d') : ∃ place, d.GrowsAt d' p more place := by
  obtain ⟨place, haim, h⟩ := exists_ok_of_bind h
  have htakes : (∀ node, d.top.at? place = some node → node.isFile = true) → d.top.Takes place :=
    takes_of_aim htop haim
  cases hat : d.top.at? place with
  | none =>
    rw [hat] at h
    cases h
    have hfree := htakes (by simp [hat])
    exact ⟨place, haim, .inl ⟨hat, at?_put hfree _⟩,
      fun q => bareAt?_put_of_ne hfree fun _ => bareAt?_file_below _ _⟩
  | some node =>
    rw [hat] at h
    cases node with
    | file old content =>
      cases h
      have hfile := htakes (by simp [hat, Node.isFile])
      exact ⟨place, haim, .inr ⟨old, content, hat, at?_put hfile _⟩,
        fun q => bareAt?_put_of_ne hfile fun _ => bareAt?_file_below _ _⟩
    | link => cases h
    | folder => cases h

theorem followedBy_empty (content : Content) : content.followedBy .empty = content := by
  cases content with
  | bytes data => exact congrArg Content.bytes (ByteArray.append_empty ..)
  | script program => rfl

/-- Nothing is lost where no bytes are written. -/
theorem GrowsAt.isPartOf {place : Place} (h : d.GrowsAt d' p .empty place) :
    IsPartOf d.top d'.top := by
  intro q
  by_cases hq : q = place
  · subst hq
    rcases h.written with ⟨hfree, -⟩ | ⟨mode, content, hfile, hfile'⟩
    · exact .inl (bareAt?_eq_none_iff.mpr hfree)
    · rw [followedBy_empty] at hfile'
      exact .inr (by rw [bareAt?, bareAt?, hfile, hfile'])
  · exact .inr (h.elsewhere q hq).symm

/-- A path that leads to a file can be written. -/
theorem exists_write_of_isFile (h : d.isFile p = true) (content : Content) (mode : Nat) :
    ∃ d', d.write p content mode = .ok d' := by
  rw [isFile] at h
  cases hlocate : d.locate true p with
  | error e => simp [status, hlocate, Except.map] at h
  | ok found =>
    obtain ⟨place, haim, hnode⟩ := exists_ok_of_bind hlocate
    obtain ⟨place', node⟩ := found
    simp only [status, hlocate, Except.map] at h
    cases hat : d.top.at? place with
    | none => rw [hat] at hnode; cases hnode
    | some node' =>
      rw [hat] at hnode
      cases hnode
      cases node with
      | file old content' =>
        exact ⟨⟨d.top.put place (.file old content)⟩, by simp [write, haim, bind, Except.bind, hat]⟩
      | link => cases h
      | folder => cases h

/-- The file that a path leads to can be given other permissions, and it is still there. -/
theorem exists_setMode (htop : d.top.isFolder = true) {place : Place} {old : Nat}
    (h : d.locate true p = .ok (place, .file old content)) (mode : Nat) :
    ∃ d', d.setMode p mode = .ok d' ∧ d'.locate true p = .ok (place, .file mode content) := by
  obtain ⟨found, haim, hnode⟩ := exists_ok_of_bind h
  refine ⟨⟨d.top.put place (.file mode content)⟩, by simp [setMode, h, bind, Except.bind], ?_⟩
  cases hat : d.top.at? found with
  | none => rw [hat] at hnode; cases hnode
  | some node =>
    rw [hat] at hnode
    cases hnode
    exact locate_put_file (takes_of_aim htop haim (by simp [hat, Node.isFile])) haim

/-- A file that holds a text is read as that text. -/
theorem readText_of_locate {place : Place}
    (h : d.locate true p = .ok (place, .file mode (.bytes text.toUTF8))) :
    d.readText p = .ok text := by
  have hdecode : String.fromUTF8? text.toUTF8 = some text := dif_pos text.isValidUTF8
  have hread : d.read p = .ok text.toUTF8 := by
    simp only [read, status, h, Except.map, bind, Except.bind]
  simp only [readText, hread, bind, Except.bind, hdecode]

theorem modeOf?_of_locate {place : Place} (h : d.locate true p = .ok (place, .file mode content)) :
    d.modeOf? p = some mode := by
  simp [modeOf?, status, h, Except.map]

/-! ### Folders that are made -/

/-- A path that leads to anything but a folder does so in every tree that this one is part of. -/
theorem locate_of_isPartOf (hpart : IsPartOf d.top d'.top) {place : Place}
    (hnode : node.isFolder = false) (h : d.locate true p = .ok (place, node)) :
    d'.locate true p = .ok (place, node) := by
  obtain ⟨⟨seen, hleads⟩, hat⟩ := locate_eq_ok_iff.mp h
  have hbare := (bareAt?_eq_some_iff hnode).mpr hat
  rw [hpart.bareAt?_eq (by simp [hbare]), bareAt?_eq_some_iff hnode] at hbare
  exact locate_eq_ok_iff.mpr ⟨⟨seen, hleads.of_isPartOf hpart⟩, hbare⟩

theorem isFile_of_isPartOf (hpart : IsPartOf d.top d'.top) (h : d.isFile p = true) :
    d'.isFile p = true := by
  rw [isFile] at h
  cases hlocate : d.locate true p with
  | error e => simp [status, hlocate, Except.map] at h
  | ok found =>
    obtain ⟨place, node⟩ := found
    simp only [status, hlocate, Except.map] at h
    cases node with
    | file old content' =>
      rw [isFile, status, locate_of_isPartOf hpart rfl hlocate]
      rfl
    | link => cases h
    | folder => cases h

/-- A file that can be read is read in the same way in every tree that this one is part of. -/
theorem read_of_isPartOf (hpart : IsPartOf d.top d'.top) {bytes : ByteArray}
    (h : d.read p = .ok bytes) : d'.read p = .ok bytes := by
  cases hlocate : d.locate true p with
  | error e => simp [read, status, hlocate, Except.map, bind, Except.bind] at h
  | ok found =>
    obtain ⟨place, node⟩ := found
    have hnode : node.isFolder = false := by
      cases node with
      | folder entries => simp [read, status, hlocate, Except.map, bind, Except.bind] at h
      | file => rfl
      | link => rfl
    rw [← h, read, read, status, status, locate_of_isPartOf hpart hnode hlocate, hlocate]

theorem readText_of_isPartOf (hpart : IsPartOf d.top d'.top) (h : d.readText p = .ok text) :
    d'.readText p = .ok text := by
  rw [readText] at h ⊢
  obtain ⟨bytes, hbytes, h⟩ := exists_ok_of_bind h
  rw [read_of_isPartOf hpart hbytes]
  exact h

theorem isPartOf_makeFolder (htop : d.top.isFolder = true) (h : d.makeFolder p = .ok d') :
    IsPartOf d.top d'.top := by
  obtain ⟨place, haim, h⟩ := exists_ok_of_bind h
  cases hat : d.top.at? place with
  | none =>
    rw [hat] at h
    cases h
    exact isPartOf_put_folder (takes_of_aim htop haim (by simp [hat])) hat
  | some node =>
    rw [hat] at h
    cases h

theorem isPartOf_makeFoldersFrom {passed steps : List Component} (htop : d.top.isFolder = true)
    (h : makeFoldersFrom passed steps d = .ok d') : IsPartOf d.top d'.top := by
  induction steps generalizing passed d with
  | nil =>
    cases h
    exact .refl _
  | cons step steps ih =>
    rw [makeFoldersFrom] at h
    split at h
    · exact ih htop h
    · obtain ⟨made, hmade, h⟩ := exists_ok_of_bind h
      exact (isPartOf_makeFolder htop hmade).trans (ih (isFolder_makeFolder htop hmade) h)

/-- The disk with the folders above a path. -/
def foldersAbove (d : Disk) (p : Path) : Except FileError Disk :=
  match p.parent? with
  | some parent => d.makeFolders parent
  | none => .ok d

theorem isFolder_foldersAbove (htop : d.top.isFolder = true) (h : d.foldersAbove p = .ok d') :
    d'.top.isFolder = true := by
  rw [foldersAbove] at h
  split at h
  · rw [makeFolders] at h
    split at h
    · cases h
    · exact isFolder_makeFoldersFrom htop h
  · cases h
    exact htop

/-- Making folders leaves everything else as it was. -/
theorem isPartOf_foldersAbove (htop : d.top.isFolder = true) (h : d.foldersAbove p = .ok d') :
    IsPartOf d.top d'.top := by
  rw [foldersAbove] at h
  split at h
  · rw [makeFolders] at h
    split at h
    · cases h
    · exact isPartOf_makeFoldersFrom htop h
  · cases h
    exact .refl _

/-! ### A file that only its owner can read -/

/-- A text can be written at a path: the folders above are there or can be made, and the path leads
to a file or to a free place then. -/
def Accepts (d : Disk) (p : Path) (text : String) : Prop :=
  (d.foldersAbove p >>= (·.write p (.bytes text.toUTF8) ownerOnly)).isOk = true

instance (d : Disk) (p : Path) (text : String) : Decidable (d.Accepts p text) :=
  inferInstanceAs (Decidable (_ = true))

theorem accepts_iff : d.Accepts p text ↔ ∃ folders written, d.foldersAbove p = .ok folders ∧
    folders.write p (.bytes text.toUTF8) ownerOnly = .ok written := by
  constructor
  · intro h
    rw [Accepts] at h
    cases hall : d.foldersAbove p >>= (·.write p (.bytes text.toUTF8) ownerOnly) with
    | error e => rw [hall] at h; cases h
    | ok written =>
      obtain ⟨folders, hfolders, hwrite⟩ := exists_ok_of_bind hall
      exact ⟨folders, written, hfolders, hwrite⟩
  · rintro ⟨folders, written, hfolders, hwrite⟩
    simp only [Accepts, hfolders, bind, Except.bind, hwrite]
    rfl

theorem writeOwnerOnly_eq (d : Disk) (p : Path) (text : String) :
    d.writeOwnerOnly p text = match d.foldersAbove p with
      | .error _ => d
      | .ok folders =>
        match folders.write p (.bytes text.toUTF8) ownerOnly >>= (·.setMode p ownerOnly) with
        | .error _ => folders
        | .ok written => written :=
  rfl

/-- After a write the path leads to the file, with the permissions of its owner only. -/
theorem exists_locate_writeOwnerOnly (htop : d.top.isFolder = true) (h : d.Accepts p text) :
    ∃ place, (d.writeOwnerOnly p text).locate true p =
      .ok (place, .file ownerOnly (.bytes text.toUTF8)) := by
  obtain ⟨folders, written, hfolders, hwrite⟩ := accepts_iff.mp h
  have htop' := isFolder_foldersAbove htop hfolders
  obtain ⟨place, kept, hlocate⟩ := exists_locate_write htop' hwrite
  obtain ⟨d', hmode, hlocate'⟩ := exists_setMode (isFolder_write htop' hwrite) hlocate ownerOnly
  refine ⟨place, ?_⟩
  rw [writeOwnerOnly_eq, hfolders]
  simp only [hwrite, bind, Except.bind, hmode, hlocate']

/-- What is written is read. -/
theorem readText_writeOwnerOnly (htop : d.top.isFolder = true) (h : d.Accepts p text) :
    (d.writeOwnerOnly p text).readText p = .ok text := by
  obtain ⟨place, hlocate⟩ := exists_locate_writeOwnerOnly htop h
  exact readText_of_locate hlocate

theorem modeOf?_writeOwnerOnly (htop : d.top.isFolder = true) (h : d.Accepts p text) :
    (d.writeOwnerOnly p text).modeOf? p = some ownerOnly := by
  obtain ⟨place, hlocate⟩ := exists_locate_writeOwnerOnly htop h
  exact modeOf?_of_locate hlocate

/-- A write that is refused leaves the path without a file or with all as it was. -/
theorem writeOwnerOnly_of_not_accepts (htop : d.top.isFolder = true) (h : ¬d.Accepts p text) :
    d.writeOwnerOnly p text = d ∨
      d.isFile p = false ∧ (d.writeOwnerOnly p text).isFile p = false := by
  cases hfolders : d.foldersAbove p with
  | error e => exact .inl (by rw [writeOwnerOnly_eq, hfolders])
  | ok folders =>
    have hrefused : ∀ written, folders.write p (.bytes text.toUTF8) ownerOnly ≠ .ok written :=
      fun written hwrite => h (accepts_iff.mpr ⟨folders, written, hfolders, hwrite⟩)
    have hnofile : folders.isFile p = false := by
      by_contra hfile
      obtain ⟨written, hwrite⟩ := exists_write_of_isFile (Bool.not_eq_false _ ▸ hfile)
        (.bytes text.toUTF8) ownerOnly
      exact hrefused written hwrite
    have hbefore : d.isFile p = false := by
      by_contra hfile
      have hfile' := isFile_of_isPartOf (isPartOf_foldersAbove htop hfolders)
        (Bool.not_eq_false _ ▸ hfile)
      rw [hnofile] at hfile'
      cases hfile'
    refine .inr ⟨hbefore, ?_⟩
    rw [writeOwnerOnly_eq, hfolders]
    cases hwrite : folders.write p (.bytes text.toUTF8) ownerOnly with
    | ok written => exact absurd hwrite (hrefused written)
    | error e => simpa only [hwrite, bind, Except.bind] using hnofile

end Disk

end Reclaim
