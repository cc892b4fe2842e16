import Reclaim.Authority.Elevator
import Reclaim.Proofs.Disk.Removal

/-!
# What forgetting a secret does to the disk

A secret that is forgotten is gone from memory, and the file that it was kept in is deleted: the one
entry that the path of the store leads to.  If that is a link, the link goes, and the file behind it
stays with all that was written through the link.  A folder at the path stays, and holds no secret.
A command with administrator rights leaves the files alone unless it makes the secret be forgotten.

## Main definitions

* `CredentialStore.DropsAt` : the entry that goes when the secret is forgotten.
* `Disk.IsLink` : a path is a link.

## Main results

* `CredentialStore.bareAt?_clear_eq_none_iff` : forgetting deletes the entry and nothing else.
* `CredentialStore.at?_clear_of_not_isLink`, `CredentialStore.at?_clear_of_isLink` : what becomes of
  the file that the path leads to.
* `CredentialStore.isFile_clear`, `CredentialStore.cached_opened_of_not_isFile` : afterwards the
  path of the store leads to no file, and a store that is opened there has no secret.
* `Elevator.run_disk` : the files after a command with administrator rights.
-/

namespace Reclaim

open Node

/-! ### The top of the tree -/

/-- What a successful computation has gone through. -/
theorem exists_ok_of_bind {ε α β : Type} {x : Except ε α} {f : α → Except ε β} {b : β}
    (h : x >>= f = .ok b) : ∃ a, x = .ok a ∧ f a = .ok b := by
  cases x with
  | error e => cases h
  | ok a => exact ⟨a, rfl, h⟩

/-- Changing the entries of a folder leaves the top what it is. -/
@[simp] theorem Node.isFolder_updateFolder (change : List (String × Node) → List (String × Node))
    (place : Place) (top : Node) : (updateFolder change place top).isFolder = top.isFolder := by
  cases place <;> cases top <;> rfl

theorem Node.isFolder_put {top node : Node} {place : Place} (htop : top.isFolder = true)
    (hplace : place ≠ []) : (top.put place node).isFolder = true := by
  rw [put, List.getLast?_eq_some_getLast hplace]
  simpa using htop

theorem Node.isFolder_drop {top : Node} (htop : top.isFolder = true) (place : Place) :
    (top.drop place).isFolder = true := by
  rw [drop]
  split
  · exact htop
  · simpa using htop

namespace Disk

variable {d d' : Disk} {p : Path}

/-- What is no folder is not the top. -/
theorem ne_nil_of_not_isFolder {place : Place} (htop : d.top.isFolder = true)
    (h : ∀ node, d.top.at? place = some node → node.isFolder = false) : place ≠ [] := by
  rintro rfl
  rw [h d.top rfl] at htop
  cases htop

theorem isFolder_write {content : Content} {mode : Nat} (htop : d.top.isFolder = true)
    (h : d.write p content mode = .ok d') : d'.top.isFolder = true := by
  obtain ⟨place, -, h⟩ := exists_ok_of_bind h
  cases hat : d.top.at? place with
  | none =>
    rw [hat] at h
    cases h
    exact Node.isFolder_put htop (ne_nil_of_not_isFolder htop (by simp [hat]))
  | some node =>
    rw [hat] at h
    cases node with
    | file mode' content' =>
      cases h
      exact Node.isFolder_put htop (ne_nil_of_not_isFolder htop (by simp [hat, Node.isFolder]))
    | link => cases h
    | folder => cases h

theorem isFolder_setMode {mode : Nat} (htop : d.top.isFolder = true)
    (h : d.setMode p mode = .ok d') : d'.top.isFolder = true := by
  obtain ⟨⟨place, node⟩, hlocate, h⟩ := exists_ok_of_bind h
  obtain ⟨-, hat⟩ := locate_eq_ok_iff.mp hlocate
  cases node with
  | file mode' content =>
    cases h
    exact Node.isFolder_put htop (ne_nil_of_not_isFolder htop (by simp [hat, Node.isFolder]))
  | link =>
    cases h
    exact htop
  | folder =>
    cases h
    exact htop

theorem isFolder_makeFolder (htop : d.top.isFolder = true) (h : d.makeFolder p = .ok d') :
    d'.top.isFolder = true := by
  obtain ⟨place, -, h⟩ := exists_ok_of_bind h
  cases hat : d.top.at? place with
  | none =>
    rw [hat] at h
    cases h
    exact Node.isFolder_put htop (ne_nil_of_not_isFolder htop (by simp [hat]))
  | some node =>
    rw [hat] at h
    cases h

theorem isFolder_makeFoldersFrom {passed steps : List Component} (htop : d.top.isFolder = true)
    (h : makeFoldersFrom passed steps d = .ok d') : d'.top.isFolder = true := by
  induction steps generalizing passed d with
  | nil =>
    cases h
    exact htop
  | cons step steps ih =>
    rw [makeFoldersFrom] at h
    split at h
    · exact ih htop h
    · obtain ⟨d'', hmade, h⟩ := exists_ok_of_bind h
      exact ih (isFolder_makeFolder htop hmade) h

/-- Writing a file leaves the top a folder. -/
theorem isFolder_writeOwnerOnly (htop : d.top.isFolder = true) (p : Path) (text : String) :
    (d.writeOwnerOnly p text).top.isFolder = true := by
  rw [writeOwnerOnly]
  split
  next => exact htop
  next d' hfolders =>
    have htop' : d'.top.isFolder = true := by
      split at hfolders
      next parent _ =>
        rw [makeFolders] at hfolders
        split at hfolders
        · cases hfolders
        · exact isFolder_makeFoldersFrom htop hfolders
      next =>
        cases hfolders
        exact htop
    split
    next => exact htop'
    next d'' hwrite =>
      obtain ⟨written, hwritten, hmode⟩ := exists_ok_of_bind hwrite
      exact isFolder_setMode (isFolder_write htop' hwritten) hmode

end Disk

/-! ### Forgetting the secret -/

/-- A path leads to a file or a link, which is removed, or nothing is removed. -/
theorem Disk.unlink_cases (d : Disk) (p : Path) :
    (∃ seen place node, d.Leads false p seen place ∧ d.top.at? place = some node ∧
      node.isFolder = false ∧ d.unlink p = .ok ⟨d.top.drop place⟩) ∨
    ∃ e, d.unlink p = .error e := by
  by_cases hreach : ∃ seen place, d.Leads false p seen place
  · obtain ⟨seen, place, hleads⟩ := hreach
    obtain ⟨node, hat⟩ := hleads.exists_at?
    have hlocate := hleads.locate_eq hat
    cases node with
    | folder entries =>
      exact .inr ⟨.system .isDirectory, by simp [unlink, hlocate, bind, Except.bind]⟩
    | file => exact .inl ⟨_, _, _, hleads, hat, rfl, by simp [unlink, hlocate, bind, Except.bind]⟩
    | link => exact .inl ⟨_, _, _, hleads, hat, rfl, by simp [unlink, hlocate, bind, Except.bind]⟩
  · obtain ⟨e, he⟩ := exists_locate_error hreach
    exact .inr ⟨e, by simp [unlink, he, bind, Except.bind]⟩

/-- The path is a link, wherever it leads. -/
def Disk.IsLink (d : Disk) (p : Path) : Prop :=
  ∃ place target, d.locate false p = .ok (place, .link target)

namespace CredentialStore

variable {store : CredentialStore} {d : Disk} {q : Place}

/-- The path of the store leads to the file or link at the place, which goes when the secret is
forgotten. -/
def DropsAt (store : CredentialStore) (d : Disk) (q : Place) : Prop :=
  ∃ seen node, d.Leads false store.path seen q ∧ d.top.at? q = some node ∧ node.isFolder = false

theorem isPartOf_clear (store : CredentialStore) (d : Disk) :
    IsPartOf (store.clear d).2.top d.top := by
  rw [clear]
  rcases d.unlink_cases store.path with ⟨seen, place, node, -, -, -, hok⟩ | ⟨e, he⟩
  · rw [hok]
    exact isPartOf_drop d.top place
  · rw [he]
    exact .refl _

/-- Forgetting the secret deletes its file and nothing else. -/
theorem bareAt?_clear_eq_none_iff (hq : q ≠ []) : (store.clear d).2.top.bareAt? q = none ↔
    d.top.bareAt? q = none ∨ store.DropsAt d q := by
  have hpart := store.isPartOf_clear d
  constructor
  · intro hnone
    by_contra hkept
    obtain ⟨hthere, hdrops⟩ := not_or.mp hkept
    rw [clear] at hnone
    rcases d.unlink_cases store.path with
      ⟨seen, place, node, hleads, hat, hnode, hok⟩ | ⟨e, he⟩
    · simp only [hok] at hnone
      by_cases hplace : place = []
      · subst hplace
        exact hthere hnone
      · rw [bareAt?_drop _ hplace] at hnone
        split at hnone
        next habove =>
          have hsame : place = q := by
            by_contra hne
            exact Disk.not_below_of_not_isFolder hat hnode hthere ⟨habove, hne⟩
          exact hdrops ⟨seen, node, hsame ▸ hleads, hsame ▸ hat, hnode⟩
        next => exact hthere hnone
    · simp only [he] at hnone
      exact hthere hnone
  · rintro (hnone | ⟨seen, node, hleads, hat, hnode⟩)
    · rcases hpart q with hnone' | hsame
      · exact hnone'
      · rw [hsame, hnone]
    · obtain ⟨d', hd', -, hgone⟩ := Disk.exists_unlink hleads hq hat hnode
      rw [clear, hd']
      exact hgone

/-- The file that the path of the store leads to goes if the path is no link. -/
theorem at?_clear_of_not_isLink {goal : Place} {mode : Nat} {content : Content}
    (htop : d.top.isFolder = true) (h : d.locate true store.path = .ok (goal, .file mode content))
    (hlink : ¬d.IsLink store.path) : (store.clear d).2.top.at? goal = none := by
  obtain ⟨⟨seen, hleads⟩, hat⟩ := Disk.locate_eq_ok_iff.mp h
  have hgoal : goal ≠ [] := Disk.ne_nil_of_not_isFolder htop (by simp [hat, Node.isFolder])
  obtain ⟨seen', place', hleads', rfl | ⟨target, htarget⟩⟩ := hleads.exists_unfollowed
  · exact bareAt?_eq_none_iff.mp
      ((bareAt?_clear_eq_none_iff hgoal).mpr (.inr ⟨seen', _, hleads', hat, rfl⟩))
  · exact absurd ⟨place', target, hleads'.locate_eq htarget⟩ hlink

/-- The file that the path of the store leads to stays if the path is a link. -/
theorem at?_clear_of_isLink {goal : Place} {mode : Nat} {content : Content}
    (htop : d.top.isFolder = true) (h : d.locate true store.path = .ok (goal, .file mode content))
    (hlink : d.IsLink store.path) :
    (store.clear d).2.top.at? goal = some (.file mode content) := by
  obtain ⟨-, hat⟩ := Disk.locate_eq_ok_iff.mp h
  have hgoal : goal ≠ [] := Disk.ne_nil_of_not_isFolder htop (by simp [hat, Node.isFolder])
  have hbare := (bareAt?_eq_some_iff rfl).mpr hat
  have hkept : (store.clear d).2.top.bareAt? goal ≠ none := by
    intro hnone
    rcases (bareAt?_clear_eq_none_iff hgoal).mp hnone with hfree | ⟨seen, node, hleads, hnode, -⟩
    · rw [hbare] at hfree
      cases hfree
    · obtain ⟨place, target, hlocate⟩ := hlink
      cases (hleads.locate_eq hnode).symm.trans hlocate
      cases hat.symm.trans hnode
  rw [← bareAt?_eq_some_iff rfl, (store.isPartOf_clear d).bareAt?_eq hkept, hbare]

/-- Forgetting the secret leaves nothing but folders at the entry of the store. -/
theorem isFolder_of_leads_clear {seen : List Place} {node : Node} (htop : d.top.isFolder = true)
    (hleads : (store.clear d).2.Leads false store.path seen q)
    (hat : (store.clear d).2.top.at? q = some node) : node.isFolder = true := by
  by_contra hnode
  rw [Bool.not_eq_true] at hnode
  have hpart := store.isPartOf_clear d
  have hshown := (bareAt?_eq_some_iff hnode).mpr hat
  have hthere : (store.clear d).2.top.bareAt? q ≠ none := by
    rw [hshown]
    exact Option.some_ne_none node
  have hold : d.top.at? q = some node := by
    rw [← bareAt?_eq_some_iff hnode, ← hpart.bareAt?_eq hthere, hshown]
  have hq : q ≠ [] := by
    rintro rfl
    rw [← Option.some.inj hold, htop] at hnode
    cases hnode
  exact hthere ((bareAt?_clear_eq_none_iff hq).mpr
    (.inr ⟨seen, node, hleads.of_isPartOf hpart, hold, hnode⟩))

/-- Forgetting the secret leaves the top a folder. -/
theorem isFolder_clear (store : CredentialStore) (htop : d.top.isFolder = true) :
    (store.clear d).2.top.isFolder = true := by
  rw [clear]
  rcases d.unlink_cases store.path with ⟨seen, place, node, -, -, -, hok⟩ | ⟨e, he⟩
  · rw [hok]
    exact Node.isFolder_drop htop place
  · rw [he]
    exact htop

theorem isFolder_set (store : CredentialStore) (c : Credential) (htop : d.top.isFolder = true) :
    (store.set c d).2.top.isFolder = true := by
  simp only [set, save]
  split
  · exact Disk.isFolder_writeOwnerOnly htop store.path c.secret
  · exact htop

/-- Afterwards the path of the store leads to no file. -/
theorem isFile_clear (store : CredentialStore) (htop : d.top.isFolder = true) :
    (store.clear d).2.isFile store.path = false := by
  rw [Disk.isFile]
  cases hstatus : (store.clear d).2.status true store.path with
  | error e => rfl
  | ok node =>
    obtain ⟨seen, place, hleads⟩ := Disk.isOk_status_iff.mp (by rw [hstatus]; rfl)
    obtain ⟨seen', place', hleads', rfl | ⟨target, htarget⟩⟩ := hleads.exists_unfollowed
    · obtain ⟨node', hat⟩ := hleads.exists_at?
      obtain rfl : node' = node := Except.ok.inj ((hleads.status_eq hat).symm.trans hstatus)
      have hfolder := isFolder_of_leads_clear htop hleads' hat
      cases node' with
      | folder entries => rfl
      | file => cases hfolder
      | link => cases hfolder
    · -- a link at the path would itself have gone
      cases isFolder_of_leads_clear htop hleads' htarget

/-- A store that is opened where no file is has no secret. -/
theorem cached_opened_of_not_isFile {path : Path} (h : d.isFile path = false) (persist : Bool) :
    (opened path persist d).cached = none := by
  have hunread : ∃ e, d.readText path = .error e := by
    rw [Disk.isFile] at h
    rw [Disk.readText, Disk.read]
    cases hstatus : d.status true path with
    | error e => exact ⟨e, rfl⟩
    | ok node =>
      rw [hstatus] at h
      cases node with
      | file => cases h
      | link => exact ⟨_, rfl⟩
      | folder => exact ⟨_, rfl⟩
  obtain ⟨e, he⟩ := hunread
  rw [opened, load, he]

end CredentialStore

/-! ### The disk after an elevation -/

namespace Executor

theorem run_disk (program : String) (arguments : List String) (m : Machine) :
    (run program arguments m).2.disk = m.disk := by
  rw [run_snd, m.launch_disk]

theorem runWithSecret_disk (x : Executor) (command secret : String) (m : Machine) :
    (x.runWithSecret command secret m).2.disk = m.disk := by
  rw [runWithSecret_snd, m.launch_disk]

end Executor

namespace Elevator

theorem settle_disk (result : Except ExecError Output) (s : Station) :
    (∃ error, (settle result s).1 = .error (.rejected error)) ∧
        (settle result s).2.disk = (s.store.clear s.disk).2 ∨
      (∀ error, (settle result s).1 ≠ .error (.rejected error)) ∧
        (settle result s).2.disk = s.disk := by
  match result with
  | .ok _ => exact .inr ⟨by simp [settle], rfl⟩
  | .error (.commandFailed text) => exact .inl ⟨⟨_, rfl⟩, rfl⟩
  | .error (.launchFailed ..) => exact .inr ⟨by simp [settle], rfl⟩

/-- A command with administrator rights leaves the files alone, unless it fails with a secret: then
the secret is forgotten. -/
theorem run_disk (e : Elevator) (command : String) (s : Station) :
    (∃ error, (e.run command s).1 = .error (.rejected error)) ∧
        (e.run command s).2.disk = (s.store.clear s.disk).2 ∨
      (∀ error, (e.run command s).1 ≠ .error (.rejected error)) ∧
        (e.run command s).2.disk = s.disk := by
  simp only [run]
  split
  next credential hcached =>
    have hdisk := e.executor.runWithSecret_disk command credential.secret s.machine
    have hsettle := settle_disk (e.executor.runWithSecret command credential.secret s.machine).1
      { s with machine := (e.executor.runWithSecret command credential.secret s.machine).2 }
    simp only [Station.disk] at hsettle ⊢
    rwa [hdisk] at hsettle
  next =>
    refine .inr ?_
    split
    · refine ⟨?_, Executor.run_disk ..⟩
      cases (e.executor.runWithConsent command s.machine).1 <;> simp [Except.mapError]
    · exact ⟨by simp, rfl⟩

end Elevator

end Reclaim
