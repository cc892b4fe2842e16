import Reclaim.Proofs.CommandLine.Looking
import Reclaim.Proofs.Toml.Lines
import Reclaim.Proofs.Toml.Numbers

/-!
# Settings are read as they were written

The file of the settings has a line for each of them.  If a line is left out, the setting is the
usual one, and all others are as they were.  The numbers of a file have a sign and 64 bits, while
those of the settings have 64 bits without one, so that some settings cannot be written.  But no
file gives such settings.

## Main definitions

* `Config.Fits` : the numbers of the settings can be written.
* `Config.partialText?` : the file with some of the keys only.
* `Config.restrict` : the settings with some of them as usual.

## Main results

* `Config.written?_eq`, `Config.written?_eq_none` : which settings can be written.
* `Config.ofText?_of_partialText?`, `Config.ofText?_of_text?` : what is written is read.
* `Config.fits_of_ofText?` : the settings of a file can be written.
* `Config.load_save`, `Config.save_of_not_fits` : the settings on disk.
* `Config.perform_configShow`, `Config.run_configShow` : the settings of a file are shown.
* `Config.roundTrip` : settings are read as they were written.
-/

namespace Reclaim

namespace Config

open Toml

/-- The numbers of the settings fit into 64 bits with a sign. -/
def Fits (c : Config) : Prop :=
  c.progressEvery < Nat.pow 2 63 ∧ c.minCleanMillis < Nat.pow 2 63 ∧
    c.removalPauseMillis < Nat.pow 2 63 ∧ c.stepPauseMillis < Nat.pow 2 63

/-- What is written for the values of the settings, in the order of the keys. -/
def written? (c : Config) : Option (List String) := do
  return [
    ← writtenNumber? c.progressEvery,
    ← writtenNumber? c.minCleanMillis,
    ← writtenNumber? c.removalPauseMillis,
    ← writtenNumber? c.stepPauseMillis,
    Toml.written c.applicationsDir.text,
    writtenSwitch c.persistCredential,
    writtenSwitch c.consentFallback,
    writtenSwitch c.logToFile,
    Toml.writtenList (c.extraUserPaths.map Path.text)]

/-- The settings as a file with some of the keys only. -/
def partialText? (c : Config) (keep : String → Bool) : Option String :=
  c.written?.map fun values =>
    String.join (((keys.zip values).filter fun field => keep field.1).map fun field =>
      Toml.line field.1 field.2)

example : partialText? {} (· == "log_to_file") = some "log_to_file = false\n" := by
  decide +kernel

/-- The settings with the usual ones in the place of those that are not wanted. -/
def restrict (c : Config) (keep : String → Bool) : Config :=
  let usual : Config := {}
  { progressEvery := if keep "progress_every" then c.progressEvery else usual.progressEvery
    minCleanMillis := if keep "min_clean_millis" then c.minCleanMillis else usual.minCleanMillis
    removalPauseMillis :=
      if keep "removal_pacing_millis" then c.removalPauseMillis else usual.removalPauseMillis
    stepPauseMillis :=
      if keep "step_pacing_millis" then c.stepPauseMillis else usual.stepPauseMillis
    applicationsDir := if keep "applications_dir" then c.applicationsDir else usual.applicationsDir
    persistCredential :=
      if keep "persist_credential" then c.persistCredential else usual.persistCredential
    consentFallback :=
      if keep "native_prompt_fallback" then c.consentFallback else usual.consentFallback
    logToFile := if keep "log_to_file" then c.logToFile else usual.logToFile
    extraUserPaths := if keep "extra_user_paths" then c.extraUserPaths else usual.extraUserPaths }

variable {c : Config} {keep : String → Bool}

theorem restrict_all (c : Config) : (c.restrict fun _ => true) = c :=
  rfl

theorem text?_eq_map (c : Config) : c.text? =
    c.written?.map fun values => String.join (List.zipWith Toml.line keys values) := by
  rw [text?, written?]
  cases writtenNumber? c.progressEvery <;> cases writtenNumber? c.minCleanMillis <;>
    cases writtenNumber? c.removalPauseMillis <;> cases writtenNumber? c.stepPauseMillis <;> rfl

/-- The file with all keys is the whole file. -/
theorem partialText?_all (c : Config) : (c.partialText? fun _ => true) = c.text? := by
  rw [text?_eq_map, partialText?]
  simp only [List.filter_true, List.map_zip_eq_zipWith]
  rfl

/-! ### Which settings can be written -/

/-- The fields of the settings. -/
def fields (c : Config) : List Field := [
  ⟨"progress_every", Decimal.natural c.progressEvery, .integer c.progressEvery⟩,
  ⟨"min_clean_millis", Decimal.natural c.minCleanMillis, .integer c.minCleanMillis⟩,
  ⟨"removal_pacing_millis", Decimal.natural c.removalPauseMillis, .integer c.removalPauseMillis⟩,
  ⟨"step_pacing_millis", Decimal.natural c.stepPauseMillis, .integer c.stepPauseMillis⟩,
  ⟨"applications_dir", Toml.written c.applicationsDir.text, .text c.applicationsDir.text⟩,
  ⟨"persist_credential", writtenSwitch c.persistCredential, .boolean c.persistCredential⟩,
  ⟨"native_prompt_fallback", writtenSwitch c.consentFallback, .boolean c.consentFallback⟩,
  ⟨"log_to_file", writtenSwitch c.logToFile, .boolean c.logToFile⟩,
  ⟨"extra_user_paths", Toml.writtenList (c.extraUserPaths.map Path.text),
    .array ((c.extraUserPaths.map Path.text).map .text)⟩]

theorem bare_keys : ∀ key ∈ keys, key.toList ≠ [] ∧ ∀ c ∈ key.toList, isKeyChar c = true := by
  have hkeys : keys.all (fun key => !key.toList.isEmpty && key.toList.all isKeyChar) = true := by
    rfl
  simpa [List.all_eq_true] using hkeys

/-- What is written for each of the settings is read back. -/
theorem isSound_of_mem_fields (h : c.Fits) {f : Field} (hf : f ∈ c.fields) : f.IsSound := by
  obtain ⟨hprogress, hclean, hremoval, hstep⟩ := h
  have hwrites : ∀ f ∈ c.fields, Writes f.written f.entry := by
    simp only [fields, List.forall_mem_cons]
    exact ⟨writes_number hprogress, writes_number hclean, writes_number hremoval,
      writes_number hstep, writes_text _, writes_switch _, writes_switch _, writes_switch _,
      writes_list _, fun _ hf => by cases hf⟩
  have hkey : f.key ∈ c.fields.map Field.key := List.mem_map_of_mem hf
  exact ⟨bare_keys f.key hkey, hwrites f hf⟩

theorem nodup_keys : keys.Nodup := by
  decide

theorem written?_eq (h : c.Fits) : c.written? = some (c.fields.map Field.written) := by
  obtain ⟨hprogress, hclean, hremoval, hstep⟩ := h
  simp only [written?, writtenNumber?, if_pos hprogress, if_pos hclean, if_pos hremoval,
    if_pos hstep]
  rfl

theorem lt_of_writtenNumber? {n : Nat} {text : String} (h : writtenNumber? n = some text) :
    n < Nat.pow 2 63 := by
  rw [writtenNumber?] at h
  split at h
  next hn => exact hn
  next => cases h

/-- Settings with a larger number cannot be written. -/
theorem written?_eq_none (h : ¬c.Fits) : c.written? = none := by
  rw [Option.eq_none_iff_forall_ne_some]
  intro values hvalues
  simp only [written?, Option.bind_eq_bind, Option.bind_eq_some_iff] at hvalues
  obtain ⟨_, hprogress, _, hclean, _, hremoval, _, hstep, -⟩ := hvalues
  exact h ⟨lt_of_writtenNumber? hprogress, lt_of_writtenNumber? hclean,
    lt_of_writtenNumber? hremoval, lt_of_writtenNumber? hstep⟩

theorem text?_eq_none (h : ¬c.Fits) : c.text? = none := by
  rw [text?_eq_map, written?_eq_none h]
  rfl

/-- The file with some of the keys has the lines of their fields. -/
theorem partialText?_eq (h : c.Fits) (keep : String → Bool) : c.partialText? keep =
    some (String.join ((c.fields.filter fun f => keep f.key).map Field.line)) := by
  have hzip : keys.zip (c.fields.map Field.written) =
      c.fields.map fun f => (f.key, f.written) := rfl
  rw [partialText?, written?_eq h, Option.map_some, hzip, List.filter_map, List.map_map]
  rfl

/-! ### Reading the file -/

theorem lookup_filter (fields : Toml.Fields) (keep : String → Bool) (key : String) :
    (fields.filter fun field => keep field.1).lookup key =
      if keep key then fields.lookup key else none := by
  induction fields with
  | nil => simp
  | cons field fields ih =>
    obtain ⟨name, entry⟩ := field
    cases hname : key == name with
    | true =>
      obtain rfl := eq_of_beq hname
      cases hkeep : keep key with
      | true => simp [hkeep]
      | false => simpa [List.filter_cons, hkeep] using ih
    | false =>
      rw [List.filter_cons, List.lookup_cons, hname]
      split
      · rw [List.lookup_cons, hname, ih]
      · exact ih

/-- The values of the settings under their keys. -/
def entries (c : Config) : Toml.Fields :=
  c.fields.map fun f => (f.key, f.entry)

theorem mapM_pathOfEntry? (paths : List Path) :
    ((paths.map Path.text).map Entry.text).mapM pathOfEntry? = some paths := by
  induction paths with
  | nil => rfl
  | cons p paths ih =>
    rw [List.map_cons, List.map_cons, List.mapM_cons, ih]
    rfl

section Fields

variable {fields : Toml.Fields} {key : String} {wanted : Bool}

/-! A setting that is not there is the usual one. -/

theorem numberField?_of_lookup {n usual : Nat}
    (h : fields.lookup key = if wanted then some (.integer n) else none) :
    numberField? fields key usual = some (if wanted then n else usual) := by
  rw [numberField?, h]
  cases wanted with
  | false => rfl
  | true =>
    simp only [if_true]
    rw [if_pos (Int.natCast_nonneg n), Int.toNat_natCast]

theorem switchField?_of_lookup {b usual : Bool}
    (h : fields.lookup key = if wanted then some (.boolean b) else none) :
    switchField? fields key usual = some (if wanted then b else usual) := by
  rw [switchField?, h]
  cases wanted with
  | false => rfl
  | true => rfl

theorem pathField?_of_lookup {p usual : Path}
    (h : fields.lookup key = if wanted then some (.text p.text) else none) :
    pathField? fields key usual = some (if wanted then p else usual) := by
  rw [pathField?, h]
  cases wanted with
  | false => rfl
  | true => rfl

theorem pathsField?_of_lookup {paths usual : List Path}
    (h : fields.lookup key =
      if wanted then some (.array ((paths.map Path.text).map .text)) else none) :
    pathsField? fields key usual = some (if wanted then paths else usual) := by
  rw [pathsField?, h]
  cases wanted with
  | false => rfl
  | true => exact mapM_pathOfEntry? paths

end Fields

theorem ofFields?_filter (c : Config) (keep : String → Bool) :
    ofFields? (c.entries.filter fun field => keep field.1) = some (c.restrict keep) := by
  have hlookup (key : String) {entry : Entry} (h : c.entries.lookup key = some entry) :
      (c.entries.filter fun field => keep field.1).lookup key =
        if keep key then some entry else none := by
    rw [lookup_filter, h]
  simp only [ofFields?, numberField?_of_lookup (hlookup "progress_every" rfl),
    numberField?_of_lookup (hlookup "min_clean_millis" rfl),
    numberField?_of_lookup (hlookup "removal_pacing_millis" rfl),
    numberField?_of_lookup (hlookup "step_pacing_millis" rfl),
    pathField?_of_lookup (hlookup "applications_dir" rfl),
    switchField?_of_lookup (hlookup "persist_credential" rfl),
    switchField?_of_lookup (hlookup "native_prompt_fallback" rfl),
    switchField?_of_lookup (hlookup "log_to_file" rfl),
    pathsField?_of_lookup (hlookup "extra_user_paths" rfl)]
  rfl

theorem fits_of_partialText? {text : String} (h : c.partialText? keep = some text) : c.Fits := by
  by_contra hlarge
  rw [partialText?, written?_eq_none hlarge] at h
  cases h

/-- The file with some of the keys gives the settings with the others as usual, also with an empty
line behind. -/
theorem ofText?_append_of_partialText? {text ending : String} (h : c.partialText? keep = some text)
    (hending : IsEnding ending.toList) : ofText? (text ++ ending) = some (c.restrict keep) := by
  have hfits := fits_of_partialText? h
  have hsound : ∀ f ∈ c.fields.filter fun f => keep f.key, f.IsSound :=
    fun f hf => isSound_of_mem_fields hfits (List.mem_of_mem_filter hf)
  have hnodup : ((c.fields.filter fun f => keep f.key).map Field.key).Nodup := by
    have hkeys : (c.fields.map Field.key).Nodup := nodup_keys
    exact hkeys.sublist (List.filter_sublist.map _)
  have hentries : (c.fields.filter fun f => keep f.key).map (fun f => (f.key, f.entry)) =
      c.entries.filter fun field => keep field.1 := by
    rw [entries, List.filter_map]
    rfl
  obtain rfl := Option.some.inj ((partialText?_eq hfits keep).symm.trans h)
  rw [ofText?, read?_lines hsound hnodup hending, Option.bind_some, hentries, ofFields?_filter]

theorem ofText?_of_partialText? {text : String} (h : c.partialText? keep = some text) :
    ofText? text = some (c.restrict keep) := by
  have hending : IsEnding "".toList := .inl rfl
  have hread := ofText?_append_of_partialText? h hending
  rwa [String.append_empty] at hread

/-- The whole file gives the settings. -/
theorem ofText?_of_text? {text : String} (h : c.text? = some text) : ofText? text = some c := by
  rw [← restrict_all c]
  exact ofText?_of_partialText? ((partialText?_all c).trans h)

theorem ofText?_newline_of_text? {text : String} (h : c.text? = some text) :
    ofText? (text ++ "\n") = some c := by
  have hending : IsEnding "\n".toList := .inr rfl
  rw [← restrict_all c]
  exact ofText?_append_of_partialText? ((partialText?_all c).trans h) hending

/-! ### The settings of a file -/

theorem lt_of_numberField? {fields : Toml.Fields} (hfit : fields.Fit) {key : String} {n usual : Nat}
    (husual : usual < Nat.pow 2 63) (h : numberField? fields key usual = some n) :
    n < Nat.pow 2 63 := by
  rw [numberField?] at h
  split at h
  next => exact Option.some.inj h ▸ husual
  next number hlookup =>
    split at h
    next hsign =>
      obtain ⟨front, behind, hfields, -⟩ := List.lookup_eq_some_iff.mp hlookup
      have hmem : (key, Entry.integer number) ∈ fields := by
        rw [hfields]
        exact List.mem_append_right _ (List.mem_cons_self ..)
      have hnumber : number < (Nat.pow 2 63 : Nat) := hfit _ hmem
      obtain rfl := Option.some.inj h
      omega
    next => cases h
  next => cases h

/-- No file gives settings that cannot be written. -/
theorem fits_of_ofText? {text : String} (h : ofText? text = some c) : c.Fits := by
  obtain ⟨fields, hread, hfields⟩ := Option.bind_eq_some_iff.mp h
  have hfit := fit_of_read? hread
  simp only [ofFields?, Option.bind_eq_bind, Option.bind_eq_some_iff] at hfields
  obtain ⟨_, hprogress, _, hclean, _, hremoval, _, hstep, _, _, _, _, _, _, _, _, _, _, hfields⟩ :=
    hfields
  obtain rfl := Option.some.inj hfields
  exact ⟨lt_of_numberField? hfit (by decide) hprogress, lt_of_numberField? hfit (by decide) hclean,
    lt_of_numberField? hfit (by decide) hremoval, lt_of_numberField? hfit (by decide) hstep⟩

/-! ### The settings on disk -/

variable {home : Option Path} {d : Disk}

/-- A file of settings is loaded as them. -/
theorem load_eq_ok {text : String} (htext : d.readText (configPath home) = .ok text)
    (h : ofText? text = some c) : load home d = .ok c := by
  have hpresent : d.isPresent (configPath home) = true := by
    rw [Disk.isPresent]
    obtain ⟨bytes, hbytes, -⟩ := exists_ok_of_bind htext
    obtain ⟨node, hnode, -⟩ := exists_ok_of_bind hbytes
    rw [hnode]
    rfl
  simp only [load, hpresent, if_true, htext, h]

/-- Settings that are saved are loaded again. -/
theorem load_save {d' : Disk} (htop : d.top.isFolder = true)
    (h : save home c d = (.ok (), d')) : load home d' = .ok c := by
  rw [save] at h
  split at h
  next => cases h
  next made hmake =>
    split at h
    next => cases h
    next text htext =>
      split at h
      next => cases h
      next d'' hwrite =>
        cases h
        have htop' := Disk.isFolder_makeFolders htop hmake
        obtain ⟨place, mode, hlocate⟩ := Disk.exists_locate_write htop' hwrite
        exact load_eq_ok (Disk.readText_of_locate hlocate) (ofText?_of_text? htext)

/-- Settings that cannot be written are not saved, and the file that was there is as before. -/
theorem save_of_not_fits (htop : d.top.isFolder = true) (h : ¬c.Fits) :
    ∃ error d', save home c d = (.error error, d') ∧ ∀ bytes,
      d.read (configPath home) = .ok bytes → d'.read (configPath home) = .ok bytes := by
  cases hmake : d.makeFolders (dataDir home) with
  | error e => exact ⟨.noDataDir (dataDir home), d, by simp only [save, hmake], fun _ => id⟩
  | ok d' =>
    refine ⟨.tooLarge, d', by simp only [save, hmake, text?_eq_none h], fun bytes hread => ?_⟩
    exact Disk.read_of_isPartOf (Disk.growsAlong_makeFolders htop hmake).kept hread

section Show

open CommandLine

variable {s : Surroundings} {texts : List String} {input : List UInt8} {m : Machine}
  {arguments : Arguments}

/-- Getting ready for a task without messages leaves every file as it was. -/
theorem readText_readied {j : Job} {p : Path} {text : String} (htop : m.disk.top.isFolder = true)
    (hmessages : j.messages = .empty) (h : m.disk.readText p = .ok text) :
    (j.readied m.disk).2.readText p = .ok text := by
  have hleaves := j.mayLeave_readied htop
  generalize (j.readied m.disk).2 = d at hleaves ⊢
  cases hleaves with
  | same => exact h
  | folders hasks hgrows => exact Disk.readText_of_isPartOf hgrows.kept h
  | messages hasks hgrows hwritten =>
    rw [hmessages] at hwritten
    exact Disk.readText_of_isPartOf hwritten.isPartOf (Disk.readText_of_isPartOf hgrows.kept h)

/-- The settings of the file are shown as they would be written. -/
theorem perform_configShow {console : Console} {shown : String}
    (htask : arguments.task = .configShow)
    (hload : load s.home console.machine.disk = .ok c) (hshown : c.text? = some shown) :
    (Job.perform ⟨s, arguments⟩).run console =
      (.ok (), { console with output := console.output ++ (shown ++ "\n") }) := by
  have hconfig : (Action.config s).run console = (.ok c, console) := Action.run_config hload
  rw [Job.perform, htask]
  refine (Action.run_bind_of_ok _ hconfig).trans ?_
  rw [hshown]
  rfl

/-- A run shows the settings of the file as they would be written, if it gets ready. -/
theorem run_configShow {text shown : String} (htop : m.disk.top.isFolder = true)
    (hparse : Arguments.parse texts = .ok arguments) (htask : arguments.task = .configShow)
    (hready : (Job.readied ⟨s, arguments⟩ m.disk).1 = .ok ())
    (htext : m.disk.readText (configPath s.home) = .ok text) (h : ofText? text = some c)
    (hshown : c.text? = some shown) :
    (run s texts input m).1 = ⟨0, shown ++ "\n", none⟩ := by
  let console := Job.console ⟨s, arguments⟩ input m
  have hmessages : (Job.mk s arguments).messages = .empty := by rw [Job.messages, htask]
  have hload : load s.home console.machine.disk = .ok c :=
    load_eq_ok (readText_readied htop hmessages htext) h
  rw [run_of_perform hparse hready (perform_configShow htask hload hshown)]
  simp [Console.finish, Job.console]

end Show

/-! ### The round trip -/

/-- **Settings are read as they were written.**  The file of settings whose numbers have 63 bits
gives these settings, and the file with some of the keys only gives them with all others as usual.
Every file of settings can be shown, and what is shown gives the settings of the file; a run that
shows them does so unless it ends before, because it cannot open its message file.  Settings with a
larger number are not saved, and the file that was there keeps its bytes. -/
theorem roundTrip :
    (∀ c : Config, c.Fits → ∃ text, c.text? = some text ∧ ofText? text = some c) ∧
    (∀ (c : Config) (keep : String → Bool), c.Fits →
      ∃ text, c.partialText? keep = some text ∧ ofText? text = some (c.restrict keep)) ∧
    (∀ (text : String) (c : Config), ofText? text = some c →
      ∃ shown, c.text? = some shown ∧ ofText? (shown ++ "\n") = some c ∧
        (∀ (s : CommandLine.Surroundings) (arguments : CommandLine.Arguments)
          (console : CommandLine.Console), arguments.task = .configShow →
          console.machine.disk.readText (configPath s.home) = .ok text →
          (CommandLine.Job.perform ⟨s, arguments⟩).run console =
            (.ok (), { console with output := console.output ++ (shown ++ "\n") })) ∧
        ∀ (s : CommandLine.Surroundings) (texts : List String) (input : List UInt8) (m : Machine)
          (arguments : CommandLine.Arguments),
          CommandLine.Arguments.parse texts = .ok arguments → arguments.task = .configShow →
          m.disk.top.isFolder = true → m.disk.readText (configPath s.home) = .ok text →
          (CommandLine.Job.readied ⟨s, arguments⟩ m.disk).1 = .ok () →
          (CommandLine.run s texts input m).1 = ⟨0, shown ++ "\n", none⟩) ∧
    (∀ (c : Config) (home : Option Path) (d : Disk), d.top.isFolder = true → ¬c.Fits →
      ∃ error d', save home c d = (.error error, d') ∧ ∀ bytes,
        d.read (configPath home) = .ok bytes → d'.read (configPath home) = .ok bytes) := by
  have hwhole (c : Config) (h : c.Fits) : ∃ text, c.text? = some text ∧ ofText? text = some c := by
    have htext := (partialText?_all c).symm.trans (partialText?_eq h fun _ => true)
    exact ⟨_, htext, ofText?_of_text? htext⟩
  refine ⟨hwhole, fun c keep h => ?_, fun text c h => ?_, fun c home d => save_of_not_fits⟩
  · have htext := partialText?_eq h keep
    exact ⟨_, htext, ofText?_of_partialText? htext⟩
  · obtain ⟨shown, hshown, -⟩ := hwhole c (fits_of_ofText? h)
    refine ⟨shown, hshown, ofText?_newline_of_text? hshown, ?_, ?_⟩
    · intro s arguments console htask htext
      exact perform_configShow htask (load_eq_ok htext h) hshown
    · intro s texts input m arguments hparse htask htop htext hready
      exact run_configShow htop hparse htask hready htext h hshown

end Config

end Reclaim
