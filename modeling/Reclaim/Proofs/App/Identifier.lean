import Mathlib
import Reclaim.App.Bundle
import Reclaim.Proofs.Plist.Scraping

/-!
# Where the identifier of a bundle comes from

The descriptor of a bundle is read in two ways.  As a property list it has a root, and if that is a
dictionary whose own entry for the identifier is a text, this text alone counts.  Otherwise the file
is taken as a text, and what stands right behind the first mark of the key counts, wherever in the
file that is.  This happens to a file that is no property list, and just as well to a property list
whose root has no such entry.  None of this depends on how property lists are read; the usual way
gives every key at the root once.

## Main definitions

* `Plist.States` : the root of a property list has a text as its own entry for a key.

## Main results

* `Plist.nodup_of_read?`, `Plist.states_read?_iff` : the keys of a dictionary at the root are
  distinct.
* `Bundle.identifier?_eq_some_iff` : the identifier of a bundle.
-/

namespace Reclaim

namespace Plist

/-! ### The entries of a root -/

namespace Value

/-- A dictionary has every key once. -/
def HasKeysOnce : Value → Prop
  | dictionary fields => (fields.map Prod.fst).Nodup
  | _ => True

/-- The dictionaries that are not closed yet have every key once. -/
def Open.HasKeysOnce : Open → Prop
  | array _ => True
  | dictionary fields => (fields.map Prod.fst).Nodup
  | keyed fields _ => (fields.map Prod.fst).Nodup

/-- All dictionaries of a tree that is being built, as far as they can still get entries or are its
root, have every key once. -/
def Building.HasKeysOnce : Building → Prop
  | pending stack => ∀ o ∈ stack, o.HasKeysOnce
  | complete value => value.HasKeysOnce

theorem map_fst_insert (key : String) (value : Value) (fields : List (String × Value)) :
    (insert key value fields).map Prod.fst =
      if key ∈ fields.map Prod.fst then fields.map Prod.fst else fields.map Prod.fst ++ [key] := by
  induction fields with
  | nil => rfl
  | cons field fields ih =>
    rw [insert]
    by_cases hkey : field.1 = key
    · simp [hkey]
    · rw [if_neg hkey, List.map_cons, ih]
      by_cases hmem : key ∈ fields.map Prod.fst <;> simp [hmem, Ne.symm hkey]

theorem nodup_insert (key : String) (value : Value) {fields : List (String × Value)}
    (h : (fields.map Prod.fst).Nodup) : ((insert key value fields).map Prod.fst).Nodup := by
  rw [map_fst_insert]
  split
  next => exact h
  next hnew =>
    rw [← List.concat_eq_append]
    exact h.concat hnew

theorem hasKeysOnce_place (value : Value) {stack : List Open} {after : Building}
    (hvalue : value.HasKeysOnce) (hstack : ∀ o ∈ stack, o.HasKeysOnce)
    (h : place value stack = some after) : after.HasKeysOnce := by
  cases stack with
  | nil =>
    cases h
    exact hvalue
  | cons o stack =>
    obtain ⟨ho, hrest⟩ := List.forall_mem_cons.mp hstack
    cases o with
    | array items =>
      cases h
      exact List.forall_mem_cons.mpr ⟨trivial, hrest⟩
    | keyed fields key =>
      cases h
      exact List.forall_mem_cons.mpr ⟨nodup_insert key value ho, hrest⟩
    | dictionary fields =>
      cases value with
      | text key =>
        cases h
        exact List.forall_mem_cons.mpr ⟨ho, hrest⟩
      | other => cases h
      | array => cases h
      | dictionary => cases h

theorem hasKeysOnce_step {before after : Building} {event : Event} (hbefore : before.HasKeysOnce)
    (h : step before event = some after) : after.HasKeysOnce := by
  cases before with
  | complete value => cases h
  | pending stack =>
    cases event with
    | text t => exact hasKeysOnce_place (.text t) trivial hbefore h
    | other => exact hasKeysOnce_place .other trivial hbefore h
    | openArray =>
      simp only [step, Option.ite_none_right_eq_some] at h
      obtain ⟨-, ⟨⟩⟩ := h
      exact List.forall_mem_cons.mpr ⟨trivial, hbefore⟩
    | openDictionary =>
      simp only [step, Option.ite_none_right_eq_some] at h
      obtain ⟨-, ⟨⟩⟩ := h
      exact List.forall_mem_cons.mpr ⟨List.nodup_nil, hbefore⟩
    | close =>
      cases stack with
      | nil => cases h
      | cons o stack =>
        obtain ⟨ho, hrest⟩ := List.forall_mem_cons.mp hbefore
        cases o with
        | array items => exact hasKeysOnce_place (.array items) trivial hrest h
        | dictionary fields => exact hasKeysOnce_place (.dictionary fields) ho hrest h
        | keyed fields key => cases h

theorem hasKeysOnce_foldlM {events : List Event} {before after : Building}
    (hbefore : before.HasKeysOnce) (h : events.foldlM step before = some after) :
    after.HasKeysOnce := by
  induction events generalizing before with
  | nil =>
    cases h
    exact hbefore
  | cons event events ih =>
    rw [List.foldlM_cons, Option.bind_eq_bind, Option.bind_eq_some_iff] at h
    obtain ⟨next, hstep, hrest⟩ := h
    exact ih (hasKeysOnce_step hbefore hstep) hrest

/-- Every tree that comes from events has its keys once at the root. -/
theorem hasKeysOnce_of_ofEvents? {events : List Event} {value : Value}
    (h : ofEvents? events = some value) : value.HasKeysOnce := by
  rw [ofEvents?, Option.bind_eq_bind, Option.bind_eq_some_iff] at h
  obtain ⟨after, hfold, hvalue⟩ := h
  have hstart : (Building.pending []).HasKeysOnce := List.forall_mem_nil _
  have hafter := hasKeysOnce_foldlM hstart hfold
  cases after with
  | complete value' =>
    cases hvalue
    exact hafter
  | pending stack => cases hvalue

end Value

/-- Whatever its format is, a property list is put together from events. -/
theorem exists_events_of_read? {data : ByteArray} {value : Value} (h : read? data = some value) :
    ∃ events, Value.ofEvents? events = some value := by
  rw [read?] at h
  split at h
  · cases h
  · split at h
    · obtain ⟨events, -, h⟩ := Option.bind_eq_some_iff.mp h
      exact ⟨events, h⟩
    · obtain ⟨text, -, h⟩ := Option.bind_eq_some_iff.mp h
      rw [readText?, Option.orElse_eq_some] at h
      rcases h with h | ⟨-, h⟩
      · obtain ⟨events, -, h⟩ := Option.bind_eq_some_iff.mp h
        exact ⟨events, h⟩
      · obtain ⟨events, -, h⟩ := Option.bind_eq_some_iff.mp h
        exact ⟨events, h⟩

/-- The keys of a dictionary at the root of a property list are distinct. -/
theorem nodup_of_read? {data : ByteArray} {fields : List (String × Value)}
    (h : read? data = some (.dictionary fields)) : (fields.map Prod.fst).Nodup := by
  obtain ⟨events, hevents⟩ := exists_events_of_read? h
  exact Value.hasKeysOnce_of_ofEvents? hevents

variable {read : Reader} {data : ByteArray} {key text : String}

/-- The file is a property list whose root is a dictionary with the text under the key. -/
def States (read : Reader) (data : ByteArray) (key text : String) : Prop :=
  ∃ fields, read data = some (.dictionary fields) ∧ fields.lookup key = some (.text text)

theorem states_iff :
    States read data key text ↔ (read data).bind (Value.textAt? key) = some text := by
  rw [Option.bind_eq_some_iff]
  constructor
  · rintro ⟨fields, hread, hlookup⟩
    exact ⟨_, hread, by rw [Value.textAt?, hlookup]⟩
  · rintro ⟨value, hread, htext⟩
    cases value with
    | dictionary fields =>
      rw [Value.textAt?] at htext
      split at htext
      next t hlookup =>
        cases htext
        exact ⟨fields, hread, hlookup⟩
      next => cases htext
    | text => cases htext
    | other => cases htext
    | array => cases htext

/-- Read in the usual way, a file has a text under a key if that is an entry of its root at all, for
there is no other entry with the key. -/
theorem states_read?_iff : States read? data key text ↔
    ∃ fields, read? data = some (.dictionary fields) ∧ (key, .text text) ∈ fields := by
  refine exists_congr fun fields => and_congr_right fun hread => ?_
  rw [List.lookup_eq_some_iff]
  constructor
  · rintro ⟨front, back, rfl, -⟩
    exact List.mem_append_right _ List.mem_cons_self
  · intro hmem
    obtain ⟨front, back, rfl⟩ := List.append_of_mem hmem
    have honce := nodup_of_read? hread
    rw [List.map_append, List.map_cons, List.nodup_append] at honce
    refine ⟨front, back, rfl, fun field hfield => ?_⟩
    have hne : field.1 ≠ key := honce.2.2 _ (List.mem_map_of_mem hfield) _ List.mem_cons_self
    simpa using hne.symm

end Plist

namespace Bundle

/-- **The identifier of a bundle.** However property lists are read, the descriptor can be read, and
the identifier can stand as one plain component of a path.  It is the root's own entry, if the
descriptor is a property list with a dictionary at its root that has a text under the key of the
identifier, and then nothing else in the file matters.  In every other case, be the descriptor no
property list or one whose root says nothing, it is the text of the element right behind the first
mark of the key, whatever that mark belongs to. -/
theorem identifier?_eq_some_iff (bundle : Path) (d : Disk) (read : Plist.Reader) (id : String) :
    identifier? bundle d read = some id ↔ Safety.isIdentifier id = true ∧
      ∃ data, d.read (descriptor bundle) = .ok data ∧
        (Plist.States read data identifierKey id ∨
          (∀ other, ¬Plist.States read data identifierKey other) ∧
            Plist.Adjacent (Text.decodeLossy data) identifierKey id) := by
  have hnone (data : ByteArray) : (∀ other, ¬Plist.States read data identifierKey other) ↔
      (read data).bind (Plist.Value.textAt? identifierKey) = none := by
    rw [Option.eq_none_iff_forall_ne_some]
    exact forall_congr' fun other => not_congr Plist.states_iff
  rw [identifier?, Option.filter_eq_some_iff, and_comm]
  refine and_congr_right fun _ => ?_
  cases hread : d.read (descriptor bundle) with
  | error e => simp [textAt?, scrapedAt?, hread, Except.toOption]
  | ok data =>
    have htext : textAt? bundle identifierKey d read =
        (read data).bind (Plist.Value.textAt? identifierKey) := by
      simp [textAt?, hread, Except.toOption]
    have hscraped : scrapedAt? bundle identifierKey d =
        Plist.scrape? (Text.decodeLossy data) identifierKey := by
      simp [scrapedAt?, hread, Except.toOption]
    rw [htext, hscraped, Option.orElse_eq_some, ← Plist.states_iff, ← hnone,
      Plist.scrape?_eq_some_iff]
    simp

/-- A descriptor that says nothing of its bundle, but something of a helper inside. -/
def helperDescriptor : ByteArray :=
  ("<plist><dict><key>Helper</key><dict><key>CFBundleIdentifier</key>" ++
    "<string>com.example.other</string></dict></dict></plist>").toUTF8

/-- A bundle with this descriptor. -/
def helpedBundle : Disk :=
  ⟨.folder [("A.app", .folder [("Contents", .folder [
    ("Info.plist", .file 0 (.bytes helperDescriptor))])])]⟩

/-- A property list whose root says nothing lends its bundle the identifier of the helper. -/
theorem identifier?_helpedBundle :
    helpedBundle.read (descriptor ⟨"/A.app"⟩) = .ok helperDescriptor ∧
      (Plist.read? helperDescriptor).isSome = true ∧
      (∀ text, ¬Plist.States Plist.read? helperDescriptor identifierKey text) ∧
      identifier? ⟨"/A.app"⟩ helpedBundle = some "com.example.other" := by
  have hread : helpedBundle.read (descriptor ⟨"/A.app"⟩) = .ok helperDescriptor := by
    decide +kernel
  have haccepted : (Plist.read? helperDescriptor).isSome = true := by decide +kernel
  have hsilent :
      (Plist.read? helperDescriptor).bind (Plist.Value.textAt? identifierKey) = none := by
    decide +kernel
  refine ⟨hread, haccepted, fun text hstates => ?_, by decide +kernel⟩
  rw [Plist.states_iff, hsilent] at hstates
  cases hstates

end Bundle

end Reclaim
