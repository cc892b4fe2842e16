import Reclaim.Proofs.Text.Reading
import Reclaim.Toml.Document

/-!
# The numbers of a configuration file fit into 64 bits

A whole number that does not fit into 64 bits with a sign is refused where it is read.  The table of
a file is built of what its lines state, so none of its values is such a number.

## Main definitions

* `Toml.Entry.Fits` : a value is no number that is too large.
* `Toml.Fields.Fit` : all values of a table.

## Main results

* `Toml.gives_value` : what is read as a value.
* `Toml.Fields.Fit.step` : one more statement.
* `Toml.fit_of_read?` : the table of a file.
-/

namespace Reclaim.Toml

open Reader

/-- The value is no whole number that does not fit into 64 bits with a sign. -/
def Entry.Fits : Entry → Prop
  | .integer n => n < Nat.pow 2 63
  | _ => True

/-! ### Reading -/

theorem gives_fitting (n : Int) : (fitting n).Gives fun n => n < Nat.pow 2 63 := by
  rw [fitting]
  split
  next h => exact gives_pure h.2
  next => exact gives_failure

theorem gives_integer : integer.Gives fun n => n < Nat.pow 2 63 := by
  have hother : otherBase.Gives fun n => n < Nat.pow 2 63 := by
    refine gives_bind fun _ => gives_bind fun c => ?_
    split
    · exact gives_bind fun _ => gives_fitting _
    · exact gives_bind fun _ => gives_fitting _
    · exact gives_bind fun _ => gives_fitting _
    · exact gives_failure
  exact hother.orElse (gives_bind fun _ => gives_bind fun _ => gives_fitting _)

theorem gives_scalar : scalar.Gives Entry.Fits := by
  refine gives_bind fun found => ?_
  split
  · split
    · exact gives_map fun _ => trivial
    · split
      · exact (gives_map fun _ => trivial).orElse ((gives_map fun _ => trivial).orElse
          (gives_integer.map fun _ h => h))
      · exact (gives_map fun _ => trivial).orElse (gives_map fun _ => trivial)
  · exact gives_failure

/-- No value is a number that is too large. -/
theorem gives_value (depth : Nat) : (value depth).Gives Entry.Fits := by
  rw [value.eq_def]
  refine gives_bind fun found => ?_
  split
  · split
    · exact gives_failure
    · refine gives_bind fun _ => gives_bind fun items => ?_
      have hclose : (do filler; char ']'; return .array (items.getD []) : Reader Entry).Gives
          Entry.Fits := gives_bind fun _ => gives_bind fun _ => gives_pure trivial
      split
      · exact gives_bind fun _ => hclose
      · exact hclose
  · split
    · exact gives_failure
    · refine gives_bind fun _ => gives_bind fun pairs => gives_bind fun _ => gives_bind fun _ => ?_
      split
      · exact gives_pure trivial
      · exact gives_failure
  · exact gives_scalar

/-- The statement gives no key a number that is too large. -/
def Statement.Fits : Statement → Prop
  | .assign _ entry => entry.Fits
  | .header _ => True
  | .item _ => True

theorem gives_statement : statement.Gives Statement.Fits := by
  refine gives_bind fun found => ?_
  split
  · refine Gives.orElse ?_ ?_
    · exact gives_bind fun _ => gives_bind fun _ => gives_bind fun _ => gives_bind fun _ =>
        gives_pure trivial
    · exact gives_bind fun _ => gives_bind fun _ => gives_bind fun _ => gives_bind fun _ =>
        gives_pure trivial
  · exact gives_bind fun _ => gives_bind fun _ => gives_bind fun _ =>
      (gives_value depthLimit).bind fun entry hentry => gives_bind fun _ => gives_pure hentry

theorem gives_statements : statements.Gives fun found => ∀ s ∈ found, s.Fits := by
  have hentry : (do discard (many emptyLine); spaces; statement : Reader Statement).Gives
      Statement.Fits := gives_bind fun _ => gives_bind fun _ => gives_statement
  exact gives_bind fun _ => hentry.many.bind fun found hfound =>
    gives_bind fun _ => gives_bind fun _ => gives_bind fun _ => gives_pure hfound

/-! ### Building the table -/

namespace Fields

/-- No value of a table is a number that is too large; what is inside its tables does not count. -/
def Fit (fields : Fields) : Prop :=
  ∀ field ∈ fields, field.2.Fits

variable {fields fields' : Fields} {key : String} {entry : Entry} {path : List String}
  {change : Fields → Option Fields}

theorem Fit.append (h : Fit fields) (hentry : entry.Fits) : Fit (fields ++ [(key, entry)]) := by
  intro field hfield
  rcases List.mem_append.mp hfield with hold | hnew
  · exact h field hold
  · rw [List.mem_singleton.mp hnew]
    exact hentry

theorem Fit.replace (h : Fit fields) (hentry : entry.Fits) : Fit (replace key entry fields) := by
  intro field hfield
  obtain ⟨old, hold, rfl⟩ := List.mem_map.mp hfield
  split
  · exact hentry
  · exact h old hold

/-- A table with changed tables inside has the same numbers of its own. -/
theorem Fit.changeAt (h : Fit fields)
    (hchange : ∀ {fields fields'}, Fit fields → change fields = some fields' → Fit fields')
    (hsome : changeAt change path fields = some fields') : Fit fields' := by
  cases path with
  | nil => exact hchange h hsome
  | cons step path =>
    rw [Fields.changeAt] at hsome
    split at hsome
    next =>
      obtain ⟨inner, -, rfl⟩ := Option.map_eq_some_iff.mp hsome
      exact h.append trivial
    next => cases hsome
    next =>
      obtain ⟨inner, -, rfl⟩ := Option.map_eq_some_iff.mp hsome
      exact h.replace trivial
    next =>
      split at hsome
      next =>
        obtain ⟨inner, -, rfl⟩ := Option.map_eq_some_iff.mp hsome
        exact h.replace trivial
      next => cases hsome
    next => cases hsome

theorem Fit.insertDotted (h : Fit fields) (hentry : entry.Fits)
    (hsome : insertDotted path key entry fields = some fields') : Fit fields' := by
  cases path with
  | nil =>
    rw [Fields.insertDotted, addNew] at hsome
    split at hsome
    next =>
      cases hsome
      exact h.append hentry
    next => cases hsome
  | cons step path =>
    rw [Fields.insertDotted] at hsome
    split at hsome
    next =>
      obtain ⟨inner, -, rfl⟩ := Option.map_eq_some_iff.mp hsome
      exact h.append trivial
    next =>
      split at hsome
      next =>
        obtain ⟨inner, -, rfl⟩ := Option.map_eq_some_iff.mp hsome
        exact h.replace trivial
      next => cases hsome
    next =>
      split at hsome
      next =>
        split at hsome
        next => cases hsome
        next =>
          obtain ⟨inner, -, rfl⟩ := Option.map_eq_some_iff.mp hsome
          exact h.replace trivial
      next => cases hsome
    next => cases hsome

theorem Fit.open? (h : Fit fields) (hsome : open? key fields = some fields') : Fit fields' := by
  rw [Fields.open?] at hsome
  split at hsome
  next =>
    cases hsome
    exact h.append trivial
  next =>
    cases hsome
    exact h.replace trivial
  next => cases hsome

theorem Fit.append? (h : Fit fields) (hsome : append? key fields = some fields') : Fit fields' := by
  rw [Fields.append?] at hsome
  split at hsome
  next =>
    cases hsome
    exact h.append trivial
  next =>
    cases hsome
    exact h.replace trivial
  next => cases hsome

theorem Fit.openAt {change : String → Fields → Option Fields} (h : Fit fields)
    (hchange : ∀ {key fields fields'}, Fit fields → change key fields = some fields' → Fit fields')
    (hsome : openAt change path fields = some fields') : Fit fields' := by
  rw [Fields.openAt] at hsome
  split at hsome
  next => exact h.changeAt hchange hsome
  next => cases hsome

/-- One more statement adds no number that is too large. -/
theorem Fit.step {current : List String} {s : Statement} {next : Fields × List String}
    (h : Fit fields) (hs : s.Fits) (hsome : step (fields, current) s = some next) : Fit next.1 := by
  cases s with
  | assign path entry =>
    rw [Fields.step] at hsome
    split at hsome
    next last hlast =>
      obtain ⟨changed, hchanged, rfl⟩ := Option.map_eq_some_iff.mp hsome
      exact h.changeAt (fun hfit hinsert => hfit.insertDotted hs hinsert) hchanged
    next => cases hsome
  | header path =>
    obtain ⟨changed, hchanged, rfl⟩ := Option.map_eq_some_iff.mp hsome
    exact h.openAt Fit.open? hchanged
  | item path =>
    obtain ⟨changed, hchanged, rfl⟩ := Option.map_eq_some_iff.mp hsome
    exact h.openAt Fit.append? hchanged

theorem Fit.foldlM_step {found : List Statement} {current : List String}
    {next : Fields × List String} (h : Fit fields) (hfound : ∀ s ∈ found, s.Fits)
    (hsome : found.foldlM Fields.step (fields, current) = some next) : Fit next.1 := by
  induction found generalizing fields current with
  | nil =>
    cases hsome
    exact h
  | cons s found ih =>
    obtain ⟨hs, hfound⟩ := List.forall_mem_cons.mp hfound
    rw [List.foldlM_cons] at hsome
    obtain ⟨⟨fields', current'⟩, hstep, hsome⟩ := Option.bind_eq_some_iff.mp hsome
    exact ih (h.step hs hstep) hfound hsome

end Fields

/-- **No key of a file has a number that does not fit into 64 bits with a sign.** -/
theorem fit_of_read? {text : String} {fields : Fields} (h : read? text = some fields) :
    fields.Fit := by
  obtain ⟨found, hfound, h⟩ := Option.bind_eq_some_iff.mp h
  obtain ⟨next, hnext, rfl⟩ := Option.map_eq_some_iff.mp h
  have hfits : ∀ s ∈ found, s.Fits := by
    rw [all?] at hfound
    split at hfound
    next hread =>
      cases hfound
      exact gives_statements _ _ _ hread
    next => cases hfound
  exact Fields.Fit.foldlM_step (fun _ hmem => by cases hmem) hfits hnext

end Reclaim.Toml
