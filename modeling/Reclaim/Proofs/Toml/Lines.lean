import Reclaim.Proofs.Toml.Values

/-!
# A file of keys with values is read as it was written

A file that has a line for each of several keys gives the table of these keys with their values, in
the same order.  No line may be missing and none may be there twice, but an empty line at the end
does no harm.

## Main definitions

* `Toml.Field` : a key with its value and with what is written for it.

## Main results

* `Toml.statement_line` : one line.
* `Toml.foldlM_step` : distinct keys build a table.
* `Toml.read?_lines` : a file.
-/

namespace Reclaim.Toml

open Reader Text

/-- A character of a key without quotes. -/
def isKeyChar (c : Char) : Bool :=
  c.isAlphanum || c == '_' || c == '-'

/-- A key with its value and what is written for the value. -/
structure Field where
  key : String
  written : String
  entry : Entry

/-- The line of a field. -/
def Field.line (f : Field) : String :=
  Toml.line f.key f.written

/-- A field whose line is read back. -/
structure Field.IsSound (f : Field) : Prop where
  bare : f.key.toList ≠ [] ∧ ∀ c ∈ f.key.toList, isKeyChar c = true
  writes : Writes f.written f.entry

variable {f : Field} {rest : List Char}

/-! ### One line -/

theorem toList_line (f : Field) : f.line.toList =
    f.key.toList ++ ' ' :: '=' :: ' ' :: (f.written.toList ++ ['\n']) := by
  have hmark : " = ".toList = [' ', '=', ' '] := rfl
  have hend : "\n".toList = ['\n'] := rfl
  simp only [Field.line, line, String.toList_append, hmark, hend, List.append_assoc,
    List.cons_append, List.nil_append]

/-- A key begins with none of the characters that are left out between lines. -/
theorem isFill_of_isKeyChar {c : Char} (h : isKeyChar c = true) : isFill c = false := by
  rw [← Bool.not_eq_true]
  intro hfill
  simp only [isFill, isSpace, isBreak, Bool.or_eq_true, beq_iff_eq] at hfill
  rcases hfill with ((rfl | rfl) | rfl | rfl) | rfl
  all_goals exact absurd h (by decide)

theorem simpleKey_append {chars : List Char} (hne : chars ≠ [])
    (hchars : ∀ c ∈ chars, isKeyChar c = true) (hrest : Stops isKeyChar rest) :
    simpleKey (chars ++ rest) = some (String.ofList chars, rest) := by
  have hspan : span1 isKeyChar (chars ++ rest) = some (chars, rest) :=
    span1_append hchars hne hrest
  obtain ⟨c, chars, rfl⟩ := List.exists_cons_of_ne_nil hne
  have hc := hchars c (List.mem_cons_self ..)
  exact (orElse_of_none (basicText_of_ne (ne_of_kind hc (by decide)))).trans <|
    (orElse_of_none (literalText_of_ne (ne_of_kind hc (by decide)))).trans (bind_of_some hspan)

/-- A key is read up to the mark behind it. -/
theorem key_append {chars : List Char} (hne : chars ≠ [])
    (hchars : ∀ c ∈ chars, isKeyChar c = true) (rest : List Char) :
    key (chars ++ ' ' :: '=' :: rest) = some ([String.ofList chars], '=' :: rest) := by
  have hblank : Stops isSpace (chars ++ ' ' :: '=' :: rest) := by
    obtain ⟨c, chars, rfl⟩ := List.exists_cons_of_ne_nil hne
    exact isSpace_of_stops (stops_cons.mpr
      (isFill_of_isKeyChar (hchars c (List.mem_cons_self ..))))
  have hspace : spaces ([' '] ++ '=' :: rest) = some (⟨⟩, '=' :: rest) :=
    spaces_append (by simp [isSpace]) (stops_cons.mpr (by decide))
  have hstep : (do spaces; let step ← simpleKey; spaces; return step : Reader String)
      (chars ++ ' ' :: '=' :: rest) = some (String.ofList chars, '=' :: rest) := by
    rw [bind_of_some (spaces_of_stops hblank),
      bind_of_some (simpleKey_append hne hchars (stops_cons.mpr (by decide)))]
    exact bind_of_some hspace
  have hdot : manyFrom (do
      discard (char '.')
      (do spaces; let step ← simpleKey; spaces; return step : Reader String)) ('=' :: rest) =
        ([], '=' :: rest) :=
    manyFrom_of_none (bind_of_none (discard_of_none (char_of_ne (by decide))))
  exact bind_of_some (separated_of_some hstep hdot)

theorem lineEnd_newline (rest : List Char) : lineEnd ('\n' :: rest) = some ((), rest) := by
  rw [lineEnd, bind_of_some (spaces_of_stops (stops_line (by decide))),
    bind_of_some (discard_of_some (optional_of_none (comment_of_stops (stops_line (by decide)))))]
  exact orElse_of_some (orElse_of_some (exactly_append ['\n'] rest))

/-- The line of a field is read back. -/
theorem statement_line (h : f.IsSound) (rest : List Char) :
    statement (f.line.toList ++ rest) = some (.assign [f.key] f.entry, rest) := by
  obtain ⟨hne, hkey⟩ := h.bare
  obtain ⟨d, more, hwritten, hd⟩ := h.writes.start
  have hspace : spaces ([' '] ++ (f.written.toList ++ '\n' :: rest)) =
      some (⟨⟩, f.written.toList ++ '\n' :: rest) := by
    refine spaces_append (by simp [isSpace]) ?_
    rw [hwritten]
    exact stops_cons.mpr hd
  have hassign : (do
      let path ← key
      char '='
      spaces
      let entry ← value depthLimit
      lineEnd
      return .assign path entry : Reader Statement)
        (f.key.toList ++ ' ' :: '=' :: ' ' :: (f.written.toList ++ '\n' :: rest)) =
        some (.assign [f.key] f.entry, rest) := by
    rw [bind_of_some (key_append hne hkey _), bind_of_some (char_cons _ _)]
    refine (bind_of_some hspace).trans <| (bind_of_some (h.writes.value rest)).trans <|
      (bind_of_some (lineEnd_newline rest)).trans ?_
    rw [String.ofList_toList]
    rfl
  have hline : f.line.toList ++ rest =
      f.key.toList ++ ' ' :: '=' :: ' ' :: (f.written.toList ++ '\n' :: rest) := by
    simp only [toList_line, List.append_assoc, List.cons_append, List.nil_append]
  rw [hline]
  obtain ⟨c, key, hc⟩ := List.exists_cons_of_ne_nil hne
  have hopen : c ≠ '[' := ne_of_kind (hkey c (hc ▸ List.mem_cons_self ..)) (by decide)
  rw [hc, List.cons_append] at hassign ⊢
  rw [← hassign, statement]
  refine (bind_of_some (peek_cons _ _)).trans (congrFun ?_ _)
  split
  next heq => exact absurd (Option.some.inj heq) hopen
  next => rfl

/-! ### All lines -/

/-- What may stand at the end of a file: nothing, or an empty line. -/
def IsEnding (ending : List Char) : Prop :=
  ending = [] ∨ ending = ['\n']

/-- A line begins with its key. -/
theorem exists_cons_line (h : f.IsSound) (rest : List Char) :
    ∃ c more, f.line.toList ++ rest = c :: more ∧ isKeyChar c = true := by
  obtain ⟨hne, hkey⟩ := h.bare
  obtain ⟨c, key, hc⟩ := List.exists_cons_of_ne_nil hne
  have hkeyChar : isKeyChar c = true := hkey c (hc ▸ List.mem_cons_self ..)
  rw [toList_line, hc]
  exact ⟨c, _, rfl, hkeyChar⟩

/-- One statement with the empty lines in front of it. -/
def entry : Reader Statement := do
  discard (many emptyLine)
  spaces
  statement

theorem entry_line (h : f.IsSound) (rest : List Char) :
    entry (f.line.toList ++ rest) = some (.assign [f.key] f.entry, rest) := by
  have hfill : Stops isFill (f.line.toList ++ rest) := by
    obtain ⟨c, more, hline, hc⟩ := exists_cons_line h rest
    rw [hline]
    exact stops_cons.mpr (isFill_of_isKeyChar hc)
  have hnone : emptyLine ([] ++ (f.line.toList ++ rest)) = none :=
    emptyLine_of_stops (fun _ h => by cases h) hfill
  rw [List.nil_append] at hnone
  rw [entry, bind_of_some (discard_of_some (many_of_none hnone)),
    bind_of_some (spaces_of_stops (isSpace_of_stops hfill)), statement_line h]

theorem many_emptyLine_ending {ending : List Char} (h : IsEnding ending) :
    ∃ lines, many emptyLine ending = some (lines, []) := by
  have hnil : manyFrom emptyLine [] = ([], []) := manyFrom_of_none rfl
  rcases h with rfl | rfl
  · exact ⟨_, congrArg some hnil⟩
  · exact ⟨_, congrArg some (manyFrom_of_some (emptyLine_newline []) (by simp) hnil)⟩

/-- Nothing is stated at the end of a file. -/
theorem entry_ending {ending : List Char} (h : IsEnding ending) : entry ending = none := by
  obtain ⟨lines, hlines⟩ := many_emptyLine_ending h
  rw [entry, bind_of_some (discard_of_some hlines),
    bind_of_some (spaces_of_stops stops_nil)]
  rfl

theorem manyFrom_lines {fs : List Field} (h : ∀ f ∈ fs, f.IsSound) {ending : List Char}
    (hending : IsEnding ending) :
    manyFrom entry ((String.join (fs.map Field.line)).toList ++ ending) =
      (fs.map fun f => .assign [f.key] f.entry, ending) := by
  induction fs with
  | nil => exact manyFrom_of_none (entry_ending hending)
  | cons f fs ih =>
    obtain ⟨hf, hfs⟩ := List.forall_mem_cons.mp h
    have hentry := entry_line hf ((String.join (fs.map Field.line)).toList ++ ending)
    rw [List.map_cons, String.join_cons, String.toList_append, List.append_assoc]
    refine manyFrom_of_some hentry ?_ (ih hfs)
    have hline : f.line.toList ≠ [] := by simp [toList_line]
    have hlength := List.length_pos_of_ne_nil hline
    simp only [List.length_append]
    omega

/-- The lines of a file are read one by one up to its end. -/
theorem statements_lines {fs : List Field} (h : ∀ f ∈ fs, f.IsSound) {ending : List Char}
    (hending : IsEnding ending) :
    statements ((String.join (fs.map Field.line)).toList ++ ending) =
      some (fs.map fun f => .assign [f.key] f.entry, []) := by
  have hmark : (optional (char '\uFEFF'))
      ((String.join (fs.map Field.line)).toList ++ ending) =
        some (none, (String.join (fs.map Field.line)).toList ++ ending) := by
    refine optional_of_none (char_of_stops ?_)
    cases fs with
    | nil =>
      rcases hending with rfl | rfl
      · exact stops_nil
      · exact stops_cons.mpr (by decide)
    | cons f fs =>
      rw [List.map_cons, String.join_cons, String.toList_append, List.append_assoc]
      obtain ⟨c, more, hline, hc⟩ := exists_cons_line (h f (List.mem_cons_self ..))
        ((String.join (fs.map Field.line)).toList ++ ending)
      rw [hline]
      exact stops_cons.mpr (beq_of_kind hc (by decide))
  obtain ⟨lines, hlines⟩ := many_emptyLine_ending hending
  have hmany : many entry ((String.join (fs.map Field.line)).toList ++ ending) =
      some (fs.map fun f => .assign [f.key] f.entry, ending) :=
    congrArg some (manyFrom_lines h hending)
  exact (bind_of_some (discard_of_some hmark)).trans <| (bind_of_some hmany).trans <|
    (bind_of_some (discard_of_some hlines)).trans <|
    (bind_of_some (spaces_of_stops stops_nil)).trans rfl

/-! ### The table -/

/-- Distinct keys are added one after the other. -/
theorem foldlM_step {fs : List Field} {fields : Fields} (hnodup : (fs.map Field.key).Nodup)
    (hnew : ∀ f ∈ fs, fields.lookup f.key = none) :
    (fs.map fun f => Statement.assign [f.key] f.entry).foldlM Fields.step (fields, []) =
      some (fields ++ fs.map fun f => (f.key, f.entry), []) := by
  induction fs generalizing fields with
  | nil => simp
  | cons f fs ih =>
    obtain ⟨hf, hnew⟩ := List.forall_mem_cons.mp hnew
    obtain ⟨hnotMem, hnodup⟩ := List.nodup_cons.mp hnodup
    have hstep : Fields.step (fields, []) (.assign [f.key] f.entry) =
        some (fields ++ [(f.key, f.entry)], []) := by
      simp [Fields.step, Fields.changeAt, Fields.insertDotted, Fields.addNew, hf]
    have hnew' : ∀ f' ∈ fs, (fields ++ [(f.key, f.entry)]).lookup f'.key = none := by
      intro f' hf'
      have hne : f'.key ≠ f.key := fun heq => hnotMem (heq ▸ List.mem_map_of_mem hf')
      simp [List.lookup_append, hnew f' hf', hne]
    rw [List.map_cons, List.foldlM_cons, hstep, Option.bind_eq_bind, Option.bind_some,
      ih hnodup hnew', List.append_assoc]
    rfl

/-- **A file with a line for each of several keys gives the table of these keys.** -/
theorem read?_lines {fs : List Field} (h : ∀ f ∈ fs, f.IsSound) (hnodup : (fs.map Field.key).Nodup)
    {ending : String} (hending : IsEnding ending.toList) :
    read? (String.join (fs.map Field.line) ++ ending) =
      some (fs.map fun f => (f.key, f.entry)) := by
  rw [read?, all?, String.toList_append, statements_lines h hending, Option.bind_some,
    Fields.ofStatements?, foldlM_step hnodup fun f hf => rfl]
  rfl

end Reclaim.Toml
