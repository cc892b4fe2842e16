import Mathlib
import Reclaim.Proofs.CommandLine.Written

/-!
# Reading a command line level by level

A line that is written for a command is read back level by level, unless one level repeats an
option: then it is refused for the repetition, whatever the other levels hold.

The reading of a level keeps one value back until the next word, so what has been written so far is
not what stands among its options.  What a phrase preserves is therefore told by what the level
comes to when it is settled: the options that have been written, or the refusal if one of them is
repeated.  A repeated switch is refused on the spot, a repeated value only when the next word is
read; either way nothing else can be answered from there on, since the rest of the line is written
without fault.

## Main definitions

* `Level.Gathers` : what has been given at a level that is being read.
* `Command.GoesOn` : where a line stands after some options of a level.

## Main results

* `Command.goesOn_phrase`, `Command.goesOn_phrases` : phrases at the front of a line.
* `Command.parseFrom_operandWords`, `Command.parseFrom_name` : the end of a level.
* `Command.parse_line` : a line that is written for a command.
-/

namespace Reclaim.CommandLine

/-! ### What a level comes to -/

/-- What comes of options that are given at one level. -/
def gathered (given : List (Flag × String)) : Except UsageError Level :=
  if Once given then .ok { options := named given } else .error .repeated

/-- What has been given at a level that is being read: the next word begins a phrase, names a
command or is the operand. -/
structure Level.Gathers (l : Level) (given : List (Flag × String)) : Prop where
  settle : l.settle = gathered given
  expectsValue : l.expectsValue = false
  hasOperand : l.hasOperand = false
  onlyOperands : l.onlyOperands = false

section Gathering

variable {l : Level} {given more : List (Flag × String)} {flag : Flag} {value : String}

theorem once_nil : Once [] :=
  List.nodup_nil

theorem Once.of_append (h : Once (given ++ more)) : Once given := by
  rw [Once, namesOf, List.map_append] at h
  exact h.of_append_left

theorem once_append_singleton :
    Once (given ++ [(flag, value)]) ↔ Once given ∧ flag.name ∉ namesOf given := by
  rw [Once, namesOf, List.map_append, List.nodup_append_comm, and_comm]
  exact List.nodup_cons

theorem isSome_lookup_named :
    ((named given).lookup flag.name).isSome = true ↔ flag.name ∈ namesOf given := by
  rw [List.lookup_isSome_iff, named, namesOf, List.mem_map]
  constructor
  · rintro ⟨_, hmem, hname⟩
    obtain ⟨option, hoption, rfl⟩ := List.mem_map.mp hmem
    exact ⟨option, hoption, (beq_iff_eq.mp hname).symm⟩
  · rintro ⟨option, hoption, hname⟩
    exact ⟨_, List.mem_map.mpr ⟨option, hoption, rfl⟩, beq_iff_eq.mpr hname.symm⟩

theorem gathered_of_once (h : Once given) : gathered given = .ok { options := named given } :=
  if_pos h

theorem gathered_of_not_once (h : ¬Once given) : gathered given = .error .repeated :=
  if_neg h

/-- What is done with options is settled where none is repeated. -/
theorem gathered_bind {f : Level → Except UsageError Level}
    (h : Once given → f { options := named given } = gathered (given ++ more)) :
    (gathered given >>= f) = gathered (given ++ more) := by
  by_cases honce : Once given
  · rw [gathered_of_once honce]
    exact h honce
  · rw [gathered_of_not_once honce, gathered_of_not_once fun h => honce h.of_append]
    rfl

/-- One more option is new, or the level is refused. -/
theorem gathered_addOption :
    (gathered given >>= fun l => l.addOption flag.name value) =
      gathered (given ++ [(flag, value)]) := by
  refine gathered_bind fun honce => ?_
  rw [Level.addOption]
  split
  next hsome =>
    have hnew := isSome_lookup_named.mp hsome
    exact (gathered_of_not_once fun h => (once_append_singleton.mp h).2 hnew).symm
  next hnone =>
    have hnew := mt isSome_lookup_named.mpr hnone
    rw [gathered_of_once (once_append_singleton.mpr ⟨honce, hnew⟩)]
    simp [named]

theorem Level.gathers_of_once (h : Once given) :
    ({ options := named given } : Level).Gathers given :=
  ⟨(gathered_of_once h).symm, rfl, rfl, rfl⟩

theorem Level.gathers_nil : ({} : Level).Gathers [] :=
  gathers_of_once once_nil

end Gathering

/-! ### Options at a level -/

theorem Effect.eq_value_of_mem {effect : Effect} {value : String} (h : value ∈ effect.values) :
    ∃ allowed, effect = .value allowed ∧ value ∈ allowed := by
  cases effect with
  | value allowed => exact ⟨allowed, rfl, h⟩
  | _ => simp [Effect.values] at h

namespace Level

variable {c : Command} {l : Level} {given : List (Flag × String)} {text : String}

theorem addValue_of_mem {flag : Flag} {allowed : List String} {value : String}
    (h : value ∈ allowed) :
    l.addValue flag allowed (some value) = l.addOption flag.name value := by
  simp only [addValue, List.contains_iff_mem.mpr h, if_true]
  cases l.addOption flag.name value <;> rfl

theorem Gathers.react (hl : l.Gathers given) (s : Switch) :
    l.react s.flag = gathered (given ++ [(s.flag, "")]) := by
  simp only [Level.react, s.effect, hl.settle, gathered_addOption]

theorem Gathers.settle_addValue (hl : l.Gathers given) (s : Setting) {allowed : List String}
    (h : s.value ∈ allowed) :
    (l.settle >>= fun l => l.addValue s.flag allowed (some s.value)) =
      gathered (given ++ [(s.flag, s.value)]) := by
  simp only [addValue_of_mem h, hl.settle, gathered_addOption]

/-- Switches by their letters, at a level that may have been refused already. -/
theorem gathered_readLetters (hc : c.IsClear) (more : List Letter)
    (hmore : ∀ letter ∈ more, letter.flag ∈ c.flags) :
    (gathered given >>= readLetters c.flags (more.map Letter.letter)) =
      gathered (given ++ more.map fun letter => (letter.flag, "")) := by
  induction more generalizing given with
  | nil =>
    rw [List.map_nil, List.map_nil, List.append_nil]
    cases gathered given <;> rfl
  | cons letter more ih =>
    have hfind := hc.find_of_letter letter (hmore letter List.mem_cons_self)
    have hreact : (gathered given >>= fun l => l.react letter.flag) =
        gathered (given ++ [(letter.flag, "")]) :=
      gathered_bind fun honce => (gathers_of_once honce).react letter.toSwitch
    simp only [List.map_cons, readLetters, hfind]
    rw [← bind_assoc, hreact, ih fun letter' h => hmore letter' (List.mem_cons_of_mem _ h),
      List.append_assoc]
    rfl

theorem Gathers.readLetters (hl : l.Gathers given) (hc : c.IsClear) (first : Letter)
    (more : List Letter) (hown : ∀ letter ∈ first :: more, letter.flag ∈ c.flags) :
    Level.readLetters c.flags ((first :: more).map Letter.letter) l =
      gathered (given ++ (first :: more).map fun letter => (letter.flag, "")) := by
  obtain ⟨hfirst, hmore⟩ := List.forall_mem_cons.mp hown
  have hfind := hc.find_of_letter first hfirst
  simp only [List.map_cons, Level.readLetters, hfind]
  rw [hl.react first.toSwitch, gathered_readLetters hc more hmore, List.append_assoc]
  rfl

/-! ### One word -/

theorem Gathers.read_long (hl : l.Gathers given) (hc : c.IsClear) (s : Switch)
    (hown : s.flag ∈ c.flags) :
    l.read c ("--" ++ s.flag.name) = gathered (given ++ [(s.flag, "")]) := by
  have hword := Word.of_long (hc.name_ne _ hown) (hc.notMem_name _ hown)
  simp only [read, hl.onlyOperands, hword, readLong, hc.find_name _ hown, s.effect, hl.react]
  rfl

theorem Gathers.read_letters (hl : l.Gathers given) (hc : c.IsClear) (first : Letter)
    (more : List Letter) (hown : ∀ letter ∈ first :: more, letter.flag ∈ c.flags) :
    l.read c (String.ofList ('-' :: (first :: more).map Letter.letter)) =
      gathered (given ++ (first :: more).map fun letter => (letter.flag, "")) := by
  have hdash : first.letter ≠ '-' := by
    intro hdash
    exact hc.letter_ne first.flag (hown first List.mem_cons_self) (hdash ▸ first.flag_letter)
  have hword := @Word.of_letters _ (more.map Letter.letter) hdash
  simp only [read, hl.onlyOperands, List.map_cons, hword]
  exact hl.readLetters hc first more hown

theorem Gathers.read_joined (hl : l.Gathers given) (hc : c.IsClear) (s : Setting)
    (hown : s.flag ∈ c.flags) :
    l.read c ("--" ++ s.flag.name ++ "=" ++ s.value) =
      gathered (given ++ [(s.flag, s.value)]) := by
  obtain ⟨allowed, heffect, hvalue⟩ := Effect.eq_value_of_mem s.allowed
  have hword := @Word.of_joined _ s.value (hc.notMem_name _ hown)
  simp only [read, hl.onlyOperands, hword, readLong, hc.find_name _ hown, heffect]
  exact hl.settle_addValue s hvalue

/-- The name of an option whose value is to come. -/
theorem Gathers.read_name (hl : l.Gathers given) (hc : c.IsClear) (s : Setting)
    (hown : s.flag ∈ c.flags) {allowed : List String} (heffect : s.flag.effect = .value allowed) :
    l.read c ("--" ++ s.flag.name) = gathered given >>= fun l =>
      .ok { l with waiting := some (.flag s.flag allowed none) } := by
  have hword := Word.of_long (hc.name_ne _ hown) (hc.notMem_name _ hown)
  simp only [read, hl.onlyOperands, hword, readLong, hc.find_name _ hown, heffect, hl.settle]
  rfl

end Level

/-! ### Phrases -/

namespace Command

variable {c : Command} {l : Level} {given : List (Flag × String)} {text : String}
  {rest : List String}

/-- Where a line stands after some options of a level: in front of the rest of its words, or it is
refused for a repetition. -/
inductive GoesOn (c : Command) (given : List (Flag × String)) (rest : List String) :
    Except UsageError Reading → Prop
  | reading {l : Level} (h : l.Gathers given) : GoesOn c given rest (c.parseFrom l rest)
  | repeated (h : ¬Once given) : GoesOn c given rest (.error .repeated)

theorem goesOn_gathered : c.GoesOn given rest (gathered given >>= fun l => c.parseFrom l rest) := by
  by_cases honce : Once given
  · rw [gathered_of_once honce]
    exact .reading (Level.gathers_of_once honce)
  · rw [gathered_of_not_once honce]
    exact .repeated honce

theorem IsClear.isCommand_eq_false (hc : c.IsClear) (h : isDashed text = true) :
    c.isCommand text = false := by
  have hfind : c.find? text = none := by
    refine List.find?_eq_none.mpr fun sub hsub hname => ?_
    rw [← beq_iff_eq.mp hname, hc.commands sub hsub] at h
    exact absurd h (by decide)
  have hhelp : text ≠ helpWord := by
    rintro rfl
    exact absurd h (by decide)
  simp [isCommand, hfind, hhelp]

theorem parseFrom_cons (h : (!l.onlyOperands && !l.expectsValue && c.isCommand text) = false) :
    c.parseFrom l (text :: rest) = l.read c text >>= fun l => c.parseFrom l rest := by
  rw [parseFrom, if_neg (by simp [h])]

theorem parseFrom_dashed (hc : c.IsClear) (h : isDashed text = true) :
    c.parseFrom l (text :: rest) = l.read c text >>= fun l => c.parseFrom l rest :=
  parseFrom_cons (by simp [hc.isCommand_eq_false h])

/-- An option with its value in the next word. -/
theorem goesOn_apart (hl : l.Gathers given) (hc : c.IsClear) (s : Setting)
    (hown : s.flag ∈ c.flags) :
    c.GoesOn (given ++ [(s.flag, s.value)]) rest
      (c.parseFrom l (("--" ++ s.flag.name) :: s.value :: rest)) := by
  obtain ⟨allowed, heffect, hvalue⟩ := Effect.eq_value_of_mem s.allowed
  rw [parseFrom_dashed hc (isDashed_dashes _), hl.read_name hc s hown heffect]
  by_cases honce : Once given
  · rw [gathered_of_once honce]
    -- the next word is the value, whether or not a command has that name
    have hplain := Level.Word.of_plain (hc.values _ hown _ s.allowed)
    change c.GoesOn _ _ (c.parseFrom
      { options := named given, waiting := some (.flag s.flag allowed none) } (s.value :: rest))
    rw [parseFrom_cons rfl]
    simp only [Level.read, hplain]
    refine .reading ⟨?_, rfl, rfl, rfl⟩
    exact (Level.gathers_of_once honce).settle_addValue s hvalue
  · rw [gathered_of_not_once honce]
    exact .repeated fun h => honce h.of_append

/-- One phrase. -/
theorem goesOn_phrase (hl : l.Gathers given) (hc : c.IsClear) (phrase : Phrase)
    (hown : ∀ option ∈ phrase.options, option.1 ∈ c.flags) :
    c.GoesOn (given ++ phrase.options) rest (c.parseFrom l (phrase.words ++ rest)) := by
  cases phrase with
  | long s =>
    have hflag : s.flag ∈ c.flags := hown _ List.mem_cons_self
    change c.GoesOn _ _ (c.parseFrom l (("--" ++ s.flag.name) :: rest))
    rw [parseFrom_dashed hc (isDashed_dashes _), hl.read_long hc s hflag]
    exact goesOn_gathered
  | letters first more =>
    have hflags : ∀ letter ∈ first :: more, letter.flag ∈ c.flags := fun letter hletter =>
      hown _ (List.mem_map_of_mem hletter)
    change c.GoesOn _ _ (c.parseFrom l (String.ofList _ :: rest))
    rw [parseFrom_dashed hc (by simp [isDashed]), hl.read_letters hc first more hflags]
    exact goesOn_gathered
  | apart s => exact goesOn_apart hl hc s (hown _ List.mem_cons_self)
  | joined s =>
    have hflag : s.flag ∈ c.flags := hown _ List.mem_cons_self
    change c.GoesOn _ _ (c.parseFrom l (("--" ++ s.flag.name ++ "=" ++ s.value) :: rest))
    rw [parseFrom_dashed hc (by simp [isDashed]), hl.read_joined hc s hflag]
    exact goesOn_gathered

/-- The phrases of a level, one after the other. -/
theorem goesOn_phrases (hl : l.Gathers given) (hc : c.IsClear) (level : List Phrase)
    (hown : ∀ option ∈ optionsOf level, option.1 ∈ c.flags) :
    c.GoesOn (given ++ optionsOf level) rest
      (c.parseFrom l (level.flatMap Phrase.words ++ rest)) := by
  induction level generalizing l given with
  | nil =>
    rw [optionsOf, List.flatMap_nil, List.append_nil]
    exact .reading hl
  | cons phrase level ih =>
    obtain ⟨hphrase, hlevel⟩ := List.forall_mem_append.mp hown
    have hstep := @goesOn_phrase _ _ _ (level.flatMap Phrase.words ++ rest) hl hc phrase hphrase
    change c.GoesOn (given ++ (phrase.options ++ optionsOf level)) rest
      (c.parseFrom l (phrase.words ++ level.flatMap Phrase.words ++ rest))
    rw [← List.append_assoc given, List.append_assoc phrase.words]
    generalize c.parseFrom l (phrase.words ++ _) = result at hstep ⊢
    cases hstep with
    | reading hl' => exact ih hl' hlevel
    | repeated hnot => exact .repeated fun h => hnot h.of_append

end Command

/-! ### The operand -/

namespace Level

variable {c : Command} {l : Level} {given : List (Flag × String)} {operand : Operand}
  {text : String}

theorem addOption_onlyOperands (dashes : Bool) (name value : String) :
    { l with onlyOperands := dashes }.addOption name value =
      (l.addOption name value).map fun l => { l with onlyOperands := dashes } := by
  simp only [addOption]
  split <;> rfl

theorem addValue_onlyOperands (dashes : Bool) (flag : Flag) (allowed : List String)
    (value : Option String) :
    { l with onlyOperands := dashes }.addValue flag allowed value =
      (l.addValue flag allowed value).map fun l => { l with onlyOperands := dashes } := by
  cases value with
  | none => rfl
  | some value =>
    simp only [addValue, addOption_onlyOperands]
    cases l.addOption flag.name value with
    | error e => rfl
    | ok l =>
      by_cases hallowed : allowed.contains value = true
      · simp only [hallowed, if_true]
        rfl
      · simp only [hallowed]
        rfl

/-- Two dashes do not change what waits. -/
theorem settle_onlyOperands (dashes : Bool) :
    { l with onlyOperands := dashes }.settle =
      l.settle.map fun l => { l with onlyOperands := dashes } := by
  obtain ⟨options, read, waiting, onlyOperands⟩ := l
  cases waiting with
  | none => rfl
  | some waiting =>
    cases waiting with
    | flag flag allowed value =>
      let l : Level := { options, operand := read, onlyOperands }
      exact @addValue_onlyOperands l dashes flag allowed value
    | operand operand value =>
      cases hallowed : operand.allowed with
      | none => simp only [settle, hallowed, Except.map]
      | some allowed =>
        simp only [settle, hallowed]
        split <;> rfl

/-- An operand that is allowed is taken. -/
theorem settle_operand (hallowed : ∀ allowed ∈ operand.allowed, text ∈ allowed) :
    { l with waiting := some (.operand operand text) }.settle =
      .ok { l with waiting := none, operand := some text } := by
  simp only [settle]
  cases hvalues : operand.allowed with
  | none => rfl
  | some allowed => exact if_pos (List.contains_iff_mem.mpr (hallowed allowed hvalues))

/-- A level that ends with its operand. -/
theorem Gathers.finish_operand (hl : l.Gathers given) (hcommands : c.commands = [])
    (hoperand : c.operand = some operand) (hallowed : ∀ allowed ∈ operand.allowed, text ∈ allowed)
    (dashes : Bool) :
    ({ l with onlyOperands := dashes }.readOperand c text >>= fun l => l.finish c false) =
      (gathered given).map fun l => { l with operand := some text, onlyOperands := dashes } := by
  have hnone : { l with onlyOperands := dashes }.hasOperand = false := hl.hasOperand
  simp only [readOperand, hnone, hoperand, settle_onlyOperands, hl.settle]
  by_cases honce : Once given
  · rw [gathered_of_once honce]
    let settled : Level := { options := named given, onlyOperands := dashes }
    have hsettle := @settle_operand settled operand text hallowed
    change Level.finish { settled with waiting := some (.operand operand text) } c false = _
    simp only [finish, hsettle, hcommands, hoperand]
    rfl
  · rw [gathered_of_not_once honce]
    rfl

/-- A level that ends with its options. -/
theorem Gathers.finish_options (hl : l.Gathers given) (hoperand : c.operand = none)
    {hasCommand : Bool} (hcommands : c.commands = [] ∨ hasCommand = true) :
    l.finish c hasCommand = gathered given := by
  simp only [finish, hl.settle]
  by_cases honce : Once given
  · rw [gathered_of_once honce]
    rcases hcommands with hcommands | rfl
    · simp [hcommands, hoperand, bind, Except.bind]
    · simp [hoperand, bind, Except.bind]
  · rw [gathered_of_not_once honce]
    rfl

/-- A text that is no option is the operand where no value is expected. -/
theorem Gathers.read_plain (hl : l.Gathers given) (h : isDashed text = false) :
    l.read c text = l.readOperand c text := by
  simp only [read, hl.onlyOperands, Word.of_plain h, Bool.false_eq_true, if_false]
  split
  next hwaiting =>
    have hexpects : l.expectsValue = true := by
      simp [Level.expectsValue, hwaiting, hl.onlyOperands]
    simp [hl.expectsValue] at hexpects
  next => rfl

end Level

/-! ### Lines -/

namespace Command

variable {c d : Command} {l : Level} {given : List (Flag × String)} {inner : List Phrase}
  {operand : Option String} {name : String} {rest : List String}

theorem parseFrom_nil : c.parseFrom l [] = (l.finish c false).map fun l => [(c.name, l)] := by
  rw [parseFrom]
  cases l.finish c false <;> rfl

theorem isCommand_eq_false (hcommands : c.commands = []) (text : String) :
    c.isCommand text = false := by
  simp [isCommand, find?, hcommands]

/-- The last word of a line is the operand. -/
theorem parseFrom_text (hl : l.Gathers given) (hcommands : c.commands = []) {text : String}
    (htakes : c.Takes (some text)) {dashes : Bool}
    (hread : { l with onlyOperands := dashes }.read c text =
      { l with onlyOperands := dashes }.readOperand c text) :
    c.parseFrom { l with onlyOperands := dashes } [text] = (gathered given).map fun l =>
      [(c.name, { l with operand := some text, onlyOperands := dashes })] := by
  obtain ⟨operand, hoperand, hallowed⟩ := htakes
  have hfinish := hl.finish_operand hcommands hoperand hallowed dashes
  rw [parseFrom_cons (by simp [isCommand_eq_false hcommands]), hread]
  simp only [parseFrom_nil]
  calc ({ l with onlyOperands := dashes }.readOperand c text >>= fun l =>
        (l.finish c false).map fun l => [(c.name, l)])
      = ({ l with onlyOperands := dashes }.readOperand c text >>= fun l =>
          l.finish c false).map fun l => [(c.name, l)] := by
        cases { l with onlyOperands := dashes }.readOperand c text <;> rfl
    _ = _ := by
        rw [hfinish]
        cases gathered given <;> rfl

/-- The end of a line, behind the options of its innermost command. -/
theorem parseFrom_operandWords (hl : l.Gathers given) (hcommands : c.commands = [])
    (htakes : c.Takes operand) :
    c.parseFrom l (operandWords operand) = (gathered given).map fun l =>
      [(c.name, { l with operand, onlyOperands := operand.any isDashed })] := by
  cases operand with
  | none =>
    rw [operandWords, parseFrom_nil, hl.finish_options htakes (.inl hcommands), gathered]
    split <;> rfl
  | some text =>
    cases hdashed : isDashed text with
    | true =>
      have hwords : operandWords (some text) = ["--", text] := if_pos hdashed
      have hdashes : l.read c "--" = .ok { l with onlyOperands := true } := by
        simp only [Level.read, hl.onlyOperands]
        rfl
      have hread : { l with onlyOperands := true }.read c text =
          { l with onlyOperands := true }.readOperand c text := rfl
      rw [hwords, parseFrom_cons (by simp [isCommand_eq_false hcommands]), hdashes,
        Option.any_some, hdashed]
      exact parseFrom_text hl hcommands htakes hread
    | false =>
      have hwords : operandWords (some text) = [text] := if_neg (by simp [hdashed])
      have hsame : { l with onlyOperands := false } = l := by rw [← hl.onlyOperands]
      have hread := hl.read_plain (c := c) hdashed
      rw [← hsame] at hread
      have htext := parseFrom_text hl hcommands htakes hread
      rw [hwords, Option.any_some, hdashed]
      rwa [hsame] at htext

/-- The name of a command ends a level.  What is below is read before the level is settled. -/
theorem parseFrom_name (hl : l.Gathers given) (hoperand : c.operand = none)
    (hfind : c.find? name = some d) :
    c.parseFrom l (name :: rest) = d.parseFrom {} rest >>= fun inner =>
      (gathered given).map fun l => (c.name, l) :: inner := by
  have hcommand : c.isCommand name = true := by simp [isCommand, hfind]
  rw [parseFrom, if_pos (by simp [hl.onlyOperands, hl.expectsValue, hcommand]), hfind]
  simp only [hl.finish_options hoperand (.inr rfl)]
  cases d.parseFrom {} rest with
  | error e => rfl
  | ok inner => cases gathered given <;> rfl

theorem name_of_find? (h : c.find? name = some d) : d.name = name := by
  have hsome : c.commands.find? (fun sub => sub.name == name) = some d := h
  simpa using List.find?_some hsome

/-- **A line that is written for a command.** It is read back level by level, unless one level
repeats an option: then it is refused for the repetition. -/
theorem parse_line (line : Line) (h : c.Accepts line.inner line.operand line.outer) :
    c.parse line.words =
      if ∀ level ∈ line.levels, Once (optionsOf level) then .ok (line.reading c.name)
      else .error .repeated := by
  obtain ⟨outer, inner, operand⟩ := line
  change c.Accepts inner operand outer at h
  simp only [parse, Line.reading]
  induction h with
  | @innermost c hc hown hcommands htakes =>
    have hphrases := @goesOn_phrases _ _ _ (operandWords operand) Level.gathers_nil hc inner hown
    rw [List.nil_append] at hphrases
    simp only [Line.words, Line.levels, Line.readingFrom, List.flatMap_nil, List.nil_append,
      List.map_nil, List.forall_mem_singleton]
    generalize c.parseFrom {} _ = result at hphrases ⊢
    cases hphrases with
    | reading hl =>
      rw [parseFrom_operandWords hl hcommands htakes, gathered]
      split <;> rfl
    | repeated hnot => exact (if_neg hnot).symm
  | @command c d here name outer hc hown hoperand hfind _ ih =>
    -- the levels below are read first; a repetition there or here gives the same refusal
    let below := Line.mk outer inner operand
    have hphrases := @goesOn_phrases _ _ _ (name :: below.words) Level.gathers_nil hc here hown
    rw [List.nil_append] at hphrases
    simp only [Line.words_cons, Line.levels_cons, Line.readingFrom, List.forall_mem_cons]
    rw [name_of_find? hfind] at ih
    generalize c.parseFrom {} _ = result at hphrases ⊢
    cases hphrases with
    | reading hl =>
      rw [parseFrom_name hl hoperand hfind, ih, gathered]
      by_cases honce : Once (optionsOf here)
      · simp only [honce, true_and, if_true]
        split <;> rfl
      · simp only [honce, false_and, if_false]
        split <;> rfl
    | repeated hnot => exact (if_neg fun h => hnot h.1).symm

end Command

end Reclaim.CommandLine
