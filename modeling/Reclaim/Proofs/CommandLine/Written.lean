import Mathlib
import Reclaim.CommandLine.Grammar
import Reclaim.Proofs.Text.Cutting

/-!
# Command lines as they are written

At each level of a command line stand phrases: a switch by its long name, some switches by their
letters behind one dash, or an option with its value, in the next word or joined to the name.  The
name of a command ends a level, and the operand of the innermost command comes last, behind two
dashes if it begins with a dash itself.

What is written can be told apart word by word if the command is clear: its options are found by
their names and letters, none of its values and commands begins with a dash, and no name holds the
mark between a name and a value.

## Main definitions

* `Phrase`, `Line` : what is written, with its words.
* `Line.reading` : the levels of a line, with the options and the operand of each.
* `Command.IsClear` : nothing that is written for a command can be taken for anything else.
* `Command.Accepts` : a line is written for a command.

## Main results

* `Level.Word.of_long`, `Level.Word.of_joined`, `Level.Word.of_letters`, `Level.Word.of_plain` : the
  kind of each word.
-/

namespace Reclaim.CommandLine

/-! ### What is written -/

/-- The values that an option takes. -/
def Effect.values : Effect → List String
  | value allowed => allowed
  | _ => []

/-- A switch. -/
structure Switch where
  flag : Flag
  effect : flag.effect = .switch

/-- A switch that has a letter. -/
structure Letter extends Switch where
  letter : Char
  flag_letter : flag.letter = some letter

/-- An option with one of the values that it takes. -/
structure Setting where
  flag : Flag
  value : String
  allowed : value ∈ flag.effect.values

/-- One way to write options. -/
inductive Phrase where
  | long (switch : Switch)
  | letters (first : Letter) (more : List Letter)
  | apart (setting : Setting)
  | joined (setting : Setting)

namespace Phrase

/-- The words of a phrase. -/
def words : Phrase → List String
  | long switch => ["--" ++ switch.flag.name]
  | letters first more => [String.ofList ('-' :: (first :: more).map Letter.letter)]
  | apart setting => ["--" ++ setting.flag.name, setting.value]
  | joined setting => ["--" ++ setting.flag.name ++ "=" ++ setting.value]

/-- The options that a phrase gives; the value of a switch is empty. -/
def options : Phrase → List (Flag × String)
  | long switch => [(switch.flag, "")]
  | letters first more => (first :: more).map fun letter => (letter.flag, "")
  | apart setting | joined setting => [(setting.flag, setting.value)]

end Phrase

/-- The options that are given at a level. -/
def optionsOf (level : List Phrase) : List (Flag × String) :=
  level.flatMap Phrase.options

/-- Options by their names. -/
def named (options : List (Flag × String)) : List (String × String) :=
  options.map fun (flag, value) => (flag.name, value)

/-- The names of options. -/
def namesOf (options : List (Flag × String)) : List String :=
  options.map fun (flag, _) => flag.name

/-- No option is given twice. -/
def Once (options : List (Flag × String)) : Prop :=
  (namesOf options).Nodup

instance : DecidablePred Once := fun _ => inferInstanceAs (Decidable (List.Nodup _))

/-- A text that begins with a dash. -/
def isDashed (text : String) : Bool :=
  text.toList.head? == some '-'

/-- The words for an operand. -/
def operandWords : Option String → List String
  | none => []
  | some text => if isDashed text then ["--", text] else [text]

/-- A command line without the name of the program. -/
structure Line where
  /-- What is written in front of each command, with the name of the command. -/
  outer : List (List Phrase × String)
  /-- What is written behind the innermost command. -/
  inner : List Phrase
  operand : Option String

namespace Line

/-- The words of a line. -/
def words (line : Line) : List String :=
  (line.outer.flatMap fun (here, name) => here.flatMap Phrase.words ++ [name]) ++
    line.inner.flatMap Phrase.words ++ operandWords line.operand

/-- The phrases of a line, level by level. -/
def levels (line : Line) : List (List Phrase) :=
  line.outer.map Prod.fst ++ [line.inner]

/-- The levels of a line behind the name of a command. -/
def readingFrom (inner : List Phrase) (operand : Option String) :
    String → List (List Phrase × String) → Reading
  | name, [] =>
    [(name, { options := named (optionsOf inner), operand, onlyOperands := operand.any isDashed })]
  | name, (here, next) :: outer =>
    (name, { options := named (optionsOf here) }) :: readingFrom inner operand next outer

/-- The levels of a line for a command of the given name. -/
def reading (line : Line) (name : String) : Reading :=
  readingFrom line.inner line.operand name line.outer

section Cons

variable {inner : List Phrase} {operand : Option String}

theorem words_cons (here : List Phrase) (name : String) (outer : List (List Phrase × String)) :
    (mk ((here, name) :: outer) inner operand).words =
      here.flatMap Phrase.words ++ name :: (mk outer inner operand).words := by
  simp [words]

theorem levels_cons (here : List Phrase) (name : String) (outer : List (List Phrase × String)) :
    (mk ((here, name) :: outer) inner operand).levels =
      here :: (mk outer inner operand).levels := by
  simp [levels]

end Cons

end Line

namespace Command

/-- Nothing that is written for a command can be taken for anything else. -/
structure IsClear (c : Command) : Prop where
  find_name : ∀ flag ∈ c.flags, c.flags.find? (fun f => f.name == flag.name) = some flag
  find_letter : ∀ flag ∈ c.flags, flag.letter.isSome →
    c.flags.find? (fun f => f.letter == flag.letter) = some flag
  name_ne : ∀ flag ∈ c.flags, flag.name.toList ≠ []
  notMem_name : ∀ flag ∈ c.flags, '=' ∉ flag.name.toList
  letter_ne : ∀ flag ∈ c.flags, flag.letter ≠ some '-'
  values : ∀ flag ∈ c.flags, ∀ value ∈ flag.effect.values, isDashed value = false
  commands : ∀ sub ∈ c.commands, isDashed sub.name = false

instance : DecidablePred IsClear := fun _ =>
  decidable_of_iff (_ ∧ _ ∧ _ ∧ _ ∧ _ ∧ _ ∧ _)
    ⟨fun ⟨h₁, h₂, h₃, h₄, h₅, h₆, h₇⟩ => ⟨h₁, h₂, h₃, h₄, h₅, h₆, h₇⟩,
      fun h => ⟨h.find_name, h.find_letter, h.name_ne, h.notMem_name, h.letter_ne, h.values,
        h.commands⟩⟩

theorem IsClear.find_of_letter {c : Command} (hc : c.IsClear) (letter : Letter)
    (hown : letter.flag ∈ c.flags) :
    c.flags.find? (fun f => f.letter == some letter.letter) = some letter.flag := by
  have hfind := hc.find_letter letter.flag hown
  rw [letter.flag_letter] at hfind
  exact hfind rfl

/-- A command takes an operand, or none. -/
def Takes (c : Command) : Option String → Prop
  | none => c.operand = none
  | some text => ∃ operand ∈ c.operand, ∀ allowed ∈ operand.allowed, text ∈ allowed

/-- What is written behind a command: the phrases of each level are made of its own options, the
names lead to a command without commands, and that command takes the operand. -/
inductive Accepts (inner : List Phrase) (operand : Option String) :
    Command → List (List Phrase × String) → Prop
  | innermost {c : Command} (clear : c.IsClear)
      (own : ∀ option ∈ optionsOf inner, option.1 ∈ c.flags) (commands : c.commands = [])
      (takes : c.Takes operand) : Accepts inner operand c []
  | command {c d : Command} {here : List Phrase} {name : String}
      {outer : List (List Phrase × String)} (clear : c.IsClear)
      (own : ∀ option ∈ optionsOf here, option.1 ∈ c.flags) (operand_eq : c.operand = none)
      (find : c.find? name = some d) (rest : Accepts inner operand d outer) :
      Accepts inner operand c ((here, name) :: outer)

end Command

/-! ### Words -/

theorem isDashed_dashes (name : String) : isDashed ("--" ++ name) = true := by
  simp [isDashed]

namespace Level

theorem Word.of_plain {text : String} (h : isDashed text = false) : Word.of text = .plain := by
  rw [isDashed, beq_eq_false_iff_ne] at h
  rw [Word.of]
  split <;> simp_all

/-- Behind two dashes stands a name, perhaps with a value. -/
theorem Word.of_dashes {text : String} {rest : List Char} (htext : text.toList = '-' :: '-' :: rest)
    (hrest : rest ≠ []) :
    Word.of text = match Text.cutAt? ['='] rest with
      | some (name, value) => .long (String.ofList name) (some (String.ofList value))
      | none => .long (String.ofList rest) none := by
  obtain ⟨c, chars, rfl⟩ := List.exists_cons_of_ne_nil hrest
  rw [Word.of, htext]
  rfl

theorem Word.of_long {name : String} (hne : name.toList ≠ []) (heq : '=' ∉ name.toList) :
    Word.of ("--" ++ name) = .long name none := by
  have hcut : Text.cutAt? ['='] name.toList = none := by
    rwa [← Option.not_isSome_iff_eq_none, Text.isSome_cutAt?_iff, List.singleton_infix_iff]
  rw [Word.of_dashes (by simp) hne, hcut, String.ofList_toList]

theorem Word.of_joined {name value : String} (heq : '=' ∉ name.toList) :
    Word.of ("--" ++ name ++ "=" ++ value) = .long name (some value) := by
  have hcut : Text.cutAt? ['='] (name.toList ++ '=' :: value.toList) =
      some (name.toList, value.toList) := by
    rw [Text.cutAt?_eq_some_iff, Text.firstAt_iff List.not_mem_nil, List.singleton_infix_iff]
    exact ⟨by simp, heq⟩
  have htext : ("--" ++ name ++ "=" ++ value).toList =
      '-' :: '-' :: (name.toList ++ '=' :: value.toList) := by
    simp
  rw [Word.of_dashes htext (by simp), hcut]
  simp only [String.ofList_toList]

theorem Word.of_letters {letter : Char} {more : List Char} (h : letter ≠ '-') :
    Word.of (String.ofList ('-' :: letter :: more)) = .letters (letter :: more) := by
  rw [Word.of, String.toList_ofList]
  split <;> simp_all

end Level

end Reclaim.CommandLine
