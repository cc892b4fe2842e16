import Mathlib
import Reclaim.CommandLine.Arguments
import Reclaim.Proofs.CommandLine.Levels

/-!
# The arguments that a command line stands for

Arguments are a task with the choices about how its result is shown.  Each choice that is not the
usual one has to be written, and the usual one may be: the options of the task behind its last name,
the options of every command at any level.  Whatever way of writing a line takes, it is read back as
the arguments, and a level that gives an option twice has the line refused for the repetition.

A choice is found by looking for its option through all levels.  This comes to the right value since
every level that gives the option says the same, and options are told apart by their names.

## Main definitions

* `Arguments.choices` : the choices of arguments as options.
* `Line.Writes` : a line leads to a task.
* `Line.Renders` : a line that says what arguments stand for.

## Main results

* `Line.Writes.accepts` : a line that leads to a task is one for the program.
* `Arguments.parse_words` : reading what has been written for arguments.
-/

namespace Reclaim.CommandLine

/-! ### Choices as options -/

/-- The word for a format. -/
def OutputFormat.word : OutputFormat → String
  | human => "human"
  | json => "json"
  | quiet => "quiet"

/-- The word for an order. -/
def AppSort.word : AppSort → String
  | name => "name"
  | size => "size"

/-- The word for a shell. -/
def Shell.word : Shell → String
  | bash => "bash"
  | zsh => "zsh"
  | fish => "fish"

/-- The choice of a format. -/
def formatSetting (format : OutputFormat) : Setting where
  flag := formatFlag
  value := format.word
  allowed := by cases format <;> decide

/-- The choice of an order. -/
def sortSetting (sort : AppSort) : Setting where
  flag := sortFlag
  value := sort.word
  allowed := by cases sort <;> decide

namespace Task

/-- The names that lead to a task. -/
def names : Task → List String
  | scan => ["scan"]
  | clean _ => ["clean"]
  | appsList _ => ["apps", "list"]
  | appsInfo _ => ["apps", "info"]
  | appsRemove .. => ["apps", "remove"]
  | optimize => ["optimize"]
  | authLogin => ["auth", "login"]
  | authLogout => ["auth", "logout"]
  | authStatus => ["auth", "status"]
  | configShow => ["config", "show"]
  | configReset => ["config", "reset"]
  | configInit => ["config", "init"]
  | configPath => ["config", "path"]
  | completions _ => ["completions"]

/-- The operand of a task. -/
def operand : Task → Option String
  | appsInfo name | appsRemove name _ _ => some name
  | completions shell => some shell.word
  | _ => none

/-- The choices of a task that have values. -/
def values : Task → List Setting
  | appsList sort => [sortSetting sort]
  | _ => []

/-- The switches of a task, on or off. -/
def switches : Task → List (Switch × Bool)
  | clean yes => [(⟨yesFlag, rfl⟩, yes)]
  | appsRemove _ dryRun yes => [(⟨dryRunFlag, rfl⟩, dryRun), (⟨yesFlag, rfl⟩, yes)]
  | _ => []

/-- The options that only this task has. -/
def flags : Task → List Flag
  | clean _ => [yesFlag]
  | appsList _ => [sortFlag]
  | appsRemove .. => [dryRunFlag, yesFlag]
  | _ => []

end Task

namespace Arguments

/-- The choices of arguments that have values. -/
def values (a : Arguments) : List Setting :=
  formatSetting a.format :: a.task.values

/-- The switches of arguments, on or off. -/
def switches (a : Arguments) : List (Switch × Bool) :=
  [(⟨noColorFlag, rfl⟩, a.noColor), (⟨verboseFlag, rfl⟩, a.verbose), (⟨quietFlag, rfl⟩, a.quiet)] ++
    a.task.switches

/-- The choices of arguments as options: the values, and the switches that are on. -/
def choices (a : Arguments) : List (Flag × String) :=
  (a.values.map fun setting => (setting.flag, setting.value)) ++
    (a.switches.filter Prod.snd).map fun (switch, _) => (switch.flag, "")

end Arguments

/-- The values of options that need not be written. -/
def usual : List (Flag × String) :=
  [(formatFlag, OutputFormat.human.word), (sortFlag, AppSort.name.word)]

namespace Line

/-- The options of a line, of all levels. -/
def options (line : Line) : List (Flag × String) :=
  line.levels.flatMap optionsOf

/-- The names of a line lead to a task, it has the operand of the task, and its options may stand
where they are: the options of every command anywhere, those of the task behind its last name. -/
structure Writes (line : Line) (task : Task) : Prop where
  names : line.outer.map Prod.snd = task.names
  operand : line.operand = task.operand
  outer : ∀ part ∈ line.outer, ∀ option ∈ optionsOf part.1, option.1 ∈ globalFlags
  inner : ∀ option ∈ optionsOf line.inner, option.1 ∈ task.flags ++ globalFlags

/-- No level of a line gives an option twice, the options that are given are choices of the
arguments, and what is not given is usual. -/
structure Renders (line : Line) (a : Arguments) : Prop where
  writes : line.Writes a.task
  once : ∀ level ∈ line.levels, Once (optionsOf level)
  sound : ∀ option ∈ line.options, option ∈ a.choices
  complete : ∀ option ∈ a.choices, option ∈ line.options ∨ option ∈ usual

end Line

/-! ### The commands of the program -/

/-- The names lead from a command over others to one that does something; on the way stand the
options of every command. -/
def Command.LeadsTo (own : List Flag) (operand : Option Operand) : List String → Command → Prop
  | [], c => c.IsClear ∧ c.commands.isEmpty ∧ (∀ flag ∈ own ++ globalFlags, flag ∈ c.flags) ∧
    c.operand = operand
  | name :: names, c => c.IsClear ∧ c.operand = none ∧ (∀ flag ∈ globalFlags, flag ∈ c.flags) ∧
    ∃ d ∈ c.find? name, d.LeadsTo own operand names

instance Command.decidableLeadsTo (own : List Flag) (operand : Option Operand) :
    (names : List String) → (c : Command) → Decidable (c.LeadsTo own operand names)
  | [], _ => inferInstanceAs (Decidable (_ ∧ _))
  | _ :: names, _ =>
    have := Command.decidableLeadsTo own operand names
    inferInstanceAs (Decidable (_ ∧ _))

/-- What may be written behind the names of a task. -/
def Task.takes : Task → Option Operand
  | appsInfo _ | appsRemove .. => some {}
  | completions _ => some { allowed := some (shellWords.map Prod.fst) }
  | _ => none

theorem program_leadsTo (task : Task) : program.LeadsTo task.flags task.takes task.names := by
  cases task <;> simp only [Task.flags, Task.takes, Task.names] <;> decide +kernel

theorem Task.takes_operand {c : Command} (task : Task) (h : c.operand = task.takes) :
    c.Takes task.operand := by
  cases task with
  | appsInfo | appsRemove => exact ⟨{}, h, fun _ hallowed => by cases hallowed⟩
  | completions shell =>
    refine ⟨{ allowed := some (shellWords.map Prod.fst) }, h, fun allowed hallowed => ?_⟩
    obtain rfl := Option.some.inj hallowed
    cases shell <;> decide +kernel
  | _ => exact h

theorem Command.LeadsTo.accepts {task : Task} {inner : List Phrase}
    {outer : List (List Phrase × String)} {c : Command}
    (h : c.LeadsTo task.flags task.takes (outer.map Prod.snd))
    (houter : ∀ part ∈ outer, ∀ option ∈ optionsOf part.1, option.1 ∈ globalFlags)
    (hinner : ∀ option ∈ optionsOf inner, option.1 ∈ task.flags ++ globalFlags) :
    c.Accepts inner task.operand outer := by
  induction outer generalizing c with
  | nil =>
    obtain ⟨hclear, hcommands, hflags, hoperand⟩ := h
    exact .innermost hclear (fun option hoption => hflags _ (hinner option hoption))
      (List.isEmpty_iff.mp hcommands) (task.takes_operand hoperand)
  | cons part outer ih =>
    obtain ⟨hclear, hoperand, hflags, d, hfind, hrest⟩ := h
    obtain ⟨hhere, houter⟩ := List.forall_mem_cons.mp houter
    exact .command hclear (fun option hoption => hflags _ (hhere option hoption)) hoperand hfind
      (ih hrest houter)

/-- A line that leads to a task is one for the program. -/
theorem Line.Writes.accepts {line : Line} {task : Task} (h : line.Writes task) :
    program.Accepts line.inner line.operand line.outer := by
  rw [h.operand]
  refine Command.LeadsTo.accepts ?_ h.outer h.inner
  rw [h.names]
  exact program_leadsTo task

/-! ### The choices of a reading -/

namespace Line

variable {line : Line} {name : String} {flag : Flag} {value : String}

theorem operand_reading : Reading.operand (line.reading name) = line.operand.getD "" := by
  obtain ⟨outer, inner, operand⟩ := line
  simp only [reading]
  induction outer generalizing name with
  | nil => rfl
  | cons part outer ih =>
    rw [← @ih part.2]
    cases outer <;> rfl

theorem names_reading : Reading.names (line.reading name) = line.outer.map Prod.snd := by
  obtain ⟨outer, inner, operand⟩ := line
  simp only [reading]
  induction outer generalizing name with
  | nil => rfl
  | cons part outer ih =>
    rw [List.map_cons, ← @ih part.2]
    cases outer <;> rfl

theorem options_reading :
    (line.reading name).map (fun entry => entry.2.options) =
      line.levels.map fun level => named (optionsOf level) := by
  obtain ⟨outer, inner, operand⟩ := line
  simp only [reading]
  induction outer generalizing name with
  | nil => rfl
  | cons part outer ih =>
    rw [levels_cons, List.map_cons, ← @ih part.2]
    rfl

theorem value?_reading :
    Reading.value? (line.reading name) flag =
      line.levels.reverse.findSome? fun level => (named (optionsOf level)).lookup flag.name := by
  have hmap := congrArg (fun levels => levels.reverse.findSome? (List.lookup flag.name))
    (@options_reading line name)
  simp only [← List.map_reverse, List.findSome?_map] at hmap
  exact hmap

/-- The value of an option stands where the option is given. -/
theorem exists_mem_of_value? (h : Reading.value? (line.reading name) flag = some value) :
    ∃ option ∈ line.options, option.1.name = flag.name ∧ option.2 = value := by
  rw [value?_reading] at h
  obtain ⟨level, hlevel, hlookup⟩ := List.exists_of_findSome?_eq_some h
  obtain ⟨front, back, hnamed, -⟩ := List.lookup_eq_some_iff.mp hlookup
  have hmem : (flag.name, value) ∈ named (optionsOf level) := by simp [hnamed]
  obtain ⟨option, hoption, heq⟩ := List.mem_map.mp hmem
  exact ⟨option, List.mem_flatMap.mpr ⟨level, List.mem_reverse.mp hlevel, hoption⟩,
    congrArg Prod.fst heq, congrArg Prod.snd heq⟩

/-- An option without a value is not given. -/
theorem value?_eq_none (h : Reading.value? (line.reading name) flag = none) :
    flag.name ∉ namesOf line.options := by
  rw [value?_reading, List.findSome?_eq_none_iff] at h
  intro hmem
  obtain ⟨option, hoption, hname⟩ := List.mem_map.mp hmem
  obtain ⟨level, hlevel, hoption⟩ := List.mem_flatMap.mp hoption
  have hsome : ((named (optionsOf level)).lookup flag.name).isSome = true :=
    isSome_lookup_named.mpr (List.mem_map.mpr ⟨option, hoption, hname⟩)
  rw [h level (List.mem_reverse.mpr hlevel)] at hsome
  exact absurd hsome (by decide)

end Line

/-! ### Options and choices -/

theorem Task.flags_eq (task : Task) :
    task.values.map Setting.flag ++ (task.switches.map fun (switch, _) => switch.flag) =
      task.flags := by
  cases task <;> rfl

namespace Arguments

variable (a : Arguments)

/-- The options that arguments are about, given or not. -/
def flags : List Flag :=
  a.values.map Setting.flag ++ a.switches.map fun (switch, _) => switch.flag

theorem nodup_names : (a.flags.map Flag.name).Nodup := by
  simp only [flags, values, switches, formatSetting]
  cases a.task <;> simp only [Task.values, Task.switches, sortSetting, List.map_cons, List.map_nil,
    List.cons_append, List.nil_append, List.append_nil] <;> decide

theorem flags_choices_sublist : (a.choices.map Prod.fst).Sublist a.flags := by
  rw [choices, flags, List.map_append, List.map_map, List.map_map]
  exact (List.Sublist.refl _).append (List.filter_sublist.map _)

/-- The choices of arguments are options of different names. -/
theorem once_choices : Once a.choices := by
  have hnames := a.flags_choices_sublist.map Flag.name
  rw [List.map_map] at hnames
  exact a.nodup_names.sublist hnames

theorem mem_choices_of_value {a : Arguments} {setting : Setting} (h : setting ∈ a.values) :
    (setting.flag, setting.value) ∈ a.choices :=
  List.mem_append_left _ (List.mem_map.mpr ⟨setting, h, rfl⟩)

theorem mem_choices_of_switch {a : Arguments} {switch : Switch} (h : (switch, true) ∈ a.switches) :
    (switch.flag, "") ∈ a.choices :=
  List.mem_append_right _ (List.mem_map.mpr ⟨_, List.mem_filter.mpr ⟨h, rfl⟩, rfl⟩)

/-- A switch with the name of a choice is on. -/
theorem eq_true_of_mem_choices {a : Arguments} {switch : Switch} {on : Bool}
    (h : (switch, on) ∈ a.switches) {option : Flag × String} (hmem : option ∈ a.choices)
    (hname : option.1.name = switch.flag.name) : on = true := by
  have hnodup := a.nodup_names
  rw [flags, List.map_append, List.map_map, List.map_map] at hnodup
  rcases List.mem_append.mp hmem with hmem | hmem
  · obtain ⟨setting, hsetting, rfl⟩ := List.mem_map.mp hmem
    have hdisjoint := List.disjoint_of_nodup_append hnodup
    exact (hdisjoint (List.mem_map.mpr ⟨setting, hsetting, hname⟩)
      (List.mem_map.mpr ⟨_, h, rfl⟩)).elim
  · obtain ⟨⟨other, on'⟩, hother, rfl⟩ := List.mem_map.mp hmem
    obtain ⟨hother, hon⟩ := List.mem_filter.mp hother
    have hsame := List.inj_on_of_nodup_map hnodup.of_append_right hother h hname
    exact (congrArg Prod.snd hsame).symm.trans hon

end Arguments

/-! ### What a line says -/

namespace Line.Renders

variable {line : Line} {a : Arguments} {name : String}

/-- A switch is on if it stands anywhere on the line. -/
theorem isOn_eq (h : line.Renders a) {switch : Switch} {on : Bool}
    (hswitch : (switch, on) ∈ a.switches) :
    Reading.isOn (line.reading name) switch.flag = on := by
  rw [Reading.isOn]
  cases hvalue : Reading.value? (line.reading name) switch.flag with
  | none =>
    cases on with
    | false => rfl
    | true =>
      rcases h.complete _ (Arguments.mem_choices_of_switch hswitch) with hline | husual
      · exact absurd (List.mem_map.mpr ⟨_, hline, rfl⟩) (Line.value?_eq_none hvalue)
      · simp [usual, OutputFormat.word, AppSort.word] at husual
  | some value =>
    obtain ⟨option, hoption, hname, -⟩ := Line.exists_mem_of_value? hvalue
    exact (Arguments.eq_true_of_mem_choices hswitch (h.sound option hoption) hname).symm

/-- A value stands on the line, or it is the usual one. -/
theorem value?_eq (h : line.Renders a) {setting : Setting} (hsetting : setting ∈ a.values) :
    Reading.value? (line.reading name) setting.flag = some setting.value ∨
      Reading.value? (line.reading name) setting.flag = none ∧
        (setting.flag, setting.value) ∈ usual := by
  have hchoice := Arguments.mem_choices_of_value hsetting
  cases hvalue : Reading.value? (line.reading name) setting.flag with
  | none =>
    refine .inr ⟨rfl, (h.complete _ hchoice).resolve_left fun hline => ?_⟩
    exact Line.value?_eq_none hvalue (List.mem_map.mpr ⟨_, hline, rfl⟩)
  | some found =>
    obtain ⟨option, hoption, hname, rfl⟩ := Line.exists_mem_of_value? hvalue
    have hsame : option = (setting.flag, setting.value) :=
      List.inj_on_of_nodup_map a.once_choices (h.sound option hoption) hchoice hname
    exact .inl (by rw [hsame])

/-- What a value stands for is read back, if the usual value stands for the usual choice. -/
theorem choice_eq {α : Type} {words : List (String × α)} {chosen other : α} (h : line.Renders a)
    {setting : Setting} (hsetting : setting ∈ a.values)
    (hword : words.lookup setting.value = some chosen)
    (husual : (setting.flag, setting.value) ∈ usual → chosen = other) :
    Reading.choice words other (Reading.value? (line.reading name) setting.flag) = chosen := by
  rcases h.value?_eq hsetting with hvalue | ⟨hvalue, hmem⟩
  · rw [hvalue, Reading.choice, Option.bind_some, hword, Option.getD_some]
  · rw [hvalue, husual hmem]
    rfl

theorem format_eq (h : line.Renders a) :
    Reading.choice formatWords .human (Reading.value? (line.reading name) formatFlag) =
      a.format := by
  have hmem : formatSetting a.format ∈ a.values := List.mem_cons_self
  refine h.choice_eq hmem ?_ ?_
  · cases a.format <;> rfl
  · cases a.format <;> decide

theorem sort_eq (h : line.Renders a) {sort : AppSort} (htask : a.task = .appsList sort) :
    Reading.choice sortWords .name (Reading.value? (line.reading name) sortFlag) = sort := by
  have hmem : sortSetting sort ∈ a.values := by simp [Arguments.values, htask, Task.values]
  refine h.choice_eq hmem ?_ ?_
  · cases sort <;> rfl
  · cases sort <;> decide

/-- The task is read from its names, its operand and its own choices. -/
theorem task?_eq (h : line.Renders a) : Reading.task? (line.reading name) = some a.task := by
  have hnames : Reading.names (line.reading name) = a.task.names := by
    rw [Line.names_reading, h.writes.names]
  have hoperand : Reading.operand (line.reading name) = a.task.operand.getD "" := by
    rw [Line.operand_reading, h.writes.operand]
  have hswitch {switch : Switch} {on : Bool} (hmem : (switch, on) ∈ a.task.switches) :
      Reading.isOn (line.reading name) switch.flag = on :=
    h.isOn_eq (List.mem_append_right _ hmem)
  rw [Reading.task?, hnames, hoperand]
  cases htask : a.task with
  | clean yes =>
    rw [htask] at hswitch
    have hyes := hswitch List.mem_cons_self
    simp only [Task.names, hyes]
  | appsList sort => simp only [Task.names, h.sort_eq htask]
  | appsRemove app dryRun yes =>
    rw [htask] at hswitch
    have hdryRun := hswitch List.mem_cons_self
    have hyes := hswitch (List.mem_cons_of_mem _ List.mem_cons_self)
    simp only [Task.names, Task.operand, Option.getD_some, hdryRun, hyes]
  | completions shell => cases shell <;> rfl
  | _ => rfl

/-- A reading of what has been written for arguments stands for them. -/
theorem ofReading?_eq (h : line.Renders a) :
    Arguments.ofReading? (line.reading name) = some a := by
  have hnoColor : Reading.isOn (line.reading name) noColorFlag = a.noColor :=
    @isOn_eq _ _ name h _ _ (List.mem_append_left _ List.mem_cons_self)
  have hverbose : Reading.isOn (line.reading name) verboseFlag = a.verbose :=
    @isOn_eq _ _ name h _ _
      (List.mem_append_left _ (List.mem_cons_of_mem _ List.mem_cons_self))
  have hquiet : Reading.isOn (line.reading name) quietFlag = a.quiet :=
    @isOn_eq _ _ name h _ _
      (List.mem_append_left _ (List.mem_cons_of_mem _ (List.mem_cons_of_mem _ List.mem_cons_self)))
  rw [Arguments.ofReading?, h.task?_eq, h.format_eq, hnoColor, hverbose, hquiet]
  rfl

end Line.Renders

/-! ### One line for all arguments -/

namespace Arguments

variable (a : Arguments)

/-- A line that says all choices behind the last name. -/
def line : Line where
  outer := a.task.names.map fun name => ([], name)
  inner := a.values.map .joined ++ (a.switches.filter Prod.snd).map fun (switch, _) => .long switch
  operand := a.task.operand

theorem optionsOf_line : optionsOf a.line.inner = a.choices := by
  simp only [line, choices, optionsOf, List.flatMap_append, List.flatMap_map, Phrase.options,
    ← List.map_eq_flatMap]

theorem flag_mem_of_mem_choices {option : Flag × String} (h : option ∈ a.choices) :
    option.1 ∈ a.task.flags ++ globalFlags := by
  have hmem := a.flags_choices_sublist.subset (List.mem_map.mpr ⟨option, h, rfl⟩)
  rw [← a.task.flags_eq]
  simp only [flags, values, switches, formatSetting, List.map_cons, List.map_append,
    List.mem_append, List.mem_cons, globalFlags] at hmem ⊢
  grind

/-- All arguments can be written. -/
theorem renders_line : a.line.Renders a := by
  have houter : ∀ part ∈ a.line.outer, part.1 = [] := by simp [line]
  have hlevels : ∀ level ∈ a.line.levels, level = [] ∨ level = a.line.inner := by
    intro level hlevel
    rcases List.mem_append.mp hlevel with hlevel | hlevel
    · obtain ⟨part, hpart, rfl⟩ := List.mem_map.mp hlevel
      exact .inl (houter part hpart)
    · exact .inr (List.mem_singleton.mp hlevel)
  have hoptions : ∀ option, option ∈ a.line.options ↔ option ∈ a.choices := by
    intro option
    rw [← a.optionsOf_line, Line.options, List.mem_flatMap]
    constructor
    · rintro ⟨level, hlevel, hoption⟩
      rcases hlevels level hlevel with rfl | rfl
      · cases hoption
      · exact hoption
    · exact fun hoption => ⟨a.line.inner, by simp [Line.levels], hoption⟩
  refine ⟨⟨?_, rfl, fun part hpart => ?_, ?_⟩, fun level hlevel => ?_,
    fun option => (hoptions option).mp, fun option h => .inl ((hoptions option).mpr h)⟩
  · simp [line, Function.comp_def]
  · simp [houter part hpart, optionsOf]
  · rw [a.optionsOf_line]
    exact fun option => a.flag_mem_of_mem_choices
  · rcases hlevels level hlevel with rfl | rfl
    · exact once_nil
    · rw [a.optionsOf_line]
      exact a.once_choices

end Arguments

/-! ### Reading what has been written -/

/-- A reading of the whole line is a reading of its words. -/
theorem Line.Writes.parse_eq {line : Line} {task : Task} (h : line.Writes task) :
    program.parse line.words =
      if ∀ level ∈ line.levels, Once (optionsOf level) then .ok (line.reading program.name)
      else .error .repeated :=
  Command.parse_line line h.accepts

/-- **Reading what has been written for arguments.** All arguments can be written, and any line that
says their choices is read back as these arguments, with every option at any level where it may
stand and in any of its spellings.  A line that leads to a task but gives an option twice at one
level is refused for the repetition. -/
theorem Arguments.parse_words :
    (∀ a : Arguments, ∃ line : Line, line.Renders a) ∧
    (∀ (a : Arguments) (line : Line), line.Renders a → Arguments.parse line.words = .ok a) ∧
    ∀ (task : Task) (line : Line), line.Writes task →
      (∃ level ∈ line.levels, ¬Once (optionsOf level)) →
      Arguments.parse line.words = .error .repeated := by
  refine ⟨fun a => ⟨a.line, a.renders_line⟩, ?_, ?_⟩
  · intro a line h
    rw [Arguments.parse, h.writes.parse_eq, if_pos h.once]
    simp only [bind, Except.bind, h.ofReading?_eq]
  · rintro task line h ⟨level, hlevel, hrepeated⟩
    rw [Arguments.parse, h.parse_eq, if_neg fun honce => hrepeated (honce level hlevel)]
    rfl

/-- Options at three levels, letters behind one dash, and a name that looks like an option; and a
switch given by its letter and by its name at one level. -/
theorem Arguments.parse_words_three_levels :
    Arguments.parse ["--format", "json", "apps", "-v", "remove", "-yq", "--dry-run", "--no-color",
      "--", "--yes"] =
        .ok ⟨.appsRemove "--yes" true true, .json, true, true, true⟩ ∧
    Arguments.parse ["--format=human", "clean", "-v", "--verbose"] = .error .repeated := by
  let yes : Letter := ⟨⟨yesFlag, rfl⟩, 'y', rfl⟩
  let quiet : Letter := ⟨⟨quietFlag, rfl⟩, 'q', rfl⟩
  let verbose : Letter := ⟨⟨verboseFlag, rfl⟩, 'v', rfl⟩
  let remove : Line :=
    { outer := [([.apart ⟨formatFlag, "json", by decide⟩], "apps"),
        ([.letters verbose []], "remove")]
      inner := [.letters yes [quiet], .long ⟨dryRunFlag, rfl⟩, .long ⟨noColorFlag, rfl⟩]
      operand := some "--yes" }
  let clean : Line :=
    { outer := [([.joined ⟨formatFlag, "human", by decide⟩], "clean")]
      inner := [.letters verbose [], .long verbose.toSwitch]
      operand := none }
  have hremove : remove.Renders ⟨.appsRemove "--yes" true true, .json, true, true, true⟩ :=
    ⟨⟨rfl, rfl, by decide, by decide⟩, by decide, by decide, by decide⟩
  have hclean : clean.Writes (.clean false) := ⟨rfl, rfl, by decide, by decide⟩
  have hrepeated : ∃ level ∈ clean.levels, ¬Once (optionsOf level) :=
    ⟨clean.inner, by simp [Line.levels], by decide⟩
  exact ⟨parse_words.2.1 _ _ hremove, parse_words.2.2 _ _ hclean hrepeated⟩

end Reclaim.CommandLine
