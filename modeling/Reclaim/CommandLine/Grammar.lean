import Reclaim.Text.Blank

/-!
# Reading command lines

A command line names a command, a command of that command, and so on.  At every level there may be
options, with a value or as switches, and at the innermost one an operand.  A value is checked when
the next option or operand of its level is read, and at the latest when the commands below its level
have been read; so an error further right can win over a wrong value.

## Main definitions

* `Flag`, `Operand`, `Command` : what may be written.
* `UsageError` : why a command line is not accepted.
* `Command.parse` : the commands, options and operand of a command line.
-/

namespace Reclaim.CommandLine

/-- Why a command line is not carried out. -/
inductive UsageError where
  /-- Help was asked for. -/
  | help
  /-- The version was asked for. -/
  | version
  /-- Nothing was given where a command is needed, so that help is shown. -/
  | helpForMissing
  | invalidCommand
  | invalidValue
  | unknownArgument
  /-- An option is repeated at one level. -/
  | repeated
  | missingOperand
  | missingCommand
  /-- A switch was given a value. -/
  | valueForSwitch
  deriving DecidableEq, Repr

/-- The exit code that goes with an error. -/
def UsageError.exitCode : UsageError → Nat
  | .help | .version => 0
  | _ => 2

/-- What an option does. -/
inductive Effect where
  /-- It takes one of some values. -/
  | value (allowed : List String)
  /-- It is on or off. -/
  | switch
  /-- It asks for help. -/
  | help
  /-- It asks for the version. -/
  | version
  deriving DecidableEq, Repr

/-- An option, by its long name and perhaps a letter. -/
structure Flag where
  name : String
  letter : Option Char := none
  effect : Effect
  deriving DecidableEq, Repr

/-- The operand of a command: any text, or one of some values. -/
structure Operand where
  allowed : Option (List String) := none
  deriving DecidableEq, Repr

/-- A command with what may follow it. -/
inductive Command where
  | mk (name about : String) (flags : List Flag) (operand : Option Operand)
    (commands : List Command)

namespace Command

/-- The name of a command. -/
def name : Command → String
  | mk name _ _ _ _ => name

/-- What a command does. -/
def about : Command → String
  | mk _ about _ _ _ => about

/-- The options of a command. -/
def flags : Command → List Flag
  | mk _ _ flags _ _ => flags

/-- The operand of a command. -/
def operand : Command → Option Operand
  | mk _ _ _ operand _ => operand

/-- The commands of a command. -/
def commands : Command → List Command
  | mk _ _ _ _ commands => commands

/-- The command of a command with the given name. -/
def find? (c : Command) (name : String) : Option Command :=
  c.commands.find? fun sub => sub.name == name

/-- The word that asks for help about a command of a command. -/
def helpWord : String := "help"

/-- The text names a command, or asks for help where there are commands. -/
def isCommand (c : Command) (text : String) : Bool :=
  (c.find? text).isSome || (!c.commands.isEmpty && text == helpWord)

end Command

/-! ### One level -/

/-- A value that waits to be checked: of an option, which may still be without it, or the
operand. -/
inductive Waiting where
  | flag (flag : Flag) (allowed : List String) (value : Option String)
  | operand (operand : Operand) (value : String)
  deriving DecidableEq, Repr

/-- What has been read at a level. -/
structure Level where
  /-- The options with their values; the value of a switch is empty. -/
  options : List (String × String) := []
  operand : Option String := none
  waiting : Option Waiting := none
  /-- Two dashes have been read, so that no option follows. -/
  onlyOperands : Bool := false
  deriving DecidableEq, Repr

namespace Level

/-- An option waits for its value. -/
def expectsValue (l : Level) : Bool :=
  match l.waiting with
  | some (.flag _ _ none) => !l.onlyOperands
  | _ => false

/-- One more option, which was not given before at this level. -/
def addOption (l : Level) (name value : String) : Except UsageError Level :=
  if (l.options.lookup name).isSome then .error .repeated
  else .ok { l with options := l.options ++ [(name, value)] }

/-- The option with its value is checked: it has one, it is new, and its value is allowed. -/
def addValue (l : Level) (flag : Flag) (allowed : List String) (value : Option String) :
    Except UsageError Level :=
  match value with
  | none => .error .invalidValue
  | some value => do
    let l ← l.addOption flag.name value
    if allowed.contains value then .ok l else .error .invalidValue

/-- The value that waits is checked. -/
def settle (l : Level) : Except UsageError Level :=
  match l.waiting with
  | none => .ok l
  | some (.flag flag allowed value) => { l with waiting := none }.addValue flag allowed value
  | some (.operand operand value) =>
    match operand.allowed with
    | some allowed =>
      if allowed.contains value then .ok { l with waiting := none, operand := some value }
      else .error .invalidValue
    | none => .ok { l with waiting := none, operand := some value }

/-- An option that needs no value has been read. -/
def react (l : Level) (flag : Flag) : Except UsageError Level := do
  let l ← l.settle
  match flag.effect with
  | .help => .error .help
  | .version => .error .version
  | .switch | .value _ => l.addOption flag.name ""

/-- An option by its long name, with the value attached to it. -/
def readLong (l : Level) (flags : List Flag) (name : String) (attached : Option String) :
    Except UsageError Level :=
  match flags.find? fun flag => flag.name == name with
  | none => .error .unknownArgument
  | some flag =>
    match flag.effect, attached with
    | .value allowed, some value => do (← l.settle).addValue flag allowed (some value)
    | .value allowed, none => do
      let l ← l.settle
      .ok { l with waiting := some (.flag flag allowed none) }
    | _, some _ => .error .valueForSwitch
    | _, none => l.react flag

/-- Options by their letters. -/
def readLetters (flags : List Flag) : List Char → Level → Except UsageError Level
  | [], l => .ok l
  | c :: letters, l =>
    match flags.find? fun flag => flag.letter == some c with
    | none => .error .unknownArgument
    | some flag => do readLetters flags letters (← l.react flag)

/-- The operand has been read or waits. -/
def hasOperand (l : Level) : Bool :=
  l.operand.isSome ||
    match l.waiting with
    | some (.operand ..) => true
    | _ => false

/-- A text that is no option: the operand, or one too many. -/
def readOperand (l : Level) (c : Command) (text : String) : Except UsageError Level :=
  match if l.hasOperand then none else c.operand with
  | some operand => do
    let l ← l.settle
    .ok { l with waiting := some (.operand operand text) }
  | none =>
    if l.onlyOperands && c.isCommand text then .error .unknownArgument
    else if c.commands.isEmpty then .error .unknownArgument
    else .error .invalidCommand

/-- What a text on a command line is. -/
inductive Word where
  | dashes
  | long (name : String) (value : Option String)
  | letters (letters : List Char)
  | plain

/-- The kind of a text; a single dash is plain. -/
def Word.of (text : String) : Word :=
  match text.toList with
  | ['-', '-'] => .dashes
  | '-' :: '-' :: rest =>
    match Text.cutAt? ['='] rest with
    | some (name, value) => .long (String.ofList name) (some (String.ofList value))
    | none => .long (String.ofList rest) none
  | '-' :: c :: rest => .letters (c :: rest)
  | _ => .plain

/-- One more text, which is no command. -/
def read (l : Level) (c : Command) (text : String) : Except UsageError Level :=
  if l.onlyOperands then l.readOperand c text
  else match Word.of text with
    | .dashes => .ok { l with onlyOperands := true }
    | .long name value => l.readLong c.flags name value
    | .letters letters => readLetters c.flags letters l
    | .plain =>
      match l.waiting with
      | some (.flag flag allowed none) =>
        .ok { l with waiting := some (.flag flag allowed (some text)) }
      | _ => l.readOperand c text

/-- The end of a level, below which a command has been read or not. -/
def finish (l : Level) (c : Command) (hasCommand : Bool) : Except UsageError Level := do
  let l ← l.settle
  if !hasCommand && !c.commands.isEmpty then
    .error (if l.options.isEmpty then .helpForMissing else .missingCommand)
  else if c.operand.isSome && l.operand.isNone then .error .missingOperand
  else .ok l

end Level

/-! ### All levels -/

/-- The commands of a command line with what was given to each, from the outermost on. -/
abbrev Reading := List (String × Level)

namespace Command

/-- The answer to a request for help about a command, named from a level on. -/
def helpFor (c : Command) : List String → UsageError
  | [] => .help
  | text :: texts =>
    match c.find? text with
    | some sub => sub.helpFor texts
    | none => if texts.isEmpty && c.isCommand text then .help else .invalidCommand

/-- A command line from a level on. -/
def parseFrom (c : Command) (l : Level) : List String → Except UsageError Reading
  | [] => do return [(c.name, ← l.finish c false)]
  | text :: texts =>
    if !l.onlyOperands && !l.expectsValue && c.isCommand text then
      match c.find? text with
      | some sub => do
        let inner ← sub.parseFrom {} texts
        return (c.name, ← l.finish c true) :: inner
      | none => .error (c.helpFor texts)
    else do
      parseFrom c (← l.read c text) texts

/-- The commands, options and operand of a command line. -/
def parse (c : Command) (texts : List String) : Except UsageError Reading :=
  c.parseFrom {} texts

end Command

end Reclaim.CommandLine
