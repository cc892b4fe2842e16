import Reclaim.CommandLine.Arguments
import Reclaim.Report.Style

/-!
# Help and completions

## Main definitions

* `Command.helpText` : what may be written after a command.
* `UsageError.text` : what is printed for a command line that is not accepted.
* `Shell.script` : completions for a shell.
-/

namespace Reclaim.CommandLine

/-- The version of the program. -/
def versionText : String := "mole 0.1.0"

/-- An option as it is written. -/
def Flag.spelling (f : Flag) : String :=
  (match f.letter with
    | some c => "-" ++ String.singleton c ++ ", "
    | none => "    ") ++ "--" ++ f.name ++
  match f.effect with
  | .value allowed => " <" ++ String.intercalate "|" allowed ++ ">"
  | _ => ""

namespace Command

/-- What may be written after a command. -/
def helpText (c : Command) : String :=
  page ([c.about, "", "Usage: " ++ c.name ++ " [OPTIONS]" ++
      (if c.commands.isEmpty then "" else " <COMMAND>") ++
      (if c.operand.isSome then " <NAME>" else ""), ""] ++
    (if c.commands.isEmpty then []
      else "Commands:" :: (c.commands.map fun sub =>
        "  " ++ Text.padRight 12 sub.name ++ "  " ++ sub.about) ++ [""]) ++
    "Options:" :: c.flags.map fun f => "  " ++ f.spelling)

end Command

/-- The text of an error in a command line. -/
def UsageError.text : UsageError → String
  | .help => program.helpText
  | .version => page [versionText]
  | .helpForMissing => program.helpText
  | .invalidCommand => page ["error: unrecognized subcommand"]
  | .invalidValue => page ["error: invalid value"]
  | .unknownArgument => page ["error: unexpected argument"]
  | .repeated => page ["error: an option cannot be used multiple times"]
  | .missingOperand => page ["error: a required argument was not provided"]
  | .missingCommand => page ["error: a subcommand is required but none was provided"]
  | .valueForSwitch => page ["error: unexpected value for an option without one"]

/-- The words of a command and of all commands inside it. -/
def commandWords : List String :=
  program.commands.flatMap fun c => c.name :: c.commands.map Command.name

/-- Completions for a shell: the words of all commands. -/
def Shell.script : Shell → String
  | .bash => page ["complete -W \"" ++ String.intercalate " " commandWords ++ "\" " ++ program.name]
  | .zsh => page ["#compdef " ++ program.name, "compadd " ++ String.intercalate " " commandWords]
  | .fish =>
    page ["complete -c " ++ program.name ++ " -f -a \"" ++ String.intercalate " " commandWords ++
      "\""]

end Reclaim.CommandLine
