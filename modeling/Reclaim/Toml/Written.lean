import Reclaim.Decimal.Rounding

/-!
# Writing texts and lists to a configuration file

A text is written in the first form that shows it as it is: in double quotes, in single quotes, in
three double quotes, in three single quotes.  If none does, it goes into double quotes with
escapes, three of them if it has several lines.

## Main definitions

* `Toml.Form`, `Toml.Form.of` : the forms, and the one for a text.
* `Toml.written` : a text in its form.
* `Toml.writtenList` : a list of texts.
-/

namespace Reclaim.Toml

/-- The form in which a text is written. -/
inductive Form where
  | basic
  | literal
  | longBasic
  | longLiteral
  deriving DecidableEq, Repr

/-- The longest run of a character. -/
def longestRun (c : Char) (chars : List Char) : Nat :=
  (chars.foldl (fun (run, longest) d =>
    let run := if d = c then run + 1 else 0
    (run, max longest run)) (0, 0)).2

/-- The character can only be written by an escape. -/
def needsCode (c : Char) : Bool :=
  (c.toNat < 0x20 && c != '\t' && c != '\n') || c.toNat == 0x7F

namespace Form

/-- The form of a text. -/
def of (chars : List Char) : Form :=
  let lines := chars.contains '\n'
  let backslash := chars.contains '\\'
  let double := longestRun '\x22' chars
  let single := longestRun '\'' chars
  if chars.any needsCode then if lines then longBasic else basic
  else if !backslash ∧ double = 0 ∧ !lines then basic
  else if single = 0 ∧ !lines then literal
  else if !backslash ∧ double ≤ 2 then longBasic
  else if single ≤ 2 then longLiteral
  else if lines then longBasic
  else basic

/-- The form goes over several lines. -/
def isLong : Form → Bool
  | longBasic | longLiteral => true
  | basic | literal => false

/-- The form has escapes. -/
def hasEscapes : Form → Bool
  | basic | longBasic => true
  | literal | longLiteral => false

/-- What stands at both ends. -/
def delimiter : Form → String
  | basic => "\""
  | literal => "'"
  | longBasic => "\"\"\""
  | longLiteral => "'''"

/-- How many double quotes in a row may stand unescaped. -/
def bareQuotes : Form → Nat
  | longBasic => 2
  | _ => 0

end Form

/-- A character written by its number. -/
def code (c : Char) : List Char :=
  let digits := (Nat.toDigits 16 c.toNat).map Char.toUpper
  ['\\', 'u'] ++ List.replicate (4 - digits.length) '0' ++ digits

/-- The escape of a character, if it has to have one in a form. -/
def escape? (form : Form) (c : Char) : Option (List Char) :=
  if c = '\\' then some ['\\', '\\']
  else if c = '\x08' then some ['\\', 'b']
  else if c = '\t' then some ['\\', 't']
  else if c = '\n' then if form.isLong then none else some ['\\', 'n']
  else if c = '\x0c' then some ['\\', 'f']
  else if c = '\r' then some ['\\', 'r']
  else if needsCode c then some (code c)
  else none

/-- A text with its escapes, after `quotes` double quotes in a row that were not escaped. -/
def escapedFrom (form : Form) (quotes : Nat) : List Char → List Char
  | [] => []
  | c :: chars =>
    if c = '\x22' then
      if quotes < form.bareQuotes then c :: escapedFrom form (quotes + 1) chars
      else '\\' :: c :: escapedFrom form 0 chars
    else
      ((escape? form c).getD [c]) ++ escapedFrom form 0 chars

/-- A text in its form; one of several lines begins on a line of its own. -/
def written (text : String) : String :=
  let chars := text.toList
  let form := Form.of chars
  let opening := form.delimiter ++ if form.isLong ∧ chars.contains '\n' then "\n" else ""
  let body := if form.hasEscapes then escapedFrom form 0 chars else chars
  opening ++ String.ofList body ++ form.delimiter

/-- A list of texts: two and more have a line each. -/
def writtenList : List String → String
  | [] => "[]"
  | [text] => "[" ++ written text ++ "]"
  | texts => "[\n" ++ String.join (texts.map fun text => "    " ++ written text ++ ",\n") ++ "]"

/-- One line of a file: a key with its value. -/
def line (key value : String) : String :=
  key ++ " = " ++ value ++ "\n"

end Reclaim.Toml
