import Reclaim.Toml.Scalar

/-!
# Reading a configuration file

A file is a list of lines: headers, and keys with their values.  A header opens a table that takes
up the following keys.

## Main definitions

* `Toml.Statement` : a line that says something.
* `Toml.statements` : the lines of a file.
* `Toml.Fields.ofStatements?` : the table that the lines build.
* `Toml.read?` : the table of a file.
-/

namespace Reclaim.Toml

open Reader

/-! ### Values -/

/-- How many arrays and tables in braces may stand inside each other, and how many keys may be
joined by dots. -/
def depthLimit : Nat := 79

/-- Blanks, comments and line breaks inside an array. -/
def filler : Reader Unit := do
  discard (many (do
    spaces
    discard (optional comment)
    newline))
  spaces

/-- A key without dots. -/
def simpleKey : Reader String :=
  basicText <|> literalText <|> do
    return String.ofList (← span1 fun c => c.isAlphanum || c == '_' || c == '-')

/-- A key, which may be joined from several by dots. -/
def key : Reader (List String) := do
  let steps ← separated (do
    spaces
    let step ← simpleKey
    spaces
    return step) (char '.')
  if depthLimit < steps.length then failure else return steps

/-- The fields of keys with their values, in the order in which they were written. -/
def fieldsOf? (pairs : List (List String × Entry)) : Option Fields :=
  pairs.foldlM (fun fields (path, entry) =>
    match path.getLast? with
    | some last => Fields.insertDotted path.dropLast last entry fields
    | none => none) []

/-- A value that is neither array nor table. -/
def scalar : Reader Entry := do
  match ← peek with
  | some c =>
    if c == '\x22' || c == '\'' then .text <$> text
    else if c.isDigit || c == '+' || c == '-' then
      .moment <$> moment <|> .float <$> float <|> .integer <$> integer
    else .boolean <$> boolean <|> .float <$> special
  | none => failure

/-- A value with at most `depth` arrays and tables inside each other. -/
def value (depth : Nat) : Reader Entry := do
  match ← peek with
  | some '[' =>
    match depth with
    | 0 => failure
    | depth + 1 =>
      char '['
      let items ← optional (separated (do
        filler
        let item ← value depth
        filler
        return item) (char ','))
      if items.isSome then discard (optional (char ','))
      filler
      char ']'
      return .array (items.getD [])
  | some '\x7b' =>
    match depth with
    | 0 => failure
    | depth + 1 =>
      char '\x7b'
      let pairs ← optional (separated (do
        let path ← key
        char '='
        spaces
        let item ← value depth
        spaces
        return (path, item)) (char ','))
      spaces
      char '\x7d'
      match fieldsOf? (pairs.getD []) with
      | some fields => return .table .braces fields
      | none => failure
  | _ => scalar
termination_by depth

/-! ### Lines -/

/-- What a line of a file states. -/
inductive Statement where
  /-- A key has a value. -/
  | assign (path : List String) (entry : Entry)
  /-- The table that the following keys belong to. -/
  | header (path : List String)
  /-- One more table of a list, which the following keys belong to. -/
  | item (path : List String)

/-- The end of a line, behind a comment or not. -/
def lineEnd : Reader Unit := do
  spaces
  discard (optional comment)
  newline <|> atEnd

/-- A header, a list header, or a key with its value. -/
def statement : Reader Statement := do
  match ← peek with
  | some '[' =>
    (do
      exactly ['[', '[']
      let path ← key
      exactly [']', ']']
      lineEnd
      return .item path) <|>
    (do
      char '['
      let path ← key
      char ']'
      lineEnd
      return .header path)
  | _ =>
    let path ← key
    char '='
    spaces
    let entry ← value depthLimit
    lineEnd
    return .assign path entry

/-- A line that states nothing. -/
def emptyLine : Reader Unit := do
  spaces
  discard (optional comment)
  newline

/-- The statements of a file. -/
def statements : Reader (List Statement) := do
  discard (optional (char '\uFEFF'))
  let found ← many (do
    discard (many emptyLine)
    spaces
    statement)
  discard (many emptyLine)
  spaces
  discard (optional comment)
  return found

/-! ### Tables -/

/-- A table is opened under its header. -/
def Fields.openAt (change : String → Fields → Option Fields) (path : List String)
    (fields : Fields) : Option Fields :=
  match path.getLast? with
  | some last => fields.changeAt (change last) path.dropLast
  | none => none

/-- One more statement, with the path of the table that is open. -/
def Fields.step : Fields × List String → Statement → Option (Fields × List String)
  | (fields, current), .assign path entry =>
    match path.getLast? with
    | some last =>
      (fields.changeAt (Fields.insertDotted path.dropLast last entry) current).map (·, current)
    | none => none
  | (fields, _), .header path => (fields.openAt Fields.open? path).map (·, path)
  | (fields, _), .item path => (fields.openAt Fields.append? path).map (·, path)

/-- The table that statements build. -/
def Fields.ofStatements? (found : List Statement) : Option Fields :=
  (found.foldlM Fields.step ([], [])).map Prod.fst

/-- The table of a file. -/
def read? (text : String) : Option Fields :=
  (statements.all? text.toList).bind Fields.ofStatements?

end Reclaim.Toml
