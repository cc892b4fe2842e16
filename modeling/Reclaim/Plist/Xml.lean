import Reclaim.Plist.Value
import Reclaim.Text.Blank
import Reclaim.Text.Calendar

/-!
# Property lists in XML

The XML form is read mark by mark.  Comments, instructions, declarations and literal sections are
skipped; between elements only blanks may stand; an element for a leaf holds nothing but text.

## Main definitions

* `Plist.Xml.Mark`, `Plist.Xml.marks?` : the marks of a text.
* `Plist.Xml.events?` : the events that the marks stand for.
-/

namespace Reclaim.Plist.Xml

open Reader

/-! ### Marks -/

/-- A mark of an XML text. -/
inductive Mark where
  /-- The beginning of an element. -/
  | start (name : String)
  /-- The end of an element. -/
  | close (name : String)
  /-- A stretch of characters. -/
  | chars (text : List Char)
  /-- A name between an ampersand and a semicolon. -/
  | reference (name : List Char)
  /-- A comment, an instruction, a declaration or a literal section. -/
  | skipped

/-- Everything up to a given end, which is taken as well. -/
def through (mark : List Char) : Reader (List Char) := fun chars =>
  Text.cutAt? mark chars

/-- The rest of a declaration in angle brackets, `open` of which are to be closed. -/
def declarationRest : Nat → List Char → Option (List Char)
  | _, [] => none
  | depth, '<' :: chars => declarationRest (depth + 1) chars
  | 0, '>' :: chars => some chars
  | depth + 1, '>' :: chars => declarationRest depth chars
  | depth, _ :: chars => declarationRest depth chars

/-- What is inside a tag, up to an angle bracket outside quotes. -/
def tagBody : Option Char → List Char → Option (List Char × List Char)
  | _, [] => none
  | none, '>' :: chars => some ([], chars)
  | quote, c :: chars =>
    let quote := match quote with
      | some q => if c = q then none else some q
      | none => if c = '\x22' ∨ c = '\'' then some c else none
    (tagBody quote chars).map fun (body, rest) => (c :: body, rest)

/-- The name at the front of a tag, without the part in front of a colon. -/
def tagName (body : List Char) : String :=
  let name := body.takeWhile fun c => !(c == ' ' || c == '\t' || c == '\n' || c == '\r')
  match name.dropWhile (· != ':') with
  | _ :: name => String.ofList name
  | [] => String.ofList name

/-- A mark that begins with `<!`. -/
def declaration : Reader (List Mark) :=
  (do exactly "<!--".toList; discard (through "-->".toList); return [.skipped]) <|>
  (do exactly "<![CDATA[".toList; discard (through "]]>".toList); return [.skipped]) <|>
  (do
    exactly "<!".toList
    let name ← exactCount Char.isAlpha 7
    if name.map Char.toUpper = "DOCTYPE".toList then
      fun chars => (declarationRest 0 chars).map fun rest => ([.skipped], rest)
    else failure)

/-- A tag; an empty element begins and ends. -/
def tag : Reader (List Mark) := do
  char '<'
  let body : List Char ← fun chars => tagBody none chars
  match body with
  | '/' :: name => return [.close (tagName name)]
  | _ =>
    if body.getLast? = some '/' then
      let name := tagName body.dropLast
      return [.start name, .close name]
    else return [.start (tagName body)]

/-- A reference, which ends before anything else begins. -/
def reference : Reader (List Mark) := do
  char '&'
  let name ← span fun c => c != ';' && c != '&' && c != '<'
  char ';'
  return [.reference name]

/-- The next marks of a text. -/
def nextMarks : Reader (List Mark) := do
  match ← peek with
  | some '<' =>
    declaration <|>
    (do exactly "<?".toList; discard (through "?>".toList); return [.skipped]) <|>
    tag
  | some '&' => reference
  | _ => return [.chars (← span1 fun c => c != '<' && c != '&')]

/-- The marks of a whole text. -/
def marks? (text : List Char) : Option (List Mark) :=
  (Reader.all? (many nextMarks) text).map List.flatten

/-! ### Leaves -/

/-- The character that a reference stands for; references with unknown names stand for none. -/
def resolve (name : List Char) : Option (List Char) :=
  match name with
  | '#' :: digits =>
    let (base, digits) : Nat × List Char := match digits with
      | 'x' :: digits => (16, digits)
      | digits => (10, digits)
    let valid := if base = 16 then digits.all Text.isHexDigit else digits.all Char.isDigit
    let n := Text.numberOf base digits
    if digits = [] ∨ !valid ∨ n = 0 then none
    else if h : n.isValidChar then some [Char.ofNatAux n h] else none
  | _ =>
    some (match String.ofList name with
      | "lt" => ['<']
      | "gt" => ['>']
      | "amp" => ['&']
      | "apos" => ['\'']
      | "quot" => ['\x22']
      | _ => [])

/-- A number with or without a fraction and a power of ten. -/
def realDigits : Reader Unit := do
  let whole ← span Char.isDigit
  let places ← (do char '.'; span Char.isDigit) <|> pure []
  if whole = [] ∧ places = [] then failure
  discard (optional (do
    discard (oneOf fun c => c == 'e' || c == 'E')
    discard (optional (oneOf fun c => c == '+' || c == '-'))
    span1 Char.isDigit))

/-- The text is a number. -/
def isReal (text : List Char) : Bool :=
  let body := match text with
    | '-' :: body => body
    | '+' :: body => body
    | body => body
  let word := String.ofList (body.map Char.toLower)
  word = "inf" || word = "infinity" || word = "nan" || (Reader.all? realDigits body).isSome

/-- The text is a moment with its zone. -/
def isDate (text : List Char) : Bool :=
  (Reader.all? (do
    Text.Calendar.date
    discard (oneOf fun c => c == 'T' || c == 't')
    Text.Calendar.time
    Text.Calendar.zone) text).isSome

/-- The value of a digit of base 64. -/
def digit64? (c : Char) : Option Nat :=
  if 'A' ≤ c ∧ c ≤ 'Z' then some (c.toNat - 65)
  else if 'a' ≤ c ∧ c ≤ 'z' then some (c.toNat - 71)
  else if '0' ≤ c ∧ c ≤ '9' then some (c.toNat + 4)
  else if c = '+' then some 62
  else if c = '/' then some 63
  else none

/-- The text is data in base 64: groups of four digits, the last one filled up with `=`, and no
bits left over. -/
def isData (text : List Char) : Bool :=
  let chars := text.filter fun c =>
    !(c == ' ' || c == '\t' || c == '\n' || c == '\r' || c == '\x0c')
  let digits := Text.dropEndWhile (· == '=') chars
  let filled := chars.length - digits.length
  let left := match filled with
    | 1 => 4
    | 2 => 16
    | _ => 1
  chars.length % 4 = 0 && filled ≤ 2 && digits.all (fun c => (digit64? c).isSome) &&
    (match digits.getLast?.bind digit64? with
      | some d => d % left = 0
      | none => true)

/-- The event of an element that holds a text; `none` for names that are no such elements. -/
def leaf? (name : String) (text : List Char) : Option Event :=
  match name with
  | "key" | "string" => some (.text (String.ofList text))
  | "integer" => if isInteger text then some .other else none
  | "real" => if isReal text then some .other else none
  | "date" => if isDate text then some .other else none
  | "data" => if isData text then some .other else none
  | _ => none

/-- The elements that hold a text. -/
def leafNames : List String :=
  ["key", "string", "integer", "real", "date", "data"]

/-! ### Events -/

/-- Where the reader of marks stands. -/
structure Position where
  /-- The elements that are open, the innermost in front. -/
  opened : List String := []
  /-- The text of the leaf that is open. -/
  leaf : Option (List Char) := none
  events : List Event := []

/-- An element begins. -/
def Position.start (p : Position) (name : String) : Option Position :=
  if p.leaf.isSome then none
  else
    let p := { p with opened := name :: p.opened }
    if name = "plist" then some p
    else if name = "array" then some { p with events := p.events ++ [.openArray] }
    else if name = "dict" then some { p with events := p.events ++ [.openDictionary] }
    else if name = "true" ∨ name = "false" then some { p with events := p.events ++ [.other] }
    else if leafNames.contains name then some { p with leaf := some [] }
    else none

/-- An element ends, which must be the innermost one. -/
def Position.close (p : Position) (name : String) : Option Position :=
  match p.opened with
  | innermost :: opened =>
    if innermost ≠ name then none
    else
      let p := { p with opened }
      match p.leaf with
      | some text => (leaf? name text).map fun e =>
          { p with leaf := none, events := p.events ++ [e] }
      | none =>
        if name = "array" ∨ name = "dict" then some { p with events := p.events ++ [.close] }
        else some p
  | [] => none

/-- One more mark. -/
def Position.step (p : Position) : Mark → Option Position
  | .start name => p.start name
  | .close name => p.close name
  | .chars text =>
    match p.leaf with
    | some front => some { p with leaf := some (front ++ text) }
    | none => if text.all Text.isBlank then some p else none
  | .reference name =>
    match p.leaf, resolve name with
    | some front, some text => some { p with leaf := some (front ++ text) }
    | _, _ => none
  | .skipped => some p

/-- The events of a text; a byte order mark in front does not count. -/
def events? (text : List Char) : Option (List Event) := do
  let text := match text with
    | '\uFEFF' :: text => text
    | text => text
  let p ← (← marks? text).foldlM Position.step {}
  if p.leaf.isSome then none else some p.events

end Reclaim.Plist.Xml
