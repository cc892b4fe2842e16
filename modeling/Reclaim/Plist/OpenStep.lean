import Reclaim.Plist.Value
import Reclaim.Text.Blank
import Reclaim.Text.Digits
import Reclaim.Text.Reader

/-!
# Property lists in braces

The oldest form of a property list writes dictionaries in braces and arrays in parentheses.
Separators are not looked at: they only end a text without quotes.

## Main definitions

* `Plist.OpenStep.events?` : the events of a text.
-/

namespace Reclaim.Plist.OpenStep

open Reader

/-- A character that ends a text without quotes. -/
def endsBare (c : Char) : Bool :=
  c == ' ' || c == ')' || c == '\r' || c == '\t' || c == ';' || c == ','

/-- A character between the parts of a property list. -/
def isSeparator (c : Char) : Bool :=
  c == ' ' || c == '\t' || c == '\r' || c == '\n' || c == ',' || c == ';' || c == '='

/-- Characters that are skipped: separators and comments of both kinds. -/
def skipped : Reader Unit :=
  discard (span1 isSeparator) <|>
  (do
    exactly ['/', '/']
    discard (span (· != '\n'))) <|>
  (do
    exactly ['/', '*']
    fun chars => (Text.cutAt? ['*', '/'] chars).map fun (_, rest) => ((), rest))

/-- One unit of sixteen bits as four digits. -/
def unit : Reader Nat := do
  return Text.numberOf 16 (← exactCount Text.isHexDigit 4)

/-- The character of a number that is one. -/
def charOf (n : Nat) : Reader Char :=
  if h : n.isValidChar then return Char.ofNatAux n h else failure

/-- A character by its units: one, or two that belong together. -/
def charByUnits : Reader Char := do
  let high ← unit
  if 0xD800 ≤ high ∧ high < 0xDC00 then
    exactly ['\\', 'U']
    let low ← unit
    if 0xDC00 ≤ low ∧ low < 0xE000 then
      charOf (0x10000 + (high - 0xD800) * 0x400 + (low - 0xDC00))
    else failure
  else charOf high

/-- A character written with a backslash. -/
def escaped : Reader Char := do
  char '\\'
  match ← peek with
  | some c =>
    if '0' ≤ c ∧ c ≤ '7' then
      charOf (Text.numberOf 8 (← exactCount (fun c => '0' ≤ c && c ≤ '7') 3))
    else
      discard (oneOf fun _ => true)
      match c with
      | 'a' => return '\x07'
      | 'b' => return '\x08'
      | 'f' => return '\x0c'
      | 'n' => return '\n'
      | 'r' => return '\r'
      | 't' => return '\t'
      | 'v' => return '\x0b'
      | 'U' => charByUnits
      | c => return c
  | none => failure

/-- A text in quotes of either kind. -/
def quoted : Reader Event := do
  let quote ← oneOf fun c => c == '\x22' || c == '\''
  let chars ← many (escaped <|> oneOf fun c => c != quote && c != '\\')
  char quote
  return .text (String.ofList chars)

/-- A text without quotes; a whole number is no text. -/
def bare : Reader Event := do
  let first ← oneOf fun _ => true
  let text := first :: (← span fun c => !endsBare c)
  return if isInteger text then .other else .text (String.ofList text)

/-- One part of a property list. -/
def event : Reader Event := do
  discard (many skipped)
  match ← peek with
  | some '(' => do char '('; return .openArray
  | some ')' => do char ')'; return .close
  | some '\x7b' => do char '\x7b'; return .openDictionary
  | some '\x7d' => do char '\x7d'; return .close
  | some '\x22' | some '\'' => quoted
  | some _ => bare
  | none => failure

/-- The events of a text. -/
def events? (text : List Char) : Option (List Event) :=
  Reader.all? (do
    let found ← many event
    discard (many skipped)
    return found) text

end Reclaim.Plist.OpenStep
