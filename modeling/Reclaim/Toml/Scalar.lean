import Reclaim.Text.Calendar
import Reclaim.Toml.Value

/-!
# Scalars of a configuration file

Texts come in four forms: plain or verbatim, on one line or on several.  Whole numbers fit into 64
bits, other numbers are doubles, and dates must be days of the calendar.

## Main definitions

* `Toml.text`, `Toml.integer`, `Toml.float`, `Toml.moment`, `Toml.boolean` : the readers.
-/

namespace Reclaim.Toml

open Reader Text

/-! ### Characters -/

/-- A blank or a tab. -/
def isSpace (c : Char) : Bool :=
  c == ' ' || c == '\t'

/-- A character that may stand in a comment: no control character but the tab. -/
def isShown (c : Char) : Bool :=
  c == '\t' || (0x20 ≤ c.toNat && c.toNat ≠ 0x7F)

/-- Blanks and tabs. -/
def spaces : Reader Unit :=
  discard (span isSpace)

/-- The end of a line. -/
def newline : Reader Unit :=
  exactly ['\n'] <|> exactly ['\r', '\n']

/-- A comment up to the end of its line. -/
def comment : Reader Unit := do
  char '#'
  discard (span isShown)

/-! ### Texts -/

/-- A character given by the number that the next digits stand for. -/
def charByNumber (count : Nat) : Reader Char := do
  let n := numberOf 16 (← exactCount isHexDigit count)
  if h : n.isValidChar then return Char.ofNatAux n h else failure

/-- A character written with a backslash. -/
def escaped : Reader Char := do
  char '\\'
  match ← oneOf fun _ => true with
  | 'b' => return '\x08'
  | 't' => return '\t'
  | 'n' => return '\n'
  | 'f' => return '\x0c'
  | 'r' => return '\r'
  | '\x22' => return '\x22'
  | '\\' => return '\\'
  | 'u' => charByNumber 4
  | 'U' => charByNumber 8
  | _ => failure

/-- A plain text on one line. -/
def basicText : Reader String := do
  char '\x22'
  let chars ← many (escaped <|> oneOf fun c => isShown c && c != '\x22' && c != '\\')
  char '\x22'
  return String.ofList chars

/-- A verbatim text on one line. -/
def literalText : Reader String := do
  char '\''
  let chars ← span fun c => isShown c && c != '\''
  char '\''
  return String.ofList chars

/-- A backslash at the end of a line, which hides the line break and the blanks behind it. -/
def continuation : Reader (List Char) := do
  char '\\'
  spaces
  newline
  discard (many (discard (oneOf isSpace) <|> newline))
  return []

/-- One or two quotes inside a text of several lines: they are not followed by another one. -/
def innerQuotes (quote : Char) : Reader (List Char) := do
  let quotes ← exactCount (· == quote) 2 <|> exactCount (· == quote) 1
  match ← peek with
  | some c => if c == quote then failure else return quotes
  | none => failure

/-- The end of a text of several lines: three quotes, with up to two that belong to the text in
front of them. -/
def closingQuotes (quote : Char) : Reader (List Char) := do
  let quotes ← span (· == quote)
  if 3 ≤ quotes.length ∧ quotes.length ≤ 5 then return quotes.drop 3 else failure

/-- A text of several lines between triple quotes; a line break right behind the opening ones does
not belong to it. -/
def longText (quote : Char) (piece : Reader (List Char)) : Reader String := do
  exactly [quote, quote, quote]
  discard (optional newline)
  let pieces ← many (piece <|> innerQuotes quote)
  let last ← closingQuotes quote
  return String.ofList (pieces.flatten ++ last)

/-- A line break inside a text of several lines. -/
def innerNewline : Reader (List Char) := do
  newline
  return ['\n']

/-- A plain text of several lines. -/
def longBasicText : Reader String :=
  longText '\x22' (
    continuation <|>
    (fun c => [c]) <$> escaped <|>
    span1 (fun c => isShown c && c != '\x22' && c != '\\') <|>
    innerNewline)

/-- A verbatim text of several lines. -/
def longLiteralText : Reader String :=
  longText '\'' (span1 (fun c => isShown c && c != '\'') <|> innerNewline)

/-- A text in any of its forms. -/
def text : Reader String :=
  longBasicText <|> longLiteralText <|> basicText <|> literalText

/-! ### Numbers -/

/-- Digits with single low lines between them. -/
def digitsOf (p : Char → Bool) : Reader (List Char) := do
  let first ← oneOf p
  let rest ← many (oneOf p <|> do
    char '_'
    oneOf p)
  return first :: rest

/-- A sign. -/
def sign : Reader Bool := do
  return (← optional (oneOf fun c => c == '+' || c == '-')) == some '-'

/-- Decimal digits without zeros in front. -/
def plainDigits : Reader (List Char) := do
  match ← peek with
  | some '0' => exactCount (· == '0') 1
  | _ => digitsOf Char.isDigit

/-- A number that fits into 64 bits with its sign. -/
def fitting (n : Int) : Reader Int :=
  if -(Nat.pow 2 63) ≤ n ∧ n < Nat.pow 2 63 then return n else failure

/-- The digits of a whole number in one of the other bases. -/
def otherBase : Reader Int := do
  char '0'
  match ← oneOf fun _ => true with
  | 'x' => fitting (numberOf 16 (← digitsOf isHexDigit))
  | 'o' => fitting (numberOf 8 (← digitsOf fun c => '0' ≤ c && c ≤ '7'))
  | 'b' => fitting (numberOf 2 (← digitsOf fun c => c == '0' || c == '1'))
  | _ => failure

/-- A whole number. -/
def integer : Reader Int :=
  otherBase <|> do
    let negative ← sign
    let n := numberOf 10 (← plainDigits)
    fitting (if negative then -n else n)

/-- The double nearest to `mantissa * 10 ^ exponent`.  Far from the doubles the power is not
computed. -/
def doubleOf (negative : Bool) (mantissa : Nat) (exponent : Int) : Double :=
  let size := exponent + (Decimal.digits mantissa).length
  if mantissa = 0 ∨ size < -400 then .finite negative 0 0
  else if 400 < size then .infinite negative
  else match exponent with
    | .ofNat e => Double.nearest negative (mantissa * Nat.pow 10 e) 1
    | .negSucc e => Double.nearest negative mantissa (Nat.pow 10 (e + 1))

/-- The power of ten behind a number. -/
def exponent : Reader Int := do
  discard (oneOf fun c => c == 'e' || c == 'E')
  let negative ← sign
  let n := numberOf 10 (← digitsOf Char.isDigit)
  return if negative then -n else n

/-- A number with a fraction or a power of ten; one above all doubles is refused. -/
def decimal : Reader Double := do
  let negative ← sign
  let whole ← plainDigits
  let (places, power) ← (do
      char '.'
      let places ← digitsOf Char.isDigit
      return (places, (← optional exponent).getD 0)) <|>
    (do return ([], ← exponent))
  match doubleOf negative (numberOf 10 (whole ++ places)) (power - places.length) with
  | .infinite false => failure
  | x => return x

/-- A number that is none, or beyond all others. -/
def special : Reader Double := do
  let negative ← sign
  (do exactly ['i', 'n', 'f']; return .infinite negative) <|>
    (do exactly ['n', 'a', 'n']; return .nan)

/-- A number that is not written as a whole one. -/
def float : Reader Double :=
  decimal <|> special

/-- A truth value. -/
def boolean : Reader Bool :=
  (do exactly "true".toList; return true) <|> (do exactly "false".toList; return false)

/-! ### Dates and times -/

/-- A date, a time or both; only both together have a zone. -/
def momentParts : Reader Unit :=
  (do
    Calendar.date
    discard (optional (do
      discard (oneOf fun c => c == 'T' || c == 't' || c == ' ')
      Calendar.time
      discard (optional Calendar.zone)))) <|>
  Calendar.time

/-- A date, a time or both, as written. -/
def moment : Reader String := fun chars =>
  (momentParts chars).map fun (_, rest) =>
    (String.ofList (chars.take (chars.length - rest.length)), rest)

end Reclaim.Toml
