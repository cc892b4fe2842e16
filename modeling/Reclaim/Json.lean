import Reclaim.Decimal.Shortest
import Reclaim.Path

/-!
# Data as indented text

Reports are printed as JSON: members in the order they were given, two blanks per level, and only
quotes, backslashes and control characters escaped.

## Main definitions

* `Json` : a value; members keep their order.
* `Json.pretty` : its text over several lines.
-/

namespace Reclaim

/-- A JSON value.  Whole numbers are kept apart from other numbers, which are not interpreted. -/
inductive Json where
  | null
  | boolean (value : Bool)
  | whole (value : Int)
  | double (value : Double)
  | text (value : String)
  | array (items : List Json)
  | object (members : List (String × Json))

instance : Inhabited Json := ⟨.null⟩

namespace Json

/-- A whole number that is not negative. -/
def natural (n : Nat) : Json :=
  .whole n

/-- The path as its text. -/
def path (p : Path) : Json :=
  .text p.text

/-- The value, or null if there is none. -/
def ofOption {α : Type} (f : α → Json) : Option α → Json
  | none => .null
  | some a => f a

/-- The first member of an object with the given key. -/
def get? (key : String) : Json → Option Json
  | .object members => members.lookup key
  | _ => none

/-! ### Text -/

/-- A digit of a base up to 16, in small letters. -/
def hexDigit (n : Nat) : Char :=
  (Nat.digitChar n).toLower

/-- A character as it stands inside quotes. -/
def escapeChar (c : Char) : List Char :=
  if c = '\x22' then ['\\', '\x22']
  else if c = '\\' then ['\\', '\\']
  else if c = '\x08' then ['\\', 'b']
  else if c = '\t' then ['\\', 't']
  else if c = '\n' then ['\\', 'n']
  else if c = '\x0c' then ['\\', 'f']
  else if c = '\r' then ['\\', 'r']
  else if c.toNat < 0x20 then
    ['\\', 'u', '0', '0', hexDigit (c.toNat / 16), hexDigit (c.toNat % 16)]
  else [c]

/-- A text in quotes. -/
def quoted (text : String) : String :=
  "\"" ++ String.ofList (text.toList.flatMap escapeChar) ++ "\""

/-- A new line at the given level. -/
private def lineAt (level : Nat) : String :=
  "\n" ++ String.ofList (List.replicate (2 * level) ' ')

mutual

/-- The text of a value at a level of nesting. -/
def prettyAt (level : Nat) : Json → String
  | .null => "null"
  | .boolean b => if b then "true" else "false"
  | .whole n => Decimal.integer n
  | .double x => x.plain?.getD "null"
  | .text t => quoted t
  | .array [] => "[]"
  | .array (item :: items) =>
    "[" ++ lineAt (level + 1) ++ prettyAt (level + 1) item ++ prettyItems (level + 1) items ++
      lineAt level ++ "]"
  | .object [] => "\x7b\x7d"
  | .object ((key, value) :: members) =>
    "\x7b" ++ lineAt (level + 1) ++ quoted key ++ ": " ++ prettyAt (level + 1) value ++
      prettyMembers (level + 1) members ++ lineAt level ++ "\x7d"

/-- The texts of the further items of an array. -/
def prettyItems (level : Nat) : List Json → String
  | [] => ""
  | item :: items => "," ++ lineAt level ++ prettyAt level item ++ prettyItems level items

/-- The texts of the further members of an object. -/
def prettyMembers (level : Nat) : List (String × Json) → String
  | [] => ""
  | (key, value) :: members =>
    "," ++ lineAt level ++ quoted key ++ ": " ++ prettyAt level value ++
      prettyMembers level members

end

/-- The text of a value over several lines. -/
def pretty (value : Json) : String :=
  prettyAt 0 value

end Json

end Reclaim
