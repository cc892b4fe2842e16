import Reclaim.Text.Digits

/-!
# Property lists

A property list is a tree of arrays and dictionaries.  All written forms give the same stream of
events, from which the tree is built: in a dictionary keys and values alternate, and a key that
comes again replaces its value.

## Main definitions

* `Plist.Event` : a step of the stream.
* `Plist.isInteger` : the numbers among the leaves.
* `Plist.Value` : a tree; of its leaves only texts are kept.
* `Plist.Value.ofEvents?` : the tree of a stream.
* `Plist.Value.textAt?` : the text under a key of a dictionary.
-/

namespace Reclaim.Plist

/-- A step of the stream that a written property list gives. -/
inductive Event where
  | text (value : String)
  /-- A number, a date, a truth value or data. -/
  | other
  | openArray
  | openDictionary
  /-- The end of an array or a dictionary. -/
  | close
  deriving DecidableEq, Repr

/-- The text is a whole number of 64 bits: decimal with a sign, or hexadecimal. -/
def isInteger (text : List Char) : Bool :=
  match text with
  | '0' :: 'x' :: digits =>
    digits ≠ [] && digits.all Text.isHexDigit && Text.numberOf 16 digits < Nat.pow 2 64
  | _ =>
    let (negative, digits) : Bool × List Char := match text with
      | '-' :: digits => (true, digits)
      | '+' :: digits => (false, digits)
      | digits => (false, digits)
    let n := Text.numberOf 10 digits
    digits ≠ [] && digits.all Char.isDigit &&
      (if negative then n ≤ Nat.pow 2 63 else n < Nat.pow 2 64)

/-- A property list. -/
inductive Value where
  | text (value : String)
  /-- A number, a date, a truth value or data. -/
  | other
  | array (items : List Value)
  | dictionary (fields : List (String × Value))

namespace Value

/-- The fields of a dictionary with one more, which replaces the one before with its key. -/
def insert (key : String) (value : Value) : List (String × Value) → List (String × Value)
  | [] => [(key, value)]
  | field :: fields =>
    if field.1 = key then (key, value) :: fields else field :: insert key value fields

/-- An array or a dictionary that is not closed yet. -/
inductive Open where
  | array (items : List Value)
  | dictionary (fields : List (String × Value))
  /-- A dictionary in which a key waits for its value. -/
  | keyed (fields : List (String × Value)) (key : String)

/-- How far the tree is built. -/
inductive Building where
  /-- The innermost open array or dictionary is in front. -/
  | pending (stack : List Open)
  | complete (value : Value)

/-- One more value for the innermost open array or dictionary. -/
def place (value : Value) : List Open → Option Building
  | [] => some (.complete value)
  | .array items :: stack => some (.pending (.array (items ++ [value]) :: stack))
  | .keyed fields key :: stack => some (.pending (.dictionary (insert key value fields) :: stack))
  | .dictionary fields :: stack =>
    match value with
    | .text key => some (.pending (.keyed fields key :: stack))
    | _ => none

/-- Values may stand here: the innermost open dictionary does not wait for a key. -/
def allowsOpening : List Open → Bool
  | .dictionary _ :: _ => false
  | _ => true

/-- One more event. -/
def step : Building → Event → Option Building
  | .complete _, _ => none
  | .pending stack, .text t => place (.text t) stack
  | .pending stack, .other => place .other stack
  | .pending stack, .openArray =>
    if allowsOpening stack then some (.pending (.array [] :: stack)) else none
  | .pending stack, .openDictionary =>
    if allowsOpening stack then some (.pending (.dictionary [] :: stack)) else none
  | .pending (.array items :: stack), .close => place (.array items) stack
  | .pending (.dictionary fields :: stack), .close => place (.dictionary fields) stack
  | .pending _, .close => none

/-- The tree of a stream of events, which holds exactly one. -/
def ofEvents? (events : List Event) : Option Value := do
  match ← events.foldlM step (.pending []) with
  | .complete value => return value
  | .pending _ => none

/-- The text under a key of a dictionary. -/
def textAt? (key : String) : Value → Option String
  | .dictionary fields =>
    match fields.lookup key with
    | some (.text t) => some t
    | _ => none
  | _ => none

end Value

end Reclaim.Plist
