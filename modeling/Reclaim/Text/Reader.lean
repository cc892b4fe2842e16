/-!
# Readers

A reader takes a value from the front of a list of characters and leaves the rest, or fails and
leaves everything.  Readers are run one after the other, tried in turn, and repeated as long as
they succeed.

## Main definitions

* `Reader` : a reader of values of a type.
* `Reader.exactly`, `Reader.oneOf`, `Reader.span` : readers of characters.
* `Reader.many`, `Reader.separated` : repetition.
* `Reader.all?` : a text read from its beginning to its end.
-/

namespace Reclaim

/-- A reader of values from the front of a list of characters. -/
abbrev Reader (α : Type) := StateT (List Char) Option α

namespace Reader

/-- The next character, which stays. -/
def peek : Reader (Option Char) := fun chars =>
  some (chars.head?, chars)

/-- The next character, if it satisfies `p`. -/
def oneOf (p : Char → Bool) : Reader Char := fun chars =>
  match chars with
  | c :: rest => if p c then some (c, rest) else none
  | [] => none

/-- The given character. -/
def char (c : Char) : Reader Unit :=
  discard (oneOf (· == c))

/-- The given characters. -/
def exactly : List Char → Reader Unit
  | [] => pure ()
  | c :: cs => do
    char c
    exactly cs

/-- The longest stretch of characters that satisfy `p`. -/
def span (p : Char → Bool) : Reader (List Char) := fun chars =>
  some (chars.takeWhile p, chars.dropWhile p)

/-- The longest stretch of characters that satisfy `p`, which holds at least one. -/
def span1 (p : Char → Bool) : Reader (List Char) := do
  let c ← oneOf p
  return c :: (← span p)

/-- A fixed number of characters that satisfy `p`. -/
def exactCount (p : Char → Bool) : Nat → Reader (List Char)
  | 0 => pure []
  | n + 1 => do
    let c ← oneOf p
    return c :: (← exactCount p n)

/-- Succeeds at the end only. -/
def atEnd : Reader Unit := fun chars =>
  if chars.isEmpty then some ((), []) else none

/-- What the reader would read here, without taking it. -/
def ahead {α : Type} (r : Reader α) : Reader α := fun chars =>
  (r chars).map fun (a, _) => (a, chars)

/-- The values of a reader repeated as long as it succeeds and takes something. -/
def manyFrom {α : Type} (r : Reader α) (chars : List Char) : List α × List Char :=
  match r chars with
  | none => ([], chars)
  | some (a, rest) =>
    if _h : rest.length < chars.length then
      let (as, rest) := manyFrom r rest
      (a :: as, rest)
    else ([], chars)
termination_by chars.length

@[inherit_doc manyFrom]
def many {α : Type} (r : Reader α) : Reader (List α) := fun chars =>
  some (manyFrom r chars)

/-- Values, at least one, with separators between them. -/
def separated {α β : Type} (r : Reader α) (separator : Reader β) : Reader (List α) := do
  let a ← r
  return a :: (← many (do discard separator; r))

/-- The value of a whole text. -/
def all? {α : Type} (r : Reader α) (chars : List Char) : Option α :=
  match r chars with
  | some (a, []) => some a
  | _ => none

end Reader

end Reclaim
