/-!
# Written paths

A path is kept exactly as it was written, and its meaning is the list of its components:
repeated slashes, trailing slashes and inner dots do not count, a leading dot of a relative path
and every `..` do.  Two paths are the same when their components are, whatever their spelling;
a part cut out of a path keeps the spelling of that part.

## Main definitions

* `Path.components` : what a written path says.
* `Path.same`, `Path.within` : equality and nesting, both by components.
* `Path.join`, `Path.parent?`, `Path.stripPrefix?` : composing and cutting paths.
* `Path.fileName?`, `Path.stem?`, `Path.extension?` : the last component and its halves.
-/

namespace Reclaim

/-- One step of a written path. -/
inductive Component where
  /-- The leading slash of an absolute path. -/
  | root
  /-- The leading dot of a relative path. -/
  | here
  /-- A `..`, which is never resolved against the component in front of it. -/
  | up
  /-- The name of an entry. -/
  | name (text : String)
  deriving DecidableEq, Repr

/-- A path as it was written. -/
structure Path where
  /-- The text of the path. -/
  text : String
  deriving DecidableEq, Repr, Inhabited

/-! ### Reading a path -/

/-- The stretches of a text between its slashes; there is always at least one. -/
def splitSlash : List Char → List (List Char)
  | [] => [[]]
  | c :: cs =>
    if c = '/' then [] :: splitSlash cs
    else match splitSlash cs with
      | [] => [[c]]
      | piece :: pieces => (c :: piece) :: pieces

/-- The component that a stretch between slashes stands for; the empty stretch and a single dot
stand for none. -/
def Component.ofPiece? (piece : String) : Option Component :=
  if piece = "" ∨ piece = "." then none
  else if piece = ".." then some .up
  else some (.name piece)

/-- The text of a component other than the leading slash. -/
def Component.text : Component → String
  | .root => "/"
  | .here => "."
  | .up => ".."
  | .name t => t

namespace Path

/-- An absolute path begins with a slash. -/
def isAbsolute (p : Path) : Bool :=
  p.text.toList.head? == some '/'

/-- The stretches after the leading slash, if there is one. -/
def pieces (p : Path) : List String :=
  let chars := p.text.toList
  (splitSlash (if p.isAbsolute then chars.tail else chars)).map String.ofList

/-- What a path starts from: the top, a written dot, or nothing that is shown. -/
def anchor (p : Path) : List Component :=
  if p.isAbsolute then [.root]
  else if p.pieces.head? = some "." then [.here]
  else []

/-- What a written path says, step by step. -/
def components (p : Path) : List Component :=
  p.anchor ++ p.pieces.filterMap Component.ofPiece?

/-- Two spellings of one path. -/
def same (p q : Path) : Bool :=
  p.components == q.components

/-- One path is another or lies below it. -/
def within (p q : Path) : Bool :=
  q.components.isPrefixOf p.components

/-! ### Composing and cutting -/

/-- The plainest spelling of a list of components. -/
def ofComponents : List Component → Path
  | .root :: rest => ⟨"/" ++ String.intercalate "/" (rest.map Component.text)⟩
  | steps => ⟨String.intercalate "/" (steps.map Component.text)⟩

/-- A path `q` read from `p`: an absolute `q` stands alone, any other is written behind `p` with one
slash between them. -/
def join (p q : Path) : Path :=
  if q.isAbsolute then q
  else if p.text = "" ∨ p.text.toList.getLast? = some '/' then ⟨p.text ++ q.text⟩
  else ⟨p.text ++ "/" ++ q.text⟩

/-- Joins a path that is given by its text. -/
def child (p : Path) (text : String) : Path :=
  p.join ⟨text⟩

/-- The path without its last component; the top and the empty path have no parent. -/
def parent? (p : Path) : Option Path :=
  match p.components.getLast? with
  | none | some .root => none
  | some _ => some (ofComponents p.components.dropLast)

/-- The stretches that are left once the given components have been read off. -/
def dropSteps : List Component → List String → Option (List String)
  | [], pieces => some pieces
  | _ :: _, [] => none
  | step :: steps, piece :: pieces =>
    match Component.ofPiece? piece with
    | none => dropSteps (step :: steps) pieces
    | some found => if found = step then dropSteps steps pieces else none

/-- A stretch that stands for no component. -/
def isIdle (piece : String) : Bool :=
  (Component.ofPiece? piece).isNone

/-- What of `p` is below `q`, in the spelling of `p`; `none` if `p` does not lie within `q`.
Stretches that stand for no component are dropped at both ends and kept inside. -/
def stripPrefix? (p q : Path) : Option Path :=
  if q.components = [] then some p
  else if p.anchor ≠ q.anchor then none
  else (dropSteps (q.pieces.filterMap Component.ofPiece?) p.pieces).map fun rest =>
    let front := rest.dropWhile isIdle
    ⟨String.intercalate "/" (front.reverse.dropWhile isIdle).reverse⟩

/-! ### The last component -/

/-- The name at the end of a path; a path that ends in `..` has none. -/
def fileName? (p : Path) : Option String :=
  match p.components.getLast? with
  | some (.name t) => some t
  | _ => none

/-- A name cut at its last dot.  A name whose only dot is in front has no second half. -/
def splitName (name : String) : String × Option String :=
  let back := name.toList.reverse
  let tail := back.takeWhile (· != '.')
  match back.drop tail.length with
  | _ :: stem@(_ :: _) => (String.ofList stem.reverse, some (String.ofList tail.reverse))
  | _ => (name, none)

/-- The last name without its extension. -/
def stem? (p : Path) : Option String :=
  p.fileName?.map fun name => (splitName name).1

/-- What follows the last dot of the last name. -/
def extension? (p : Path) : Option String :=
  p.fileName?.bind fun name => (splitName name).2

end Path

end Reclaim
