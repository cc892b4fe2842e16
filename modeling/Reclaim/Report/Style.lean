import Reclaim.Amount
import Reclaim.Label
import Reclaim.Text.Blank

/-!
# Colours and weights

Printed reports have parts in colour, bold or dimmed, written with escape sequences; a report for a
file has none of them.  A sequence that ends a style inside a styled text is followed by the
beginning of the outer one.

## Main definitions

* `Style`, `Style.paint` : a style, and a text in it.
* `Look` : how reports are shown.
* `Look.size` : a number of bytes in the colour of its magnitude.
-/

namespace Reclaim

/-- A colour of printed text. -/
inductive Colour where
  | red
  | green
  | yellow
  | cyan
  | white
  deriving DecidableEq, Repr

/-- The number of a colour in an escape sequence. -/
def Colour.code : Colour → String
  | red => "31"
  | green => "32"
  | yellow => "33"
  | cyan => "36"
  | white => "37"

/-- How a part of a report is shown. -/
structure Style where
  bold : Bool := false
  dimmed : Bool := false
  colour : Option Colour := none
  deriving DecidableEq, Repr

namespace Style

/-- The sequence that begins a style: weights in front of the colour. -/
def opening (s : Style) : String :=
  let codes := (if s.bold then ["1"] else []) ++ (if s.dimmed then ["2"] else []) ++
    (s.colour.map Colour.code).toList
  "\x1b[" ++ String.intercalate ";" codes ++ "m"

/-- The sequence that ends every style. -/
def closing : String := "\x1b[0m"

/-- A text with the beginning of a style behind every end of one inside it. -/
def reopen (opening : String) : Nat → List Char → List Char
  | 0, chars => chars
  | fuel + 1, chars =>
    match Text.cutAt? closing.toList chars with
    | some (front, rest) => front ++ closing.toList ++ opening.toList ++ reopen opening fuel rest
    | none => chars

/-- A text in a style. -/
def paint (s : Style) (text : String) : String :=
  let chars := text.toList
  s.opening ++ String.ofList (reopen s.opening chars.length chars) ++ closing

end Style

/-- How reports are shown: with or without styles, and with which home directory. -/
structure Look where
  color : Bool := false
  home : Option Path := none
  deriving DecidableEq, Repr

namespace Look

/-- A text in a style, if there are styles. -/
def styled (look : Look) (style : Style) (text : String) : String :=
  if look.color then style.paint text else text

/-- A text in bold. -/
def bold (look : Look) (text : String) : String :=
  look.styled { bold := true } text

/-- A dimmed text. -/
def dimmed (look : Look) (text : String) : String :=
  look.styled { dimmed := true } text

/-- A text in a colour. -/
def tinted (look : Look) (colour : Colour) (text : String) : String :=
  look.styled { colour := some colour } text

/-- A path for display. -/
def path (look : Look) (p : Path) : String :=
  p.shown look.home

/-- A number of bytes in words: red and bold from a gigabyte on, yellow from a hundred
megabytes. -/
def size (look : Look) (bytes : Nat) : String :=
  let text := Amount.size bytes
  if Amount.gigabyte ≤ bytes then look.styled { bold := true, colour := some .red } text
  else if 100 * Amount.megabyte ≤ bytes then look.tinted .yellow text
  else look.tinted .white text

/-- A line across the page. -/
def rule (look : Look) (width : Nat) : String :=
  look.dimmed (String.ofList (List.replicate width '─'))

/-- The mark of success. -/
def tick (look : Look) : String :=
  look.tinted .green "✓"

/-- The mark of failure. -/
def cross (look : Look) : String :=
  look.tinted .red "✗"

/-- The mark of a warning. -/
def warning (look : Look) : String :=
  look.tinted .yellow "⚠"

end Look

/-- Lines, each with its end. -/
def page (lines : List String) : String :=
  String.join (lines.map (· ++ "\n"))

end Reclaim
