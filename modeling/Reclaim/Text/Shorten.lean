/-!
# Fitting text into a line

Lengths are counted in characters.

## Main definitions

* `Text.shortenMiddle` : keeps both ends of a long label.
* `Text.shortenEnd` : keeps the beginning of a long name.
* `Text.padRight`, `Text.padLeft` : fills a short text up with blanks.
-/

namespace Reclaim.Text

/-- The length above which a label is shortened. -/
def labelLimit : Nat := 45

/-- A label of more than 45 characters shown by its first 15 and its last 25. -/
def shortenMiddle (text : String) : String :=
  let chars := text.toList
  if chars.length ≤ labelLimit then text
  else String.ofList (chars.take 15 ++ ['.', '.', '.'] ++ chars.drop (chars.length - 25))

/-- A text of more than `limit` characters cut so that it fits with three dots at its end; where
not even these have room, as many dots as do. -/
def shortenEnd (text : String) (limit : Nat) : String :=
  let chars := text.toList
  if chars.length ≤ limit then text
  else if limit ≤ 3 then String.ofList (List.replicate limit '.')
  else String.ofList (chars.take (limit - 3) ++ ['.', '.', '.'])

/-- A text followed by blanks up to the given width. -/
def padRight (width : Nat) (text : String) : String :=
  text ++ String.ofList (List.replicate (width - text.length) ' ')

/-- A text behind blanks up to the given width. -/
def padLeft (width : Nat) (text : String) : String :=
  String.ofList (List.replicate (width - text.length) ' ') ++ text

end Reclaim.Text
