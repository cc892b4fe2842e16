import Reclaim.Plist.Binary
import Reclaim.Plist.OpenStep
import Reclaim.Plist.Xml
import Reclaim.Text.Slice

/-!
# Reading property lists of any form

The form of a property list is found out from its bytes.  Where a file is no property list, a text
can still be looked for right behind its key.

## Main definitions

* `Plist.Reader` : a way to read property lists.
* `Plist.read?` : the property list of a file.
* `Plist.scrape`, `Plist.scrape?` : the text behind a key in a text that is not read otherwise.
-/

namespace Reclaim.Plist

/-- A way to read the property list of a file, if it is one. -/
abbrev Reader : Type :=
  ByteArray → Option Value

/-- The property list of a text, in XML or in braces. -/
def readText? (text : String) : Option Value :=
  ((Xml.events? text.toList).bind Value.ofEvents?) <|>
    ((OpenStep.events? text.toList).bind Value.ofEvents?)

/-- The property list of a file, which has at least the length of the mark of the binary form. -/
def read? : Reader := fun data =>
  let front := (data.extract 0 8).toList
  if front.length < 8 then none
  else if front = Binary.magic then (Binary.events? data).bind Value.ofEvents?
  else (Text.decode? data).bind readText?

/-- The text of the string that comes next, without the blanks at its ends; an empty one does not
count.  What is looked at is cut out by byte offsets. -/
def nextString (text : String) : Except Text.TornSlice (Option String) := do
  let some opening := Text.findBytes? "<string>" text | return none
  let gap ← Text.slice text 0 opening
  -- the string has to be the next element and not one further down
  if Text.trim gap ≠ "" then return none
  let start := opening + "<string>".utf8ByteSize
  let inner ← Text.slice text start text.utf8ByteSize
  let some length := Text.findBytes? "</string>" inner | return none
  let content ← Text.slice text start (start + length)
  let value := Text.trim content
  return if value = "" then none else some value

/-- The text of the string right behind the first mark of a key. -/
def scrape (text key : String) : Except Text.TornSlice (Option String) := do
  let mark := "<key>" ++ key ++ "</key>"
  let some found := Text.findBytes? mark text | return none
  let behind ← Text.slice text (found + mark.utf8ByteSize) text.utf8ByteSize
  nextString behind

@[inherit_doc scrape]
def scrape? (text key : String) : Option String :=
  match scrape text key with
  | .ok found => found
  | .error _ => none

end Reclaim.Plist
