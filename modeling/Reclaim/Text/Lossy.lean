/-!
# Bytes read as text

Output of programs and files of unknown content is read as UTF-8, and every longest stretch of
bytes that begins a character but does not finish it becomes one replacement character.

## Main definitions

* `Text.decodeLossy` : bytes to text, never failing.
* `Text.decode?` : bytes to text, only if all of them are UTF-8.
-/

namespace Reclaim.Text

/-- Where the reader stands: between characters, or inside one with the value read so far, the
number of bytes still to come and the bounds of the next byte. -/
inductive ByteState where
  | between
  | inside (value missing low high : Nat)

/-- The character shown for bytes that are none. -/
def replacement : Char := '\uFFFD'

/-- What a byte can begin: a character of its own, a longer one, or nothing. -/
inductive Opening where
  | single (c : Char)
  | longer (state : ByteState)
  | stray

/-- The opening that a byte makes, with the bounds that keep out overlong forms, surrogates and
values above the last code point. -/
def Opening.ofByte (byte : UInt8) : Opening :=
  let b := byte.toNat
  if b < 0x80 then .single (Char.ofNat b)
  else if 0xC2 ≤ b ∧ b ≤ 0xDF then .longer (.inside (b - 0xC0) 1 0x80 0xBF)
  else if b = 0xE0 then .longer (.inside 0 2 0xA0 0xBF)
  else if b = 0xED then .longer (.inside 0xD 2 0x80 0x9F)
  else if 0xE1 ≤ b ∧ b ≤ 0xEF then .longer (.inside (b - 0xE0) 2 0x80 0xBF)
  else if b = 0xF0 then .longer (.inside 0 3 0x90 0xBF)
  else if 0xF1 ≤ b ∧ b ≤ 0xF3 then .longer (.inside (b - 0xF0) 3 0x80 0xBF)
  else if b = 0xF4 then .longer (.inside 4 3 0x80 0x8F)
  else .stray

/-- One byte read in a state: the characters finished by it, and the next state. -/
def ByteState.step (state : ByteState) (byte : UInt8) : List Char × ByteState :=
  let opened : List Char × ByteState :=
    match Opening.ofByte byte with
    | .single c => ([c], .between)
    | .longer next => ([], next)
    | .stray => ([replacement], .between)
  match state with
  | .between => opened
  | .inside value missing low high =>
    if low ≤ byte.toNat ∧ byte.toNat ≤ high then
      let value := value * 64 + (byte.toNat - 0x80)
      if missing ≤ 1 then ([Char.ofNat value], .between)
      else ([], .inside value (missing - 1) 0x80 0xBF)
    else (replacement :: opened.1, opened.2)

/-- The characters of a list of bytes read from a state on. -/
def decodeFrom : ByteState → List UInt8 → List Char
  | .between, [] => []
  | .inside .., [] => [replacement]
  | state, byte :: bytes =>
    let (chars, next) := state.step byte
    chars ++ decodeFrom next bytes

/-- Bytes as text, each longest invalid stretch as one replacement character. -/
def decodeLossy (bytes : ByteArray) : String :=
  String.ofList (decodeFrom .between bytes.data.toList)

/-- Bytes as text, if they are UTF-8 throughout. -/
def decode? (bytes : ByteArray) : Option String :=
  String.fromUTF8? bytes

end Reclaim.Text
