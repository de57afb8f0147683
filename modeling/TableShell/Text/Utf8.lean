/-!
# Reading UTF-8

Bytes become characters one byte at a time. Between characters there is nothing to remember;
inside a character there is `Pending`: the bits read so far, how many bytes are still to come
after the next one, and which values the next one may have. A first byte that starts no
character, a byte that cannot continue a character and the end of the input inside a character
each make one replacement character, and a byte that cannot continue is read again as a first
byte. So each longest part that could begin a character, and does not become one, is replaced as
a whole.

The ranges are those of the well-formed sequences: no overlong form, no surrogate, and nothing
above the last code point is ever completed.
-/

namespace TableShell

namespace Text

namespace Utf8

/-- The character that stands for bytes that could not be read. -/
def replacement : Char :=
  '\uFFFD'

/-- A character of which at least one byte is still to come. -/
structure Pending where
  /-- The bits of the code point read so far. -/
  bits : Nat
  /-- The number of bytes to come after the next one. -/
  later : Nat
  /-- The least value of the next byte. -/
  low : UInt8 := 0x80
  /-- The greatest value of the next byte. -/
  high : UInt8 := 0xBF
deriving DecidableEq, Repr, Inhabited

/-- What one byte comes to: the characters it makes, and the character it leaves unfinished. -/
abbrev Reading := List Char × Option Pending

/-- Reads a byte between characters. The second byte after `E0`, `ED`, `F0` and `F4` has a range
of its own. -/
def lead (byte : UInt8) : Reading :=
  let value := byte.toNat
  if byte ≤ 0x7F then ([Char.ofNat value], none)
  else if byte < 0xC2 then ([replacement], none)
  else if byte ≤ 0xDF then ([], some { bits := value % 0x20, later := 0 })
  else if byte = 0xE0 then ([], some { bits := value % 0x10, later := 1, low := 0xA0 })
  else if byte = 0xED then ([], some { bits := value % 0x10, later := 1, high := 0x9F })
  else if byte ≤ 0xEF then ([], some { bits := value % 0x10, later := 1 })
  else if byte = 0xF0 then ([], some { bits := value % 0x08, later := 2, low := 0x90 })
  else if byte ≤ 0xF3 then ([], some { bits := value % 0x08, later := 2 })
  else if byte = 0xF4 then ([], some { bits := value % 0x08, later := 2, high := 0x8F })
  else ([replacement], none)

/-- Reads a byte inside a character. -/
def resume (pending : Pending) (byte : UInt8) : Reading :=
  if pending.low ≤ byte ∧ byte ≤ pending.high then
    let bits := pending.bits * 0x40 + byte.toNat % 0x40
    match pending.later with
    | 0 => ([Char.ofNat bits], none)
    | later + 1 => ([], some { bits, later })
  else
    let (chars, pending) := lead byte
    (replacement :: chars, pending)

/-- Reads a byte. -/
def read : Option Pending → UInt8 → Reading
  | none, byte => lead byte
  | some pending, byte => resume pending byte

/-- Characters read so far, with the one that is unfinished. -/
structure Decoder where
  chars : Array Char
  pending : Option Pending
deriving DecidableEq, Repr, Inhabited

namespace Decoder

/-- A decoder that has read nothing. -/
def start : Decoder :=
  ⟨#[], none⟩

/-- Reads one more byte. -/
def push (decoder : Decoder) (byte : UInt8) : Decoder :=
  let (chars, pending) := read decoder.pending byte
  ⟨decoder.chars ++ chars, pending⟩

/-- The characters read once there are no more bytes. -/
def finish (decoder : Decoder) : List Char :=
  (match decoder.pending with
    | none => decoder.chars
    | some _ => decoder.chars.push replacement).toList

end Decoder

/-- The characters that bytes are read as. -/
def decode (bytes : List UInt8) : List Char :=
  (bytes.foldl Decoder.push Decoder.start).finish

end Utf8

end Text

end TableShell
