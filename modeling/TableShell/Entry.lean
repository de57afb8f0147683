import TableShell.Text.Blank
import TableShell.Text.Utf8

/-!
# Entries

How bytes become the lines that a shell answers. Input is cut at line feeds, each piece is read
as UTF-8, one carriage return is dropped from its end, and blanks are removed from all of it. Of
the rest a limited number of characters is kept; once that is reached, every further character of
the piece is in excess, blanks included.
-/

namespace TableShell

/-- A line as it is answered: without blanks, and cut to a limited length. -/
structure Entry where
  /-- The characters kept. -/
  text : String
  /-- The number of characters after the last one that could be kept. -/
  excess : Nat
deriving DecidableEq, Repr, Inhabited

namespace Entry

/-- Whether characters were left out because of the limit. -/
def isCut (entry : Entry) : Bool :=
  0 < entry.excess

/-- What is shown before a line that was cut is answered. -/
def warning (entry : Entry) : String :=
  "Warning! " ++ entry.excess.repr ++ " over limit. Line truncated."

/-! ### From characters -/

/-- Keeps the characters that are no blanks while there is room, behind those kept already. -/
def stripOnto (kept : String) : Nat → List Char → Entry
  | _, [] => ⟨kept, 0⟩
  | 0, c :: rest => ⟨kept, (c :: rest).length⟩
  | room + 1, c :: rest =>
    if Text.isBlank c then stripOnto kept (room + 1) rest
    else stripOnto (kept.push c) room rest

/-- The entry that a piece of input comes to if `limit` characters are kept. -/
def strip (limit : Nat) (raw : List Char) : Entry :=
  stripOnto "" limit raw

/-! ### From bytes -/

/-- The byte that ends a line. -/
def lineFeed : UInt8 :=
  0x0A

/-- Drops a character from the end, once, if it stands there. -/
def dropEnd (c : Char) (chars : List Char) : List Char :=
  if chars.getLast? = some c then chars.dropLast else chars

/-- Drops one carriage return from the end. -/
def dropReturn (chars : List Char) : List Char :=
  dropEnd '\r' chars

/-- The entry that the bytes between two line feeds come to. -/
def ofBytes (limit : Nat) (bytes : List UInt8) : Entry :=
  strip limit (dropReturn (Text.Utf8.decode bytes))

/-- The bytes of each line of the input. After the last line feed there is a line only if there
are bytes. -/
def pieces (input : List UInt8) : List (List UInt8) :=
  let all := input.splitOn lineFeed
  if all.getLast? = some [] then all.dropLast else all

/-- The entries of the input. -/
def readAll (limit : Nat) (input : List UInt8) : List Entry :=
  (pieces input).map (ofBytes limit)

end Entry

end TableShell
