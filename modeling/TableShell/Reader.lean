import TableShell.Entry

/-!
# Readers

Input that is read line by line. A line is taken from the front with the line feed behind it, and
what is left waits to be read; when nothing is left there is no further line. So a line can be
answered before the next one is there. Taken one after the other, the lines are those that the whole
input is cut into.
-/

namespace TableShell

/-- Input of which some lines may have been read. -/
structure Reader where
  /-- The bytes that have not been read. -/
  input : List UInt8
  /-- The number of characters kept of a line. -/
  limit : Nat
deriving DecidableEq, Repr, Inhabited

namespace Reader

/-- The bytes up to the first line feed, and those behind it. The line feed belongs to the first
part. Without a line feed that is everything. -/
def takeLine : List UInt8 → List UInt8 × List UInt8
  | [] => ([], [])
  | byte :: rest =>
    if byte = Entry.lineFeed then ([byte], rest)
    else
      let (line, rest) := takeLine rest
      (byte :: line, rest)

/-- The next line as it is answered, and the input behind it. A line is read as characters before
its line feed is dropped. -/
def next? (reader : Reader) : Option (Entry × Reader) :=
  match takeLine reader.input with
  | ([], _) => none
  | (bytes, rest) =>
    let chars := Entry.dropEnd '\n' (Text.Utf8.decode bytes)
    some (Entry.strip reader.limit (Entry.dropReturn chars), { reader with input := rest })

end Reader

end TableShell
