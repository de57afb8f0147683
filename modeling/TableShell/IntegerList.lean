import TableShell.Token

/-!
# Lists of integers

The argument of `a` and of `p`: positive integers between separators. A list may be longer than
what is kept of it. All of its tokens are read and counted, also those past the cap.
-/

namespace TableShell

/-- A list of integers as far as it is kept, with its full length. -/
structure IntegerList where
  /-- The values that are kept, in order. -/
  values : List Int
  /-- The number of tokens that the list was written with. -/
  total : Nat
deriving DecidableEq, Repr, Inhabited

namespace IntegerList

/-- The separator of lists on a command line. -/
def comma : Char :=
  ','

/-- Whether more tokens were counted than values are kept. -/
def isCut (list : IntegerList) : Bool :=
  list.values.length < list.total

/-- Reads a list of positive integers and keeps the first `cap` of them. -/
def read (separator : Char) (cap : Nat) (text : List Char) :
    Except ArgumentError IntegerList := do
  let values ← Token.values (· == separator) text
  if values.isEmpty then .error .noValues else .ok ⟨values.take cap, values.length⟩

end IntegerList

end TableShell
