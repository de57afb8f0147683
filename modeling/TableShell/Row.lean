import TableShell.Numeral

/-!
# Rows

A row is a list of integers, its columns counted from one. `Row.text` writes a row on one line,
and `Row.shown?` is what is printed of it: a row is shown unless it is empty or starts with a zero.
-/

namespace TableShell

/-- One row of a table. -/
abbrev Row := List Int

namespace Row

/-- The value in a column, counted from one. There is no column zero. -/
def column? (row : Row) : Nat → Option Int
  | 0 => none
  | i + 1 => row[i]?

@[simp]
theorem column?_zero (row : Row) : row.column? 0 = none :=
  rfl

@[simp]
theorem column?_succ (row : Row) (i : Nat) : row.column? (i + 1) = row[i]? :=
  rfl

/-- The columns of a row are those from one up to its length. -/
theorem isSome_column?_iff {row : Row} {c : Nat} :
    (row.column? c).isSome ↔ 1 ≤ c ∧ c ≤ row.length := by
  cases c with
  | zero => simp
  | succ i =>
    rw [column?_succ, isSome_getElem?]
    omega

/-- The text between two values of a row. -/
def separator : String :=
  ", "

/-- The values of a row in decimal, with a comma and a blank between neighbours. -/
def text (row : Row) : String :=
  separator.intercalate (row.map Numeral.text)

/-- Whether a row is printed: its first value has to exist and differ from zero. -/
def isShown (row : Row) : Bool :=
  row.head?.any (· ≠ 0)

/-- What is printed of a row, if it is printed at all. -/
def shown? (row : Row) : Option String :=
  if row.isShown then some row.text else none

end Row

end TableShell
