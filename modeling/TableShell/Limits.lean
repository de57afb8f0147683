/-!
# Limits

The capacities that a shell is opened with. They stay fixed while it runs.
-/

namespace TableShell

/-- Capacities of one shell. -/
structure Limits where
  /-- The greatest width that the first row may fix. -/
  columns : Nat := 100
  /-- The number of rows that the table can hold. -/
  rows : Nat := 1000
  /-- The number of columns that a projection keeps of those it names. -/
  projection : Nat := 100
  /-- The number of characters kept of an input line, blanks not counted. -/
  lineLength : Nat := 1000
deriving DecidableEq, Repr, Inhabited

end TableShell
