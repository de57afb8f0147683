import TableShell.Table.Algebra

/-!
# Tables that are changed in place

The two operations that make a table longer, as they are carried out on a table that stays where it
is. A change is a number of steps, and a fault ends it on the spot, with the table as it is by then;
nothing is taken back. So whether a row that is refused leaves a trace is a matter of the order of
the steps. An open width is fixed just before the row is stored, and no check may come after that.

`Table.push` and `Table.add` come to a new table or to a fault. What they say of a change is said by
`Change.on_push` and `Change.on_add`.
-/

namespace TableShell

/-- What is done to a table, up to the first fault. -/
abbrev Change := ExceptT Fault (StateM Table)

namespace Change

variable {α : Type}

/-- What a change of a table comes to, and the table after it. -/
def on (change : Change α) (table : Table) : Except Fault α × Table :=
  change.run.run table

/-- Adds a row at the end. -/
def push (row : Row) : Change Unit := do
  let table ← get
  if table.isFull then
    throw (.noRoom table.capacity)
  match table.width with
  | some width =>
    if row.length ≠ width then
      throw (.widthMismatch width row.length)
  | none => modify fun table ↦ { table with width := some row.length }
  modify fun table ↦ { table with rows := table.rows.push row }

/-- The row that a list of values comes to, and the width it was cut from. -/
def fit (fields : IntegerList) (columnLimit : Nat) : Change (Row × Option Nat) := do
  match (← get).width with
  | none =>
    if columnLimit < fields.total then
      throw (.tooManyColumns fields.total columnLimit)
    return (fields.values, none)
  | some width =>
    if fields.total < width then
      throw (.widthMismatch width fields.total)
    if width < fields.total then
      return (fields.values.take width, some fields.total)
    return (fields.values, none)

/-- Adds a list of values as a row, and gives the row that is stored and the width it was cut
from. -/
def add (fields : IntegerList) (columnLimit : Nat) : Change (Row × Option Nat) := do
  let (row, cutFrom) ← fit fields columnLimit
  push row
  return (row, cutFrom)

end Change

end TableShell
