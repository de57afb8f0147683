import TableShell.Fault
import TableShell.Row

/-!
# Tables

A table is a bounded sequence of rows of one width. The width may still be open; then the first
row fixes it. `Table.push` is the only way in which a table grows. It refuses a row that is too
many or has the wrong width, and `push_eq_ok_iff` says exactly when it does not, so every table
built from `Table.empty` and `Table.ofWidth` keeps within its bound and has rows of its own width.
-/

namespace TableShell

/-- Rows, the width they share once there is one, and how many of them there may be. -/
structure Table where
  rows : Array Row
  width : Option Nat
  capacity : Nat
deriving DecidableEq, Repr, Inhabited

namespace Table

/-- A table without rows whose first row will fix the width. -/
def empty (capacity : Nat) : Table :=
  ⟨#[], none, capacity⟩

/-- A table without rows whose width is fixed already. -/
def ofWidth (width capacity : Nat) : Table :=
  ⟨#[], some width, capacity⟩

/-- The number of rows. -/
def size (table : Table) : Nat :=
  table.rows.size

/-- The number of columns, which is zero while no width is fixed. -/
def columns (table : Table) : Nat :=
  table.width.getD 0

/-- Whether there are no rows. -/
def isEmpty (table : Table) : Bool :=
  table.rows.isEmpty

/-- Whether no further row can be added. -/
def isFull (table : Table) : Bool :=
  table.capacity ≤ table.size

/-- Whether there is something to show: a row and a column. -/
def hasData (table : Table) : Bool :=
  !table.isEmpty && table.columns ≠ 0

/-! ### Growing -/

/-- Adds a row at the end and fixes the width if it was open. A full table refuses any row, and
after that a row of another width is refused. -/
def push (table : Table) (row : Row) : Except Fault Table :=
  if table.isFull then
    .error (.noRoom table.capacity)
  else match table.width with
    | none => .ok { table with rows := table.rows.push row, width := some row.length }
    | some width =>
      if row.length = width then
        .ok { table with rows := table.rows.push row }
      else
        .error (.widthMismatch width row.length)

/-- A row is added exactly if there is room for it and its width is that of the table or the table
has none. -/
theorem push_eq_ok_iff {table grown : Table} {row : Row} :
    table.push row = .ok grown ↔
      table.size < table.capacity ∧ table.width.getD row.length = row.length ∧
        grown = ⟨table.rows.push row, some row.length, table.capacity⟩ := by
  obtain ⟨rows, width, capacity⟩ := table
  by_cases hfull : capacity ≤ rows.size
  · simp [push, isFull, size, hfull, Nat.not_lt.2 hfull]
  · have hroom : rows.size < capacity := Nat.not_le.1 hfull
    cases width with
    | none => simp [push, isFull, size, hfull, hroom, eq_comm]
    | some width =>
      by_cases hw : row.length = width
      · simp [push, isFull, size, hfull, hroom, hw, eq_comm]
      · simp [push, isFull, size, hfull, hroom, hw, Ne.symm hw]

/-! ### Showing -/

/-- What is shown for a table without data. -/
def emptyNotice : String :=
  "Empty data."

/-- The lines that show a table: its printed rows in order, or the notice that it has no data. -/
def lines (table : Table) : List String :=
  if table.hasData then table.rows.toList.filterMap Row.shown? else [emptyNotice]

end Table

end TableShell
