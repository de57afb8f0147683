import TableShell.Condition
import TableShell.IntegerList
import TableShell.Table.Basic

/-!
# Operations on tables

Adding a row that was typed in, projecting onto columns, and selecting rows. Adding fits the row
to the table first: the first row may have any width up to a limit, a later one is cut to the
width of the table if it is wider and refused if it is narrower. Projection and selection leave
their table alone and build a new one, row by row; they check every column before they look at
any row.
-/

namespace TableShell

namespace Table

/-! ### Adding -/

/-- The outcome of adding a row. -/
structure Addition where
  /-- The table with the new row. -/
  table : Table
  /-- The row as it is stored. -/
  row : Row
  /-- The width that the row was written with, if it was cut. -/
  cutFrom : Option Nat
deriving DecidableEq, Repr, Inhabited

/-- The row that a list of values comes to in a table, and the width it was cut from. -/
def fit (table : Table) (fields : IntegerList) (columnLimit : Nat) :
    Except Fault (Row × Option Nat) :=
  match table.width with
  | none =>
    if fields.total ≤ columnLimit then
      .ok (fields.values, none)
    else
      .error (.tooManyColumns fields.total columnLimit)
  | some width =>
    if fields.total < width then
      .error (.widthMismatch width fields.total)
    else if width < fields.total then
      .ok (fields.values.take width, some fields.total)
    else
      .ok (fields.values, none)

/-- Adds a list of values as a row. -/
def add (table : Table) (fields : IntegerList) (columnLimit : Nat) : Except Fault Addition := do
  let (row, cutFrom) ← table.fit fields columnLimit
  let table ← table.push row
  return ⟨table, row, cutFrom⟩

/-! ### Columns -/

/-- Refuses a column outside the table. -/
def requireColumn (table : Table) (column : Nat) : Except Fault Unit :=
  if 1 ≤ column ∧ column ≤ table.columns then .ok () else .error (.noSuchColumn column)

theorem requireColumn_eq_ok_iff {table : Table} {column : Nat} :
    table.requireColumn column = .ok () ↔ 1 ≤ column ∧ column ≤ table.columns := by
  unfold requireColumn
  split <;> simp [*]

/-- The value in a column of a row, which has to exist. -/
def cell (row : Row) (column : Nat) : Except Fault Int :=
  match row.column? column with
  | some value => .ok value
  | none => .error (.noSuchColumn column)

theorem cell_eq_ok_iff {row : Row} {column : Nat} {value : Int} :
    cell row column = .ok value ↔ row.column? column = some value := by
  unfold cell
  cases row.column? column <;> simp

/-! ### Projection and selection -/

/-- The table of the given columns, in the given order and as often as they are given. -/
def project (table : Table) (targets : List Nat) : Except Fault Table := do
  targets.forM table.requireColumn
  table.rows.foldlM (fun result row ↦ do result.push (← targets.mapM (cell row)))
    (ofWidth targets.length table.capacity)

/-- Whether a row satisfies a condition. A row without the column does not. -/
def satisfies (condition : Condition) (row : Row) : Bool :=
  (row.column? condition.column).any (condition.relation.holds · condition.value)

/-- The table of the rows that satisfy a condition. -/
def select (table : Table) (condition : Condition) : Except Fault Table := do
  table.requireColumn condition.column
  (table.rows.filter (satisfies condition)).foldlM push (ofWidth table.columns table.capacity)

end Table

end TableShell
