import TableShell.Table.Algebra

/-!
# Queries

A query turns one table into another. It is what may stand between pipes.
-/

namespace TableShell

/-- A projection or a selection. -/
inductive Query where
  /-- Projects onto `columns`, which are the first of the `requested` columns. -/
  | project (columns : List Nat) (requested : Nat)
  /-- Selects the rows that satisfy a condition. -/
  | select (condition : Condition)
deriving DecidableEq, Repr, Inhabited

namespace Query

/-- The table that a query makes of a table. -/
def apply (query : Query) (table : Table) : Except Fault Table :=
  match query with
  | project columns _ => table.project columns
  | select condition => table.select condition

/-- What is remarked about a query that went well: a projection says when it kept fewer columns
than it was given. -/
def notices : Query → List Fault
  | project columns requested =>
    if columns.length < requested then [.projectionCut requested columns.length] else []
  | select _ => []

end Query

end TableShell
