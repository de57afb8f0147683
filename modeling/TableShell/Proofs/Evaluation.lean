import Mathlib.Data.List.Basic
import TableShell.Proofs.Table.WellFormed
import TableShell.Query

/-!
# Queries on plain lists

What queries come to can be said without tables: a list of rows, the width they share, and what is
shown at the end (`Query.evaluate`). Nothing in it can be full or of the wrong width, and no row is
left out when it is shown.

On a table that is well-formed and has positive cells this is what the queries do, one by one:
`evaluate_nil` is about what is shown in the end, and `evaluate_cons` about the first of several
queries, after which the table is again such a table (`Proper.of_query`).
-/

namespace TableShell

namespace Query

/-- How rows of a width are shown. -/
def present (rows : List Row) (width : Nat) : List String :=
  if rows = [] ∨ width = 0 then ["Empty data."] else rows.map Row.text

/-- What queries come to on rows of a width, one after the other: the lines to show, and the fault
that ends them, if one does. A projection fails at the first of its columns that does not exist, and
remarks on it if it kept fewer than it was given; a selection keeps the rows that satisfy the
condition, in order. -/
def evaluate (rows : List Row) (width : Nat) : List Query → List String × Option Fault
  | [] => (present rows width, none)
  | .project columns requested :: rest =>
    match columns.find? fun c ↦ ¬ (1 ≤ c ∧ c ≤ width) with
    | some c => ([], some (.noSuchColumn c))
    | none =>
      let notices :=
        if columns.length < requested then
          ["Projecting onto " ++ columns.length.repr ++ " of " ++ requested.repr ++
            " cols specified"]
        else []
      let picked := rows.map fun row ↦ columns.map fun c ↦ row.getD (c - 1) 0
      let (lines, fault) := evaluate picked columns.length rest
      (notices ++ lines, fault)
  | .select condition :: rest =>
    if 1 ≤ condition.column ∧ condition.column ≤ width then
      let kept := rows.filter fun row ↦
        condition.relation.holds (row.getD (condition.column - 1) 0) condition.value
      evaluate kept width rest
    else
      ([], some (.noSuchColumn condition.column))

/-- What a line of queries comes to on rows of a width. Without rows it comes to nothing but the
notice, whatever the queries are. -/
def evaluateLine (rows : List Row) (width : Nat) (queries : List Query) :
    List String × Option Fault :=
  if rows = [] then (["Empty data."], none) else evaluate rows width queries

end Query

/-- A row is shown unless it is empty or starts with a zero. -/
theorem Row.shown?_of_head? {row : Row} (hne : row ≠ []) (hhead : row.head? ≠ some 0) :
    row.shown? = some row.text := by
  cases row with
  | nil => exact absurd rfl hne
  | cons n rest =>
    have hn : n ≠ 0 := fun h ↦ hhead (congrArg some h)
    have hshown : Row.isShown (n :: rest) = true := by
      show decide (n ≠ 0) = true
      exact decide_eq_true hn
    rw [Row.shown?, if_pos hshown]

/-- The value in a column is one of the values of the row. -/
theorem Row.mem_of_column? {row : Row} {c : Nat} {n : Int} (h : row.column? c = some n) :
    n ∈ row := by
  cases c with
  | zero => cases h
  | succ i => exact List.mem_of_getElem? h

namespace Table

variable {table result : Table} {query : Query}

/-- A query makes a well-formed table of a well-formed table. -/
theorem WellFormed.of_query (h : table.WellFormed) (hresult : query.apply table = .ok result) :
    result.WellFormed := by
  cases query with
  | project columns requested => exact h.project hresult
  | select condition => exact h.select hresult

/-- Every value in the result of a query is one of the table that is queried. -/
theorem exists_mem_of_query (h : table.WellFormed) (hresult : query.apply table = .ok result)
    {row : Row} (hrow : row ∈ result.rows) {n : Int} (hn : n ∈ row) :
    ∃ old ∈ table.rows, n ∈ old := by
  cases query with
  | project columns requested =>
    obtain ⟨hcolumns, rfl⟩ := (project_eq_ok_iff h).1 hresult
    obtain ⟨old, hold, rfl⟩ := Array.mem_map.1 hrow
    obtain ⟨c, hc, rfl⟩ := List.mem_map.1 hn
    exact ⟨old, hold, Row.mem_of_column? (h.column?_eq hold (hcolumns c hc))⟩
  | select condition =>
    obtain ⟨-, rfl⟩ := (select_eq_ok_iff h).1 hresult
    exact ⟨row, (Array.mem_filter.1 hrow).1, hn⟩

/-- A well-formed table with positive cells. -/
structure Proper (table : Table) : Prop where
  wellFormed : table.WellFormed
  pos : ∀ row ∈ table.rows, ∀ n ∈ row, 0 < n

/-- A table has data exactly if it has rows and its width is not zero. -/
theorem hasData_iff : table.hasData ↔ ¬ (table.rows.toList = [] ∨ table.columns = 0) := by
  rw [hasData, isEmpty, Bool.and_eq_true, Bool.not_eq_true', Array.isEmpty_eq_false_iff,
    decide_eq_true_iff, Array.toList_eq_nil_iff, not_or]

/-- All rows of a well-formed table are shown if none of them starts with a zero. -/
theorem WellFormed.lines_eq (h : table.WellFormed)
    (hhead : ∀ row ∈ table.rows, row.head? ≠ some 0) :
    table.lines = Query.present table.rows.toList table.columns := by
  rw [lines, Query.present]
  by_cases hdata : table.hasData = true
  · -- a row is as wide as the table, so it is not empty
    have hnonzero := hasData_iff.1 hdata
    rw [if_pos hdata, if_neg hnonzero]
    refine List.filterMap_eq_map_iff_forall_eq_some.2 fun row hrow ↦ ?_
    have hrow : row ∈ table.rows := Array.mem_toList_iff.1 hrow
    have hlength : row.length = table.columns := h.length_eq hrow
    refine Row.shown?_of_head? ?_ (hhead row hrow)
    rintro rfl
    exact hnonzero (.inr hlength.symm)
  · have hempty : table.rows.toList = [] ∨ table.columns = 0 :=
      Classical.not_not.1 (mt hasData_iff.2 hdata)
    rw [if_neg hdata, if_pos hempty]
    rfl

namespace Proper

/-- All rows of a table are shown. -/
theorem lines_eq (h : table.Proper) :
    table.lines = Query.present table.rows.toList table.columns :=
  h.wellFormed.lines_eq fun row hrow hzero ↦
    Int.lt_irrefl 0 (h.pos row hrow 0 (List.mem_of_mem_head? hzero))

/-- A query makes a table with positive cells of a table with positive cells. -/
theorem of_query (h : table.Proper) (hresult : query.apply table = .ok result) :
    result.Proper := by
  refine ⟨h.wellFormed.of_query hresult, fun row hrow n hn ↦ ?_⟩
  obtain ⟨old, hold, hmem⟩ := exists_mem_of_query h.wellFormed hresult hrow hn
  exact h.pos old hold n hmem

/-! ### Tables and lists -/

/-- Without a query left, the table is shown. -/
theorem evaluate_nil (h : table.Proper) :
    Query.evaluate table.rows.toList table.columns [] = (table.lines, none) := by
  rw [Query.evaluate, h.lines_eq]

/-- The first of several queries is carried out on the table, and the others on its result. -/
theorem evaluate_cons (h : table.Proper) (query : Query) (rest : List Query) :
    Query.evaluate table.rows.toList table.columns (query :: rest) =
      match query.apply table with
      | .error fault => ([], some fault)
      | .ok result =>
        let (lines, fault) := Query.evaluate result.rows.toList result.columns rest
        (query.notices.map Fault.message ++ lines, fault) := by
  cases query with
  | project columns requested =>
    rw [Query.evaluate, Query.apply]
    cases hfind : columns.find? fun c ↦ ¬ (1 ≤ c ∧ c ≤ table.columns) with
    | some c =>
      -- the check of the columns stops at the column that the search finds
      obtain ⟨hc, before, after, hcolumns, hbefore⟩ := List.find?_eq_some_iff_append.1 hfind
      have hproject : table.project columns = .error (.noSuchColumn c) := by
        refine (project_eq_error_iff h.wellFormed).2
          ⟨before, c, after, hcolumns, fun b hb ↦ ?_, of_decide_eq_true hc, rfl⟩
        simpa [HasColumn] using hbefore b hb
      rw [hproject]
    | none =>
      have hall : ∀ c ∈ columns, table.HasColumn c := by
        intro c hc
        have hin : ¬ ¬ (1 ≤ c ∧ c ≤ table.columns) := fun hout ↦
          List.find?_eq_none.1 hfind c hc (decide_eq_true hout)
        exact Classical.not_not.1 hin
      rw [project_of_hasColumn h.wellFormed hall]
      dsimp only
      rw [Array.toList_map, Query.notices]
      split <;> rfl
  | select condition =>
    rw [Query.evaluate, Query.apply]
    by_cases hcolumn : 1 ≤ condition.column ∧ condition.column ≤ table.columns
    · rw [if_pos hcolumn, select_of_hasColumn h.wellFormed hcolumn]
      dsimp only
      rw [Array.toList_filter]
      rfl
    · rw [if_neg hcolumn, (select_eq_error_iff h.wellFormed).2 ⟨hcolumn, rfl⟩]

end Proper

end Table

end TableShell
