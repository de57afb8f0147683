import TableShell.Proofs.Evaluation
import TableShell.Proofs.Performance
import TableShell.Proofs.ReadBack
import TableShell.Proofs.Text.Split

/-!
# What the text of a row tells

A row can be told from its text. No value has a comma in its text, so the pieces between the
separators are the texts of the values (`Row.pieces_text`), and each of them is read back as its
value, whatever the sign and the size. Only the row without values is written as nothing at all
(`Row.text_eq_empty_iff`), and with that exception understood `Row.ofText?` undoes `Row.text`.

The lines of a table tell its rows in the same way if it is `Legible`, that is, if there is a row and
a column, and no row is left out because it starts with a zero.
-/

namespace TableShell

namespace Row

variable {row : Row} {read : List Char → Option Int}

/-! ### Rows from texts -/

/-- What stands between the separators in a text. -/
def pieces (text : String) : List String :=
  (text.split separator).toList.map String.Slice.copy

/-- Reads a row from its text, one numeral in each piece of it. No text at all is that of the row
without values. -/
def ofText? (read : List Char → Option Int) (text : String) : Option Row :=
  if text = "" then some [] else (pieces text).mapM fun piece ↦ read piece.toList

/-- The pieces of the text of a row are the texts of its values. -/
theorem pieces_text (hne : row ≠ []) : pieces row.text = row.map Numeral.text := by
  have hcomma : ∀ piece ∈ row.map Numeral.text, ',' ∉ piece.toList := by
    intro piece hpiece hmem
    obtain ⟨n, -, rfl⟩ := List.mem_map.1 hpiece
    exact absurd (Numeral.solid_of_mem_text hmem).2 (by decide)
  exact Text.split_intercalate rfl (mt List.map_eq_nil_iff.1 hne) hcomma

/-- Only the row without values has no text. -/
theorem text_eq_empty_iff : row.text = "" ↔ row = [] := by
  constructor
  · intro h
    by_contra hne
    exact toList_text_ne_nil hne (by rw [h, String.toList_empty])
  · rintro rfl
    rfl

/-- Values that are read back from their texts one by one are read back in order. -/
theorem mapM_map_text (hread : ∀ n ∈ row, read (Numeral.text n).toList = some n) :
    (row.map Numeral.text).mapM (fun piece ↦ read piece.toList) = some row := by
  induction row with
  | nil => rfl
  | cons n rest ih =>
    obtain ⟨hn, hrest⟩ := List.forall_mem_cons.1 hread
    rw [List.map_cons, List.mapM_cons, hn, ih hrest]
    rfl

/-- If each of the values is read back from its text, so is the row. -/
theorem ofText?_text (hread : ∀ n ∈ row, read (Numeral.text n).toList = some n) :
    ofText? read row.text = some row := by
  rw [ofText?]
  split
  · next hempty => rw [text_eq_empty_iff.1 hempty]
  · next htext => rw [pieces_text (mt text_eq_empty_iff.2 htext), mapM_map_text hread]

/-- Every row is read back from its text. -/
theorem ofText?_signed_text (row : Row) : ofText? Numeral.signed? row.text = some row :=
  ofText?_text fun n _ ↦ Numeral.signed?_toList_text n

theorem text_injective : Function.Injective Row.text := by
  intro row other h
  have hread := congrArg (ofText? Numeral.signed?) h
  rwa [ofText?_signed_text, ofText?_signed_text, Option.some.injEq] at hread

end Row

/-! ### Tables -/

namespace Table

variable {table other : Table}

/-- A well-formed table with a row and a column, no row of which starts with a zero. -/
structure Legible (table : Table) : Prop where
  wellFormed : table.WellFormed
  rows_ne : table.rows ≠ #[]
  columns_pos : 0 < table.columns
  head?_ne : ∀ row ∈ table.rows, row.head? ≠ some 0

/-- The lines of a legible table are the texts of its rows. -/
theorem Legible.lines_eq (h : table.Legible) : table.lines = table.rows.toList.map Row.text := by
  rw [h.wellFormed.lines_eq h.head?_ne, Query.present, if_neg]
  rintro (hrows | hcolumns)
  · exact h.rows_ne (Array.toList_eq_nil_iff.1 hrows)
  · exact Nat.ne_of_gt h.columns_pos hcolumns

/-- What is emitted when a table is shown on a display that keeps its lines. -/
def emitted (table : Table) (shell : Shell) : List String :=
  ((Performance.render table).run.run (shell, LineLog.empty)).2.2.lines.toList

/-- These are the lines of the table, whatever the shell is. -/
theorem emitted_eq_lines (table : Table) (shell : Shell) : table.emitted shell = table.lines := by
  have hkept := Display.lines_deliver_empty table.lines
  rw [Display.deliver_lineLog] at hkept
  rw [emitted, Performance.run_render, Performance.told, Display.takeAll_eq_deliver,
    Remark.map_text_line, Display.deliver_lineLog]
  exact hkept

/-- Legible tables have the same lines exactly if they have the same rows. -/
theorem Legible.lines_inj (h : table.Legible) (hother : other.Legible) :
    table.lines = other.lines ↔ table.rows = other.rows := by
  rw [h.lines_eq, hother.lines_eq, List.map_inj_right Row.text_injective, Array.toList_inj]

end Table

/-- The text of a row says which row it is. The numerals between its separators are its values, of
whatever sign and size, and they fit into 64 bits if the values do; there are no numerals, and no
text, exactly if there are no values. So rows have one text exactly if they are one row, and legible
tables are shown in the same lines exactly if they have the same rows. -/
theorem Row.text_tells_row :
    (∀ row : Row,
      (row ≠ [] → (Row.pieces row.text).map (fun piece ↦ Numeral.signed? piece.toList) =
        row.map some) ∧
      Row.ofText? Numeral.signed? row.text = some row ∧
      ((∀ n ∈ row, -0x8000000000000000 ≤ n ∧ n ≤ 0x7FFFFFFFFFFFFFFF) →
        Row.ofText? Numeral.int64? row.text = some row) ∧
      (row.text = "" ↔ row = [])) ∧
    (∀ row other : Row, row.text = other.text ↔ row = other) ∧
    ∀ table other : Table, table.Legible → other.Legible → ∀ shell : Shell,
      table.emitted shell = other.emitted shell ↔ table.rows = other.rows := by
  refine ⟨fun row ↦ ⟨fun hne ↦ ?_, Row.ofText?_signed_text row, fun hcells ↦ ?_,
    Row.text_eq_empty_iff⟩, fun row other ↦ Row.text_injective.eq_iff,
    fun table other h hother shell ↦ ?_⟩
  · rw [Row.pieces_text hne, List.map_map]
    exact List.map_congr_left fun n _ ↦ Numeral.signed?_toList_text n
  · refine Row.ofText?_text fun n hn ↦ ?_
    obtain ⟨hlow, hhigh⟩ := hcells n hn
    exact Numeral.int64?_toList_text hlow (by omega)
  · rw [Table.emitted_eq_lines, Table.emitted_eq_lines, h.lines_inj hother]

/-- The least and the greatest integer of 64 bits with a zero between them, and two tables of which
the one begins as the other does. -/
theorem Row.text_tells_row_extremes :
    let row : Row := [-0x8000000000000000, 0, 0x7FFFFFFFFFFFFFFF]
    let table : Table := ⟨#[[-7, 0], [12, -3]], some 2, 5⟩
    let other : Table := ⟨#[[-7, 0], [1, -3]], some 2, 2⟩
    let shell := Shell.start ⟨2, 5, 1, 9⟩
    row.text = "-9223372036854775808, 0, 9223372036854775807" ∧ row ≠ [] ∧
      (∀ n ∈ row, -0x8000000000000000 ≤ n ∧ n ≤ 0x7FFFFFFFFFFFFFFF) ∧
      (Row.pieces row.text).map (fun piece ↦ Numeral.signed? piece.toList) = row.map some ∧
      Row.ofText? Numeral.int64? row.text = some row ∧
      table.Legible ∧ other.Legible ∧ table.emitted shell ≠ other.emitted shell := by
  intro row table other shell
  have hne : row ≠ [] := List.cons_ne_nil _ _
  have hcells : ∀ n ∈ row, -0x8000000000000000 ≤ n ∧ n ≤ 0x7FFFFFFFFFFFFFFF := by decide
  have htable : table.Legible := ⟨⟨by decide, by decide⟩, by decide, by decide, by decide⟩
  have hother : other.Legible := ⟨⟨by decide, by decide⟩, by decide, by decide, by decide⟩
  refine ⟨by decide +kernel, hne, hcells, (Row.text_tells_row.1 row).1 hne,
    (Row.text_tells_row.1 row).2.2.1 hcells, htable, hother, fun hsame ↦ ?_⟩
  exact absurd ((Row.text_tells_row.2.2 table other htable hother shell).1 hsame) (by decide)

end TableShell
