import TableShell.Proofs.Sequence
import TableShell.Table.Change

/-!
# Adding any list of values

What becomes of a list of values that is added to a table, whatever number of values it is said to
have been written with. Two checks look at it that do not know of each other: one at that number,
before the row is cut, and one at the row that is left. Between them it is asked if there is room.
So there may be more than one reason to refuse a list, and the first check that it does not pass
gives the fault (`Table.add_all_or_nothing`).

A table that is changed in place becomes the table that the addition makes, or stays as it is if the
addition fails (`Change.on_add`). Up to two steps change it, of which the first one fixes the width;
no check comes after the first or between them.
-/

namespace TableShell

namespace Table

variable {table : Table} {fields : IntegerList} {limit width : Nat} {row : Row}
  {cutFrom : Option Nat}

/-! ### One check after the other -/

/-- A row is refused if there is no room for it, or else if it has another width than the table. -/
theorem push_eq_error_iff {fault : Fault} :
    table.push row = .error fault ↔
      table.capacity ≤ table.size ∧ fault = .noRoom table.capacity ∨
        table.size < table.capacity ∧
          ∃ width, table.width = some width ∧ row.length ≠ width ∧
            fault = .widthMismatch width row.length := by
  by_cases hfull : table.capacity ≤ table.size
  · have hpush : table.push row = .error (.noRoom table.capacity) := if_pos (decide_eq_true hfull)
    simp [hpush, hfull, Nat.not_lt.2 hfull, eq_comm]
  · have hroom : table.size < table.capacity := Nat.not_le.1 hfull
    rw [push, isFull, if_neg (by simpa using hfull)]
    rcases table.width with - | width
    · simp [hfull]
    · by_cases hlength : row.length = width
      · simp [hlength, hfull]
      · simp [hlength, hfull, hroom, @eq_comm _ fault]

/-- While the width is open, a list of values is refused if it was written with too many. -/
theorem fit_of_width_none (hwidth : table.width = none) :
    table.fit fields limit =
      if fields.total ≤ limit then .ok (fields.values, none)
      else .error (.tooManyColumns fields.total limit) := by
  rw [fit, hwidth]

/-- Once the width is fixed, it is refused if it was written with too few, and cut if it was written
with more than needed. -/
theorem fit_of_width_some (hwidth : table.width = some width)
    (hrow : row = if width < fields.total then fields.values.take width else fields.values) :
    table.fit fields limit =
      if fields.total < width then .error (.widthMismatch width fields.total)
      else .ok (row, if width < fields.total then some fields.total else none) := by
  rw [fit, hwidth, hrow]
  dsimp only
  by_cases hcut : width < fields.total
  · rw [if_pos hcut, if_pos hcut, if_pos hcut]
  · rw [if_neg hcut, if_neg hcut, if_neg hcut]

/-- A row that was fitted to the table is added by pushing it. -/
theorem add_of_fit (hfit : table.fit fields limit = .ok (row, cutFrom)) :
    table.add fields limit = (table.push row).map fun grown ↦ ⟨grown, row, cutFrom⟩ := by
  rw [add, hfit]
  rfl

/-- A list of values that cannot be fitted to the table is not added. -/
theorem add_of_fit_error {fault : Fault} (hfit : table.fit fields limit = .error fault) :
    table.add fields limit = .error fault := by
  rw [add, hfit]
  rfl

end Table

/-! ### In place -/

namespace Change

variable {α β : Type}

/-- To read the table is to go on with it. -/
theorem on_get_bind (next : Table → Change α) (table : Table) :
    (get >>= next).on table = (next table).on table :=
  rfl

/-- The second of two changes is made if the first one comes out well. -/
theorem on_bind (change : Change α) (next : α → Change β) (table : Table) :
    (change >>= next).on table =
      match change.on table with
      | (.ok a, table) => (next a).on table
      | (.error fault, table) => (.error fault, table) := by
  rw [on, Sequence.run_bind, on]
  rcases change.run.run table with ⟨_ | a, table⟩ <;> rfl

/-- A row that is pushed in place is pushed, and a row that is refused changes nothing. -/
theorem on_push (row : Row) (table : Table) :
    (push row).on table =
      match table.push row with
      | .ok grown => (.ok (), grown)
      | .error fault => (.error fault, table) := by
  rw [push, on_get_bind, Table.push]
  by_cases hfull : table.isFull = true
  · rw [if_pos hfull, if_pos hfull]
    rfl
  · rw [if_neg hfull, if_neg hfull]
    obtain ⟨rows, _ | width, capacity⟩ := table
    · rfl
    · dsimp only
      by_cases hlength : row.length = width
      · rw [if_pos hlength, if_neg (not_not_intro hlength)]
        rfl
      · rw [if_neg hlength, if_pos hlength]
        rfl

/-- To fit a row to a table changes nothing. -/
theorem on_fit (fields : IntegerList) (limit : Nat) (table : Table) :
    (fit fields limit).on table = (table.fit fields limit, table) := by
  rw [fit, on_get_bind, Table.fit]
  rcases table.width with - | width
  · dsimp only
    by_cases hle : fields.total ≤ limit
    · rw [if_pos hle, if_neg (Nat.not_lt.2 hle)]
      rfl
    · rw [if_neg hle, if_pos (Nat.not_le.1 hle)]
      rfl
  · dsimp only
    by_cases hlt : fields.total < width
    · rw [if_pos hlt, if_pos hlt]
      rfl
    · rw [if_neg hlt, if_neg hlt]
      split <;> rfl

/-- A list of values that is added in place is added, and one that is refused changes nothing. -/
theorem on_add (fields : IntegerList) (limit : Nat) (table : Table) :
    (add fields limit).on table =
      match table.add fields limit with
      | .ok addition => (.ok (addition.row, addition.cutFrom), addition.table)
      | .error fault => (.error fault, table) := by
  rw [add, on_bind, on_fit]
  rcases hfit : table.fit fields limit with fault | ⟨row, cutFrom⟩
  · rw [Table.add_of_fit_error hfit]
  · rw [Table.add_of_fit hfit]
    dsimp only
    rw [on_bind, on_push]
    rcases table.push row with fault | grown <;> rfl

end Change

namespace Table

variable {table : Table} {fields : IntegerList} {limit width : Nat} {row : Row}
  {cutFrom : Option Nat}

/-! ### The order of the faults -/

/-- Without room, a row that fits is refused. -/
theorem add_of_full (hfit : table.fit fields limit = .ok (row, cutFrom))
    (hfull : table.capacity ≤ table.size) :
    table.add fields limit = .error (.noRoom table.capacity) := by
  rw [add_of_fit hfit, push_eq_error_iff.2 (.inl ⟨hfull, rfl⟩)]
  rfl

/-- With room, it is stored as it is, if it goes with the width of the table. -/
theorem add_of_room (hfit : table.fit fields limit = .ok (row, cutFrom))
    (hroom : table.size < table.capacity) (hwidth : table.width.getD row.length = row.length) :
    table.add fields limit =
      .ok ⟨⟨table.rows.push row, some row.length, table.capacity⟩, row, cutFrom⟩ := by
  rw [add_of_fit hfit, push_eq_ok_iff.2 ⟨hroom, hwidth, rfl⟩]
  rfl

/-- Adding a list of values fails for the first of the reasons that applies, or it stores exactly
one row. While the width is open, there may be too many values, or no room, and the row is all of
the values that were kept. Once it is fixed, there may be too few values, or no room, or a row that
after being cut to the width has another length, and the row is what was kept up to the width. The
numbers of values that are compared and reported are those that the list was said to be written
with, up to the last check, which goes by the row itself.

In place, an addition changes the table into the one with the row, and a failure leaves it as it
is. -/
theorem add_all_or_nothing (table : Table) (fields : IntegerList) (limit : Nat) :
    (table.width = none →
      (limit < fields.total →
        table.add fields limit = .error (.tooManyColumns fields.total limit)) ∧
      (fields.total ≤ limit → table.capacity ≤ table.size →
        table.add fields limit = .error (.noRoom table.capacity)) ∧
      (fields.total ≤ limit → table.size < table.capacity →
        table.add fields limit =
          .ok ⟨⟨table.rows.push fields.values, some fields.values.length, table.capacity⟩,
            fields.values, none⟩)) ∧
    (∀ width row, table.width = some width →
      row = (if width < fields.total then fields.values.take width else fields.values) →
      (fields.total < width →
        table.add fields limit = .error (.widthMismatch width fields.total)) ∧
      (width ≤ fields.total → table.capacity ≤ table.size →
        table.add fields limit = .error (.noRoom table.capacity)) ∧
      (width ≤ fields.total → table.size < table.capacity → row.length ≠ width →
        table.add fields limit = .error (.widthMismatch width row.length)) ∧
      (width ≤ fields.total → table.size < table.capacity → row.length = width →
        table.add fields limit =
          .ok ⟨⟨table.rows.push row, some row.length, table.capacity⟩,
            row, if width < fields.total then some fields.total else none⟩)) ∧
    (∀ addition, table.add fields limit = .ok addition →
      (Change.add fields limit).on table =
        (.ok (addition.row, addition.cutFrom), addition.table)) ∧
    ∀ fault, table.add fields limit = .error fault →
      (Change.add fields limit).on table = (.error fault, table) := by
  refine ⟨fun hwidth ↦ ?_, fun width row hwidth hrow ↦ ?_, fun addition hadd ↦ ?_,
    fun fault hadd ↦ ?_⟩
  · have hfit := @fit_of_width_none table fields limit hwidth
    refine ⟨fun hmany ↦ ?_, fun hle hfull ↦ ?_, fun hle hroom ↦ ?_⟩
    · rw [if_neg (Nat.not_le.2 hmany)] at hfit
      exact add_of_fit_error hfit
    · rw [if_pos hle] at hfit
      exact add_of_full hfit hfull
    · rw [if_pos hle] at hfit
      exact add_of_room hfit hroom (by rw [hwidth, Option.getD_none])
  · have hfit := @fit_of_width_some table fields limit width row hwidth hrow
    refine ⟨fun hfew ↦ ?_, fun hle hfull ↦ ?_, fun hle hroom hlength ↦ ?_,
      fun hle hroom hlength ↦ ?_⟩
    · rw [if_pos hfew] at hfit
      exact add_of_fit_error hfit
    · rw [if_neg (Nat.not_lt.2 hle)] at hfit
      exact add_of_full hfit hfull
    · rw [if_neg (Nat.not_lt.2 hle)] at hfit
      rw [add_of_fit hfit, push_eq_error_iff.2 (.inr ⟨hroom, width, hwidth, hlength, rfl⟩)]
      rfl
    · rw [if_neg (Nat.not_lt.2 hle)] at hfit
      exact add_of_room hfit hroom (by rw [hwidth, Option.getD_some, hlength])
  · rw [Change.on_add, hadd]
  · rw [Change.on_add, hadd]

/-- A list that was written with three values, of which one was kept, is refused by a table of two
columns because of its length; one of five values is cut. Where there is no room and the width is
open, it is still the number of values that is reported. -/
theorem add_all_or_nothing_few_kept :
    let table : Table := ⟨#[[1, 2]], some 2, 2⟩
    table.add ⟨[7], 3⟩ 5 = .error (.widthMismatch 2 1) ∧
      (Change.add ⟨[7], 3⟩ 5).on table = (.error (.widthMismatch 2 1), table) ∧
      (Change.add ⟨[7, 8, 9], 5⟩ 5).on table =
        (.ok ([7, 8], some 5), ⟨#[[1, 2], [7, 8]], some 2, 2⟩) ∧
      (Change.add ⟨[7], 4⟩ 3).on (Table.empty 0) =
        (.error (.tooManyColumns 4 3), Table.empty 0) := by
  intro table
  obtain ⟨-, hfixed, -, hrefused⟩ := add_all_or_nothing table ⟨[7], 3⟩ 5
  have hshort : table.add ⟨[7], 3⟩ 5 = .error (.widthMismatch 2 1) :=
    (hfixed 2 [7] rfl rfl).2.2.1 (by decide) (by decide) (by decide)
  obtain ⟨-, hfixed', hstored, -⟩ := add_all_or_nothing table ⟨[7, 8, 9], 5⟩ 5
  have hcut := (hfixed' 2 [7, 8] rfl rfl).2.2.2 (by decide) (by decide) rfl
  obtain ⟨hopen, -, -, hrefused'⟩ := add_all_or_nothing (Table.empty 0) ⟨[7], 4⟩ 3
  exact ⟨hshort, hrefused _ hshort, hstored _ hcut, hrefused' _ ((hopen rfl).1 (by decide))⟩

end Table

end TableShell
