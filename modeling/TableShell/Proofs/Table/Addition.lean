import TableShell.Proofs.Sequence
import TableShell.Table.Algebra

/-!
# Adding a row that was read

A row is added if there is room for it and it fits: while the width is open it may have so many
values and no more, and once the width is fixed it needs as many (`Table.Fits`). What is stored of
it is its beginning (`Table.stored`).

The reader of lines has cut the row before it is added, at the width of the table or at the limit
while there is none, so the stored row is cut from a row that may be shorter already. By
`add_taken_eq_ok_iff` nothing depends on this: the addition is the one of the row as it was written.
-/

namespace TableShell

namespace Table

variable {table : Table} {values : List Int} {limit : Nat}

/-- Whether a row written with a number of values fits: an open width takes so many and no more, a
fixed one asks for as many. -/
def Fits (table : Table) (limit total : Nat) : Prop :=
  match table.width with
  | none => total ≤ limit
  | some width => width ≤ total

instance (table : Table) (limit total : Nat) : Decidable (table.Fits limit total) :=
  match h : table.width with
  | none => decidable_of_iff (total ≤ limit) (by rw [Fits, h])
  | some width => decidable_of_iff (width ≤ total) (by rw [Fits, h])

/-- What is stored of a row: as many values as the table is wide, and all while the width is
open. -/
def stored (table : Table) (values : List Int) : Row :=
  values.take (table.width.getD values.length)

/-- The addition of a row to a table that has room for it and that it fits. -/
def grownBy (table : Table) (values : List Int) : Addition where
  table := ⟨table.rows.push (table.stored values), some (table.stored values).length,
    table.capacity⟩
  row := table.stored values
  cutFrom := if (table.stored values).length < values.length then some values.length else none

theorem stored_of_width_none (hwidth : table.width = none) : table.stored values = values := by
  rw [stored, hwidth, Option.getD_none, List.take_length]

theorem stored_of_width_some {width : Nat} (hwidth : table.width = some width) :
    table.stored values = values.take width := by
  rw [stored, hwidth, Option.getD_some]

/-- A row that fits a fixed width is stored with that width. -/
theorem length_stored {width : Nat} (hwidth : table.width = some width)
    (hfits : table.Fits limit values.length) : (table.stored values).length = width := by
  rw [Fits, hwidth] at hfits
  rw [stored_of_width_some hwidth, List.length_take]
  exact Nat.min_eq_left hfits

/-- The stored row goes with the width of the table, be it open or fixed. -/
theorem width_getD_length_stored (hfits : table.Fits limit values.length) :
    table.width.getD (table.stored values).length = (table.stored values).length := by
  cases hwidth : table.width with
  | none => rfl
  | some width => exact (length_stored hwidth hfits).symm

/-- A row that was read is stored exactly if it fits, and then as it was written. -/
theorem fit_taken_eq_ok_iff {fitted : Row × Option Nat} :
    table.fit ⟨values.take (table.width.getD limit), values.length⟩ limit = .ok fitted ↔
      table.Fits limit values.length ∧
        fitted = ((table.grownBy values).row, (table.grownBy values).cutFrom) := by
  show _ ↔ _ ∧ fitted = (table.stored values,
    if (table.stored values).length < values.length then some values.length else none)
  cases hwidth : table.width with
  | none =>
    rw [fit, Fits, stored_of_width_none hwidth, hwidth, if_neg (Nat.lt_irrefl _)]
    dsimp only [Option.getD_none]
    by_cases hle : values.length ≤ limit
    · rw [if_pos hle, List.take_of_length_le hle]
      simp [hle, eq_comm]
    · simp [hle]
  | some width =>
    rw [fit, Fits, stored_of_width_some hwidth, hwidth]
    dsimp only [Option.getD_some]
    -- too narrow, just as wide, or wider and cut
    rcases Nat.lt_trichotomy values.length width with hlt | heq | hgt
    · have hnle : ¬ width ≤ values.length := by omega
      simp [hlt, hnle]
    · subst heq
      simp [eq_comm]
    · have hnlt : ¬ values.length < width := by omega
      have hle : width ≤ values.length := by omega
      simp [hgt, hnlt, hle, List.take_take, eq_comm]

/-- What becomes of a row that was read. That it does not fit comes before that there is no room. -/
theorem add_taken_eq (table : Table) (values : List Int) (limit : Nat) :
    table.add ⟨values.take (table.width.getD limit), values.length⟩ limit =
      if table.Fits limit values.length then
        if table.size < table.capacity then .ok (table.grownBy values)
        else .error (.noRoom table.capacity)
      else match table.width with
        | none => .error (.tooManyColumns values.length limit)
        | some width => .error (.widthMismatch width values.length) := by
  by_cases hfits : table.Fits limit values.length
  · rw [if_pos hfits, add, fit_taken_eq_ok_iff.2 ⟨hfits, rfl⟩]
    show (table.push (table.stored values) >>= fun grown ↦ _) = _
    by_cases hroom : table.size < table.capacity
    · rw [if_pos hroom, push_eq_ok_iff.2 ⟨hroom, width_getD_length_stored hfits, rfl⟩]
      rfl
    · have hfull : table.isFull = true := decide_eq_true (Nat.not_lt.1 hroom)
      rw [if_neg hroom, push, if_pos hfull]
      rfl
  · rw [if_neg hfits, add, fit]
    rw [Fits] at hfits
    cases hwidth : table.width with
    | none =>
      rw [hwidth] at hfits
      dsimp only at hfits ⊢
      rw [if_neg hfits]
      rfl
    | some width =>
      rw [hwidth] at hfits
      dsimp only at hfits ⊢
      rw [if_pos (Nat.not_le.1 hfits)]
      rfl

/-- A row that was read is added exactly if there is room for it and it fits. -/
theorem add_taken_eq_ok_iff {addition : Addition} :
    table.add ⟨values.take (table.width.getD limit), values.length⟩ limit = .ok addition ↔
      table.size < table.capacity ∧ table.Fits limit values.length ∧
        addition = table.grownBy values := by
  rw [add_taken_eq]
  by_cases hfits : table.Fits limit values.length
  · by_cases hroom : table.size < table.capacity
    · simp [hfits, hroom, eq_comm]
    · simp [hfits, hroom]
  · cases table.width <;> simp [hfits]

end Table

end TableShell
