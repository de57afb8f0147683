import TableShell.Proofs.Table.WellFormed

/-!
# Tables under any sequence of operations

A table is obtainable if it comes from a table without rows by operations, one after the other:
rows pushed or added, projections, selections, with any arguments. A result takes the place of the
table it was made of, so it is operated on in its turn; an operation that is refused leaves its
table as it is, and the sequence goes on from there.

One operation keeps a table well-formed (`WellFormed.perform`), so every obtainable table is
(`Obtainable.wellFormed`). That is all that projection and selection need: on an obtainable table
they answer to the columns alone (`Obtainable.project_select_exact`).
-/

namespace TableShell

namespace Table

/-- An operation on a table, with its arguments. -/
inductive Operation where
  | push (row : Row)
  | add (fields : IntegerList) (columnLimit : Nat)
  | project (targets : List Nat)
  | select (condition : Condition)
deriving DecidableEq, Repr, Inhabited

/-- The table that an operation makes of a table, unless it is refused. -/
def attempt (table : Table) : Operation → Except Fault Table
  | .push row => table.push row
  | .add fields columnLimit => do return (← table.add fields columnLimit).table
  | .project targets => table.project targets
  | .select condition => table.select condition

/-- The table after an operation: the result, or the table as it was if the operation is refused. -/
def perform (table : Table) (operation : Operation) : Table :=
  match table.attempt operation with
  | .ok result => result
  | .error _ => table

/-- The tables that come from a table without rows by any sequence of operations. -/
inductive Obtainable : Table → Prop
  | empty (capacity : Nat) : Obtainable (Table.empty capacity)
  | ofWidth (width capacity : Nat) : Obtainable (Table.ofWidth width capacity)
  | perform {table : Table} (operation : Operation) :
      Obtainable table → Obtainable (table.perform operation)

variable {table result : Table} {targets : List Nat} {condition : Condition}

/-! ### One operation -/

/-- A row that is added is pushed. -/
theorem push_of_add {fields : IntegerList} {columnLimit : Nat} {addition : Addition}
    (h : table.add fields columnLimit = .ok addition) :
    table.push addition.row = .ok addition.table := by
  obtain ⟨⟨row, cutFrom⟩, -, h⟩ := Sequence.bind_eq_ok_iff.1 h
  obtain ⟨grown, hpush, h⟩ := Sequence.bind_eq_ok_iff.1 h
  obtain rfl : (⟨grown, row, cutFrom⟩ : Addition) = addition := Except.ok.inj h
  exact hpush

namespace WellFormed

/-- Every operation makes a well-formed table of a well-formed table, or none. -/
theorem attempt {operation : Operation} (h : table.WellFormed)
    (hattempt : table.attempt operation = .ok result) : result.WellFormed := by
  cases operation with
  | push row => exact h.push hattempt
  | add fields columnLimit =>
    obtain ⟨addition, hadd, hattempt⟩ := Sequence.bind_eq_ok_iff.1 hattempt
    obtain rfl : addition.table = result := Except.ok.inj hattempt
    exact h.push (push_of_add hadd)
  | project targets => exact h.project hattempt
  | select condition => exact h.select hattempt

/-- Every operation keeps a table well-formed, whether it goes well or is refused. -/
theorem perform (h : table.WellFormed) (operation : Operation) :
    (table.perform operation).WellFormed := by
  unfold Table.perform
  split
  · next hattempt => exact h.attempt hattempt
  · exact h

end WellFormed

/-! ### Any sequence of operations -/

namespace Obtainable

/-- Every obtainable table is well-formed, by induction on the operations it comes from. -/
theorem wellFormed (h : table.Obtainable) : table.WellFormed := by
  induction h with
  | empty capacity => exact WellFormed.empty capacity
  | ofWidth width capacity => exact WellFormed.ofWidth width capacity
  | perform operation _ ih => exact ih.perform operation

/-- An obtainable table keeps within its capacity, and its rows have its width. A projection of it
goes well exactly if all targets are columns of it, and then picks them from each row; otherwise
it reports the first target that is no column. A selection goes well exactly if its column is one of
the table, and then keeps the rows whose value there compares as asked; otherwise it reports that
column. Neither is ever refused for lack of room or for a wrong width. -/
theorem project_select_exact (h : table.Obtainable) :
    table.size ≤ table.capacity ∧
    (∀ row ∈ table.rows, table.width = some row.length) ∧
    (∀ targets : List Nat,
      (∀ result, table.project targets = .ok result ↔
        (∀ c ∈ targets, 1 ≤ c ∧ c ≤ table.columns) ∧
          result = ⟨table.rows.map fun row ↦ targets.map fun c ↦ row.getD (c - 1) 0,
            some targets.length, table.capacity⟩) ∧
      (∀ fault, table.project targets = .error fault ↔
        ∃ before c after, targets = before ++ c :: after ∧
          (∀ b ∈ before, 1 ≤ b ∧ b ≤ table.columns) ∧
          ¬ (1 ≤ c ∧ c ≤ table.columns) ∧ fault = .noSuchColumn c)) ∧
    (∀ condition : Condition,
      (∀ result, table.select condition = .ok result ↔
        (1 ≤ condition.column ∧ condition.column ≤ table.columns) ∧
          result = ⟨table.rows.filter fun row ↦
            condition.relation.holds (row.getD (condition.column - 1) 0) condition.value,
            table.width, table.capacity⟩) ∧
      (∀ fault, table.select condition = .error fault ↔
        ¬ (1 ≤ condition.column ∧ condition.column ≤ table.columns) ∧
          fault = .noSuchColumn condition.column)) ∧
    (∀ fault, (∃ targets, table.project targets = .error fault) ∨
        (∃ condition, table.select condition = .error fault) →
      (∀ limit, fault ≠ .noRoom limit) ∧ ∀ expected got, fault ≠ .widthMismatch expected got) := by
  have hwf := h.wellFormed
  refine ⟨hwf.size_le, hwf.width_eq, fun targets ↦ ⟨fun result ↦ ?_, fun fault ↦ ?_⟩,
    fun condition ↦ ⟨fun result ↦ ?_, fun fault ↦ ?_⟩, fun fault hfault ↦ ?_⟩
  · exact project_eq_ok_iff hwf
  · exact project_eq_error_iff hwf
  · exact select_eq_ok_iff hwf
  · exact select_eq_error_iff hwf
  · have hcolumn : ∃ c, fault = .noSuchColumn c := by
      rcases hfault with ⟨targets, hproject⟩ | ⟨condition, hselect⟩
      · obtain ⟨-, c, -, -, -, -, rfl⟩ := (project_eq_error_iff hwf).1 hproject
        exact ⟨c, rfl⟩
      · exact ⟨_, ((select_eq_error_iff hwf).1 hselect).2⟩
    obtain ⟨c, rfl⟩ := hcolumn
    exact ⟨fun _ ↦ Fault.noConfusion, fun _ _ ↦ Fault.noConfusion⟩

/-- Two rows, a refused third one, a projection with a repeated column, and a selection from it. -/
theorem project_select_exact_two_rows :
    let table := (((Table.empty 2).perform (.push [7, -8])).perform
      (.add ⟨[1, 2, 3], 3⟩ 5)).perform (.push [4, 4])
    table.Obtainable ∧ table.rows = #[[7, -8], [1, 2]] ∧
      table.project [2, 1, 2] = .ok ⟨#[[-8, 7, -8], [2, 1, 2]], some 3, 2⟩ ∧
      table.project [1, 0, 3] = .error (.noSuchColumn 0) ∧
      table.select ⟨2, .less, 0⟩ = .ok ⟨#[[7, -8]], some 2, 2⟩ := by
  intro table
  have h : table.Obtainable := (((Obtainable.empty 2).perform _).perform _).perform _
  have hexact := project_select_exact h
  refine ⟨h, by decide, ?_, ?_, ?_⟩
  · exact ((hexact.2.2.1 [2, 1, 2]).1 _).2 ⟨by decide, by decide +kernel⟩
  · exact ((hexact.2.2.1 [1, 0, 3]).2 _).2 ⟨[1], 0, [3], rfl, by decide, by decide, rfl⟩
  · exact ((hexact.2.2.2.1 ⟨2, .less, 0⟩).1 _).2 ⟨by decide, by decide +kernel⟩

end Obtainable

end Table

end TableShell
