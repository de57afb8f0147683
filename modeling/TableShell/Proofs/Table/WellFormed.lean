import TableShell.Proofs.Sequence
import TableShell.Table.Algebra

/-!
# Well-formed tables

A table is well-formed if it keeps within its capacity and each of its rows has its width. Nothing
else is needed to say what the operations on tables do. Rows that fit are pushed without loss
(`foldlM_push`), so on a well-formed table projection and selection can only be refused for a column
that the table does not have: `project_eq_ok_iff` and `select_eq_ok_iff` say when they go well and
what they come to, `project_eq_error_iff` and `select_eq_error_iff` how they fail. Neither ever
reports a full table or a wrong width.

Every operation keeps tables well-formed, also the ones that build a new table; the new table has
the capacity of the old one and not more rows.
-/

namespace TableShell

namespace Row

/-- The values of the given columns, in the given order and as often as they are given. -/
def pick (columns : List Nat) (row : Row) : Row :=
  columns.map fun c ↦ row.getD (c - 1) 0

@[simp]
theorem length_pick (columns : List Nat) (row : Row) : (row.pick columns).length = columns.length :=
  List.length_map _

/-- A column of a row that is wide enough holds the value that is found there. -/
theorem column?_eq_getD {row : Row} {c : Nat} (hc : 1 ≤ c) (hle : c ≤ row.length) :
    row.column? c = some (row.getD (c - 1) 0) := by
  obtain ⟨i, rfl⟩ := Nat.exists_eq_add_of_le' hc
  have hi : i < row.length := by omega
  rw [column?_succ, Nat.add_sub_cancel, List.getD_eq_getElem?_getD, List.getElem?_eq_getElem hi,
    Option.getD_some]

end Row

namespace Table

variable {table grown : Table} {row : Row} {targets : List Nat} {condition : Condition}

/-! ### Columns -/

/-- A table has the columns from one up to its width. -/
def HasColumn (table : Table) (column : Nat) : Prop :=
  1 ≤ column ∧ column ≤ table.columns

instance (table : Table) (column : Nat) : Decidable (table.HasColumn column) :=
  inferInstanceAs (Decidable (1 ≤ column ∧ column ≤ table.columns))

theorem requireColumn_eq_error_iff {column : Nat} {fault : Fault} :
    table.requireColumn column = .error fault ↔
      ¬ table.HasColumn column ∧ fault = .noSuchColumn column := by
  unfold requireColumn HasColumn
  split <;> simp [*, eq_comm]

/-- Whether a row satisfies a condition, as a comparison of the value in its column. -/
def meets (condition : Condition) (row : Row) : Bool :=
  condition.relation.holds (row.getD (condition.column - 1) 0) condition.value

/-! ### The invariant -/

/-- A table within its capacity, with rows of its own width. -/
structure WellFormed (table : Table) : Prop where
  size_le : table.size ≤ table.capacity
  width_eq : ∀ row ∈ table.rows, table.width = some row.length

namespace WellFormed

theorem empty (capacity : Nat) : (Table.empty capacity).WellFormed :=
  ⟨Nat.zero_le _, by simp [Table.empty]⟩

theorem ofWidth (width capacity : Nat) : (Table.ofWidth width capacity).WellFormed :=
  ⟨Nat.zero_le _, by simp [Table.ofWidth]⟩

/-- A row of a well-formed table is as wide as the table. -/
theorem length_eq (h : table.WellFormed) (hrow : row ∈ table.rows) :
    row.length = table.columns := by
  rw [columns, h.width_eq row hrow, Option.getD_some]

/-- A column of the table is a column of each of its rows. -/
theorem column?_eq (h : table.WellFormed) (hrow : row ∈ table.rows) {c : Nat}
    (hc : table.HasColumn c) : row.column? c = some (row.getD (c - 1) 0) :=
  Row.column?_eq_getD hc.1 ((h.length_eq hrow).symm ▸ hc.2)

/-- A table that has a column has a width. -/
theorem width_of_hasColumn {c : Nat} (hc : table.HasColumn c) :
    table.width = some table.columns := by
  obtain ⟨hpos, hle⟩ := hc
  unfold columns at hle ⊢
  cases hw : table.width with
  | none =>
    rw [hw, Option.getD_none] at hle
    omega
  | some width => rfl

/-- Pushing a row keeps a table well-formed. -/
theorem push (h : table.WellFormed) (hpush : table.push row = .ok grown) : grown.WellFormed := by
  obtain ⟨hroom, hwidth, rfl⟩ := push_eq_ok_iff.1 hpush
  refine ⟨?_, fun old hold ↦ ?_⟩
  · show (table.rows.push row).size ≤ table.capacity
    rw [Array.size_push]
    exact hroom
  · rcases Array.mem_push.1 hold with hold | rfl
    · have hw := h.width_eq old hold
      rw [hw, Option.getD_some] at hwidth
      exact congrArg some hwidth.symm
    · rfl

end WellFormed

/-! ### Pushing many rows -/

/-- Rows that fit are pushed one after the other, and nothing is lost. -/
theorem foldlM_push (rows : List Row) (table : Table)
    (hroom : table.size + rows.length ≤ table.capacity)
    (hwidth : ∀ row ∈ rows, table.width = some row.length) :
    rows.foldlM Table.push table = .ok { table with rows := table.rows ++ rows.toArray } := by
  induction rows generalizing table with
  | nil => simp [pure, Except.pure]
  | cons row rest ih =>
    have hrow : table.width = some row.length := hwidth row List.mem_cons_self
    have hpush : table.push row = .ok { table with rows := table.rows.push row } := by
      refine push_eq_ok_iff.2 ⟨?_, by rw [hrow, Option.getD_some], by rw [hrow]⟩
      rw [List.length_cons] at hroom
      omega
    rw [List.foldlM_cons, hpush]
    show rest.foldlM Table.push _ = _
    rw [ih]
    · simp
    · show (table.rows.push row).size + rest.length ≤ table.capacity
      have hsize : table.rows.size + (rest.length + 1) ≤ table.capacity := hroom
      rw [Array.size_push]
      omega
    · exact fun other hother ↦ hwidth other (List.mem_cons_of_mem _ hother)

/-- Rows that fit into a table without rows become all of its rows. -/
theorem foldlM_push_ofWidth {rows : Array Row} {width capacity : Nat} (hroom : rows.size ≤ capacity)
    (hwidth : ∀ row ∈ rows, row.length = width) :
    rows.foldlM Table.push (ofWidth width capacity) = .ok ⟨rows, some width, capacity⟩ := by
  rw [← Array.foldlM_toList, foldlM_push]
  · simp [ofWidth]
  · simpa [ofWidth, size] using hroom
  · exact fun row hrow ↦ congrArg some (hwidth row (Array.mem_toList_iff.1 hrow)).symm

/-! ### Projection -/

/-- The values that a projection picks from a row of the table all exist. -/
theorem mapM_cell (h : table.WellFormed) (hrow : row ∈ table.rows)
    (htargets : ∀ c ∈ targets, table.HasColumn c) :
    targets.mapM (cell row) = .ok (row.pick targets) :=
  Sequence.mapM_eq_ok fun c hc ↦ cell_eq_ok_iff.2 (h.column?_eq hrow (htargets c hc))

/-- A projection onto columns that exist goes well, and picks the columns from each row. -/
theorem project_of_hasColumn (h : table.WellFormed) (htargets : ∀ c ∈ targets, table.HasColumn c) :
    table.project targets =
      .ok ⟨table.rows.map (Row.pick targets), some targets.length, table.capacity⟩ := by
  have hcheck : targets.forM table.requireColumn = .ok () :=
    Sequence.forM_eq_ok_iff.2 fun c hc ↦ requireColumn_eq_ok_iff.2 (htargets c hc)
  have hpick : table.rows.foldlM (fun result row ↦ do result.push (← targets.mapM (cell row)))
        (ofWidth targets.length table.capacity) =
      (table.rows.map (Row.pick targets)).foldlM Table.push
        (ofWidth targets.length table.capacity) := by
    rw [← Array.foldlM_toList, ← Array.foldlM_toList, Array.toList_map]
    exact Sequence.foldlM_bind (fun row hrow ↦ mapM_cell h (Array.mem_toList_iff.1 hrow) htargets) _
  rw [project, hcheck]
  show Array.foldlM _ _ _ = _
  rw [hpick]
  refine foldlM_push_ofWidth ?_ fun row hrow ↦ ?_
  · rw [Array.size_map]
    exact h.size_le
  · obtain ⟨old, -, rfl⟩ := Array.mem_map.1 hrow
    exact Row.length_pick targets old

/-- A projection goes well exactly if each of its columns exists. -/
theorem project_eq_ok_iff (h : table.WellFormed) {result : Table} :
    table.project targets = .ok result ↔
      (∀ c ∈ targets, table.HasColumn c) ∧
        result = ⟨table.rows.map (Row.pick targets), some targets.length, table.capacity⟩ := by
  constructor
  · intro hproject
    obtain ⟨_, hcheck, -⟩ := Sequence.bind_eq_ok_iff.1 hproject
    have htargets : ∀ c ∈ targets, table.HasColumn c := fun c hc ↦
      requireColumn_eq_ok_iff.1 (Sequence.forM_eq_ok_iff.1 hcheck c hc)
    rw [project_of_hasColumn h htargets] at hproject
    exact ⟨htargets, (Except.ok.inj hproject).symm⟩
  · rintro ⟨htargets, rfl⟩
    exact project_of_hasColumn h htargets

/-- A projection fails at the first of its columns that does not exist, and in no other way. -/
theorem project_eq_error_iff (h : table.WellFormed) {fault : Fault} :
    table.project targets = .error fault ↔
      ∃ before c after, targets = before ++ c :: after ∧ (∀ b ∈ before, table.HasColumn b) ∧
        ¬ table.HasColumn c ∧ fault = .noSuchColumn c := by
  have hcheck : targets.forM table.requireColumn = .error fault ↔
      ∃ before c after, targets = before ++ c :: after ∧ (∀ b ∈ before, table.HasColumn b) ∧
        ¬ table.HasColumn c ∧ fault = .noSuchColumn c := by
    rw [Sequence.forM_eq_error_iff]
    simp only [requireColumn_eq_ok_iff, requireColumn_eq_error_iff, HasColumn]
  rw [← hcheck]
  constructor
  · intro hproject
    rcases Sequence.bind_eq_error_iff.1 hproject with hfault | ⟨_, hok, -⟩
    · exact hfault
    · -- past the check of the columns nothing can fail
      have htargets : ∀ c ∈ targets, table.HasColumn c := fun c hc ↦
        requireColumn_eq_ok_iff.1 (Sequence.forM_eq_ok_iff.1 hok c hc)
      rw [project_of_hasColumn h htargets] at hproject
      cases hproject
  · exact fun hfault ↦ Sequence.bind_eq_error_iff.2 (.inl hfault)

/-! ### Selection -/

/-- On a row of the table, the search for a cell and the comparison with it come to the same. -/
theorem satisfies_eq_meets (h : table.WellFormed) (hrow : row ∈ table.rows)
    (hcolumn : table.HasColumn condition.column) :
    satisfies condition row = meets condition row := by
  rw [satisfies, h.column?_eq hrow hcolumn]
  rfl

/-- A selection by a column that exists goes well, and keeps the rows that meet the condition. -/
theorem select_of_hasColumn (h : table.WellFormed) (hcolumn : table.HasColumn condition.column) :
    table.select condition =
      .ok { table with rows := table.rows.filter (meets condition) } := by
  have hkeep : table.rows.filter (satisfies condition) = table.rows.filter (meets condition) := by
    rw [← Array.toList_inj, Array.toList_filter, Array.toList_filter]
    exact List.filter_congr fun row hrow ↦
      satisfies_eq_meets h (Array.mem_toList_iff.1 hrow) hcolumn
  rw [select, requireColumn_eq_ok_iff.2 hcolumn, hkeep]
  show Array.foldlM _ _ _ = _
  rw [foldlM_push_ofWidth, ← WellFormed.width_of_hasColumn hcolumn]
  · exact Nat.le_trans Array.size_filter_le h.size_le
  · exact fun row hrow ↦ h.length_eq (Array.mem_filter.1 hrow).1

/-- A selection goes well exactly if its column exists. -/
theorem select_eq_ok_iff (h : table.WellFormed) {result : Table} :
    table.select condition = .ok result ↔
      table.HasColumn condition.column ∧
        result = { table with rows := table.rows.filter (meets condition) } := by
  constructor
  · intro hselect
    obtain ⟨_, hcheck, -⟩ := Sequence.bind_eq_ok_iff.1 hselect
    have hcolumn : table.HasColumn condition.column := requireColumn_eq_ok_iff.1 hcheck
    rw [select_of_hasColumn h hcolumn] at hselect
    exact ⟨hcolumn, (Except.ok.inj hselect).symm⟩
  · rintro ⟨hcolumn, rfl⟩
    exact select_of_hasColumn h hcolumn

/-- A selection fails if its column does not exist, and in no other way. -/
theorem select_eq_error_iff (h : table.WellFormed) {fault : Fault} :
    table.select condition = .error fault ↔
      ¬ table.HasColumn condition.column ∧ fault = .noSuchColumn condition.column := by
  rw [← requireColumn_eq_error_iff]
  constructor
  · intro hselect
    rcases Sequence.bind_eq_error_iff.1 hselect with hfault | ⟨_, hok, -⟩
    · exact hfault
    · rw [select_of_hasColumn h (requireColumn_eq_ok_iff.1 hok)] at hselect
      cases hselect
  · exact fun hfault ↦ Sequence.bind_eq_error_iff.2 (.inl hfault)

/-! ### Results -/

namespace WellFormed

variable {result : Table}

/-- A projection of a well-formed table is well-formed. -/
theorem project (h : table.WellFormed) (hproject : table.project targets = .ok result) :
    result.WellFormed := by
  obtain ⟨-, rfl⟩ := (project_eq_ok_iff h).1 hproject
  refine ⟨?_, fun row hrow ↦ ?_⟩
  · show (table.rows.map (Row.pick targets)).size ≤ table.capacity
    rw [Array.size_map]
    exact h.size_le
  · obtain ⟨old, -, rfl⟩ := Array.mem_map.1 hrow
    exact congrArg some (Row.length_pick targets old).symm

/-- So is a selection. -/
theorem select (h : table.WellFormed) (hselect : table.select condition = .ok result) :
    result.WellFormed := by
  obtain ⟨-, rfl⟩ := (select_eq_ok_iff h).1 hselect
  exact ⟨Nat.le_trans Array.size_filter_le h.size_le,
    fun row hrow ↦ h.width_eq row (Array.mem_filter.1 hrow).1⟩

end WellFormed

end Table

end TableShell
