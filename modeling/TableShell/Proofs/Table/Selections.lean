import TableShell.Proofs.Table.Operation

/-!
# Several selections

Selections of one table against each other. One after the other they keep the rows that meet all of
their conditions (`foldlM_select`), so neither the order of the conditions matters nor how often one
of them is repeated (`meetsAll_congr`).

Side by side, the three relations to one value divide a table. A cell stands in exactly one of them
to the value (`Relation.holds_iff`), so each row goes to exactly one of the three selections
(`Obtainable.relations_divide`). Rows are told apart by their place there, since a table may hold
the same row more than once.
-/

namespace TableShell

namespace Relation

/-- The relation in which a cell stands to a value. -/
def between (cell value : Int) : Relation :=
  if cell < value then less else if value < cell then greater else equal

/-- It is the only one that holds. -/
theorem holds_iff {relation : Relation} {cell value : Int} :
    relation.holds cell value = true ↔ relation = between cell value := by
  rw [between]
  rcases Int.lt_trichotomy cell value with hlt | rfl | hgt
  · rw [if_pos hlt]
    rcases relation <;> simp [holds] <;> omega
  · rw [if_neg (Int.lt_irrefl cell), if_neg (Int.lt_irrefl cell)]
    rcases relation <;> simp [holds]
  · rw [if_neg (Int.lt_asymm hgt), if_pos hgt]
    rcases relation <;> simp [holds] <;> omega

end Relation

namespace Table

variable {table : Table} {conditions first second : List Condition} {row : Row} {column : Nat}
  {value : Int}

/-! ### One after the other -/

/-- Whether a row meets each of several conditions. -/
def meetsAll (conditions : List Condition) (row : Row) : Bool :=
  conditions.all (meets · row)

/-- That depends only on which conditions there are. -/
theorem meetsAll_congr (h : ∀ condition, condition ∈ first ↔ condition ∈ second) :
    meetsAll first = meetsAll second := by
  funext row
  rw [meetsAll, meetsAll, Bool.eq_iff_iff, List.all_eq_true, List.all_eq_true]
  exact forall_congr' fun condition ↦ imp_congr_left (h condition)

/-- Selections one after the other, all by columns that exist, keep the rows that meet each of the
conditions. -/
theorem foldlM_select (h : table.WellFormed)
    (hcolumns : ∀ condition ∈ conditions, table.HasColumn condition.column) :
    conditions.foldlM select table =
      .ok { table with rows := table.rows.filter (meetsAll conditions) } := by
  induction conditions generalizing table with
  | nil =>
    have hall : table.rows.filter (meetsAll []) = table.rows :=
      Array.filter_eq_self.2 fun _ _ ↦ rfl
    rw [hall]
    rfl
  | cons condition rest ih =>
    obtain ⟨hcolumn, hrest⟩ := List.forall_mem_cons.1 hcolumns
    have hselect := select_of_hasColumn h hcolumn
    have hboth : (fun row ↦ meetsAll rest row && meets condition row) =
        meetsAll (condition :: rest) :=
      funext fun row ↦ Bool.and_comm _ _
    rw [List.foldlM_cons, hselect]
    -- the columns of the result are those of the table
    refine (ih (h.select hselect) hrest).trans ?_
    dsimp only
    rw [Array.filter_filter, hboth]

/-! ### Side by side -/

/-- Of the conditions that differ in the relation alone, a row meets exactly one. -/
theorem meets_eq (column : Nat) (relation : Relation) (value : Int) (row : Row) :
    meets ⟨column, relation, value⟩ row =
      decide (relation = .between (row.getD (column - 1) 0) value) := by
  rw [Bool.eq_iff_iff, decide_eq_true_iff]
  exact Relation.holds_iff

/-- The rows that are less, those that are equal and those that are greater are all rows. -/
theorem perm_of_relations (column : Nat) (value : Int) (rows : List Row) :
    (rows.filter (meets ⟨column, .less, value⟩) ++
      (rows.filter (meets ⟨column, .equal, value⟩) ++
        rows.filter (meets ⟨column, .greater, value⟩))).Perm rows := by
  have hequal : (rows.filter (!meets ⟨column, .less, value⟩ ·)).filter
      (meets ⟨column, .equal, value⟩) = rows.filter (meets ⟨column, .equal, value⟩) := by
    rw [List.filter_filter]
    refine List.filter_congr fun row _ ↦ ?_
    rw [meets_eq, meets_eq]
    rcases Relation.between _ value <;> rfl
  have hgreater : (rows.filter (!meets ⟨column, .less, value⟩ ·)).filter
      (!meets ⟨column, .equal, value⟩ ·) = rows.filter (meets ⟨column, .greater, value⟩) := by
    rw [List.filter_filter]
    refine List.filter_congr fun row _ ↦ ?_
    rw [meets_eq, meets_eq, meets_eq]
    rcases Relation.between _ value <;> rfl
  -- first those that are less and all others, and then the others once more
  rw [← hequal, ← hgreater]
  have hothers := List.filter_append_perm (meets ⟨column, .equal, value⟩)
    (rows.filter (!meets ⟨column, .less, value⟩ ·))
  have hless := List.filter_append_perm (meets ⟨column, .less, value⟩) rows
  exact (hothers.append_left _).trans hless

/-- The places of the rows that a test picks out, in order. -/
def places (test : Row → Bool) (rows : Array Row) : List Nat :=
  (List.range rows.size).filter fun i ↦ rows[i]?.any test

theorem pairwise_places (test : Row → Bool) (rows : Array Row) :
    (places test rows).Pairwise (· < ·) :=
  List.pairwise_lt_range.filter _

theorem mem_places_iff {test : Row → Bool} {rows : Array Row} {i : Nat} :
    i ∈ places test rows ↔ ∃ row, rows[i]? = some row ∧ test row := by
  rw [places, List.mem_filter, List.mem_range, Option.any_eq_true]
  refine ⟨And.right, fun h ↦ ⟨?_, h⟩⟩
  obtain ⟨row, hrow, -⟩ := h
  exact (Array.getElem?_eq_some_iff.1 hrow).1

/-- At these places are the rows that the test picks out. -/
theorem map_places (test : Row → Bool) (rows : Array Row) :
    (places test rows).map (rows[·]?) = (rows.filter test).toList.map some := by
  have hrows : (List.range rows.size).map (rows[·]?) = rows.toList.map some := by
    refine List.ext_getElem (by simp) fun i hi hi' ↦ ?_
    simp at hi'
    simp [hi']
  have htest : (Option.any test) ∘ some = test := rfl
  rw [Array.toList_filter, ← htest, ← List.filter_map, ← hrows, List.filter_map]
  rfl

/-- Only conditions with the relation in which the row stands to the value are met. -/
theorem filter_meets_meets {relation other : Relation} (hne : relation ≠ other) (column : Nat)
    (value : Int) (rows : Array Row) :
    (rows.filter (meets ⟨column, relation, value⟩)).filter (meets ⟨column, other, value⟩) =
      #[] := by
  rw [Array.filter_filter, Array.filter_eq_empty_iff]
  intro row _ h
  rw [Bool.and_eq_true, meets_eq, meets_eq, decide_eq_true_iff, decide_eq_true_iff] at h
  exact hne (h.2.trans h.1.symm)

namespace Obtainable

/-- The selections by the three relations of a column to a value divide the table. Each of them
goes well, and keeps the rows at certain places, in the order of the places. Every place of the
table is one of exactly one of the three selections. So their sizes come to that of the table, each
row is in the three as often as in the table, and a selection from one of them by one of the other
relations leaves no row. -/
theorem relations_divide (h : table.Obtainable) (hpos : 1 ≤ column) (hle : column ≤ table.columns)
    (value : Int) :
    ∃ (part : Relation → Table) (placesOf : Relation → List Nat),
      (∀ relation, table.select ⟨column, relation, value⟩ = .ok (part relation) ∧
        (placesOf relation).Pairwise (· < ·) ∧
        (placesOf relation).map (table.rows[·]?) = (part relation).rows.toList.map some) ∧
      (∀ i, i < table.size ↔ ∃ relation, i ∈ placesOf relation) ∧
      (∀ i relation other, i ∈ placesOf relation → i ∈ placesOf other → relation = other) ∧
      (part .less).size + (part .equal).size + (part .greater).size = table.size ∧
      (∀ row, (part .less).rows.count row + (part .equal).rows.count row +
        (part .greater).rows.count row = table.rows.count row) ∧
      ∀ relation other, relation ≠ other →
        (part relation).select ⟨column, other, value⟩ =
          .ok ⟨#[], table.width, table.capacity⟩ := by
  have hwf := h.wellFormed
  have hselect : ∀ relation, table.select ⟨column, relation, value⟩ =
      .ok { table with rows := table.rows.filter (meets ⟨column, relation, value⟩) } :=
    fun relation ↦ select_of_hasColumn hwf ⟨hpos, hle⟩
  have hperm := perm_of_relations column value table.rows.toList
  refine ⟨fun relation ↦ { table with rows := table.rows.filter (meets ⟨column, relation, value⟩) },
    fun relation ↦ places (meets ⟨column, relation, value⟩) table.rows,
    fun relation ↦ ⟨hselect relation, pairwise_places _ _, map_places _ _⟩, fun i ↦ ?_,
    fun i relation other hi hother ↦ ?_, ?_, fun row ↦ ?_, fun relation other hne ↦ ?_⟩
  · simp only [mem_places_iff]
    constructor
    · intro hi
      exact ⟨_, _, Array.getElem?_eq_getElem hi, by rw [meets_eq]; exact decide_eq_true rfl⟩
    · rintro ⟨relation, row, hrow, -⟩
      exact (Array.getElem?_eq_some_iff.1 hrow).1
  · obtain ⟨row, hrow, hmeets⟩ := mem_places_iff.1 hi
    obtain ⟨row', hrow', hmeets'⟩ := mem_places_iff.1 hother
    obtain rfl : row = row' := Option.some.inj (hrow.symm.trans hrow')
    rw [meets_eq, decide_eq_true_iff] at hmeets hmeets'
    exact hmeets.trans hmeets'.symm
  · have hlength := hperm.length_eq
    simp only [List.length_append, ← Array.toList_filter, Array.length_toList] at hlength
    rw [← Nat.add_assoc] at hlength
    exact hlength
  · have hcount := hperm.count_eq row
    simp only [List.count_append, ← Array.toList_filter, Array.count_toList] at hcount
    rw [← Nat.add_assoc] at hcount
    exact hcount
  · have hcolumn : HasColumn _ (⟨column, other, value⟩ : Condition).column := ⟨hpos, hle⟩
    rw [select_of_hasColumn (hwf.select (hselect relation)) hcolumn]
    dsimp only
    rw [filter_meets_meets hne]

/-- A table with a row that it holds twice, and with the least and the greatest cell. -/
theorem relations_divide_repeated_row :
    let table := ((((Table.empty 4).perform (.push [5, 1])).perform
      (.push [-0x8000000000000000, 2])).perform (.push [5, 1])).perform
        (.push [0x7FFFFFFFFFFFFFFF, 3])
    table.Obtainable ∧ table.columns = 2 ∧
      ∃ (part : Relation → Table) (placesOf : Relation → List Nat),
        (part .equal).rows = #[[5, 1], [5, 1]] ∧
        (placesOf .equal).map (table.rows[·]?) = [some [5, 1], some [5, 1]] ∧
        (part .less).size + (part .equal).size + (part .greater).size = 4 ∧
        (part .equal).select ⟨1, .greater, 5⟩ = .ok ⟨#[], some 2, 4⟩ := by
  intro table
  have h : table.Obtainable := ((((Obtainable.empty 4).perform _).perform _).perform _).perform _
  obtain ⟨part, placesOf, hparts, -, -, hsize, -, hothers⟩ :=
    relations_divide h (by decide : 1 ≤ 1) (by decide) 5
  obtain ⟨hselect, -, hplaces⟩ := hparts .equal
  have hrows : (part .equal).rows = #[[5, 1], [5, 1]] := by
    obtain ⟨-, hpart⟩ := (select_eq_ok_iff h.wellFormed).1 hselect
    rw [hpart]
    decide +kernel
  refine ⟨h, rfl, part, placesOf, hrows, ?_, hsize, hothers .equal .greater (by decide)⟩
  rw [hplaces, hrows]
  rfl

end Obtainable

end Table

end TableShell
