import Mathlib.Data.List.GetD
import TableShell.Proofs.Table.Operation

/-!
# Laws of projection and selection

How the two operations that build tables get on with each other. A selection can be moved to the
front of a projection, if its column is looked up among the columns of the projection
(`Obtainable.select_project_comm`). Two projections in a row come to one, with the columns of the
second looked up among those of the first, and a projection onto all columns in order changes
nothing (`Obtainable.project_identity_composition`).

In each case the rows are a matter of one row at a time (`Row.getD_pick` and what follows from it).
The rest is which columns exist. A projection has the columns that it picks and no others: its table
is asked for places among them, so a column of the table that it was made of may well be none of it.
-/

namespace TableShell

/-! ### Rows -/

namespace Row

variable {columns places : List Nat} {k : Nat}

/-- At a place among the columns that were picked stands the value of the column picked there. -/
theorem getD_pick (row : Row) (hpos : 1 ≤ k) (hle : k ≤ columns.length) :
    (row.pick columns).getD (k - 1) 0 = row.getD (columns[k - 1] - 1) 0 := by
  have hlt : k - 1 < (row.pick columns).length := by
    rw [length_pick]
    omega
  rw [List.getD_eq_getElem _ _ hlt]
  exact List.getElem_map _

/-- To pick places among the columns that were picked is to pick the columns at these places. -/
theorem pick_pick (row : Row) (hplaces : ∀ k ∈ places, 1 ≤ k ∧ k ≤ columns.length) :
    (row.pick columns).pick places = row.pick (places.map fun k ↦ columns.getD (k - 1) 0) := by
  show places.map _ = (places.map _).map _
  rw [List.map_map]
  refine List.map_congr_left fun k hk ↦ ?_
  obtain ⟨hpos, hle⟩ := hplaces k hk
  have hlt : k - 1 < columns.length := by omega
  rw [getD_pick row hpos hle, Function.comp_apply, List.getD_eq_getElem columns 0 hlt]

/-- All columns in order are the row. -/
theorem pick_all (row : Row) : row.pick (List.range' 1 row.length) = row := by
  show (List.range' 1 row.length).map _ = row
  refine List.ext_getElem ?_ fun i _ hi ↦ ?_
  · rw [List.length_map, List.length_range']
  · rw [List.getElem_map, List.getElem_range', Nat.one_mul, Nat.add_sub_cancel_left,
      List.getD_eq_getElem row 0 hi]

end Row

namespace Table

variable {table projected : Table} {columns places : List Nat}

/-- A condition on a place among the columns that were picked is one on the column picked there. -/
theorem meets_pick {k : Nat} (hpos : 1 ≤ k) (hle : k ≤ columns.length) (relation : Relation)
    (value : Int) (row : Row) :
    meets ⟨k, relation, value⟩ (row.pick columns) =
      meets ⟨columns[k - 1], relation, value⟩ row := by
  show relation.holds ((row.pick columns).getD (k - 1) 0) value = _
  rw [Row.getD_pick row hpos hle]
  rfl

/-- So it is the same to pick columns from rows first, or to leave out rows first. -/
theorem filter_map_pick {k : Nat} (hpos : 1 ≤ k) (hle : k ≤ columns.length) (relation : Relation)
    (value : Int) (rows : Array Row) :
    (rows.map (Row.pick columns)).filter (meets ⟨k, relation, value⟩) =
      (rows.filter (meets ⟨columns[k - 1], relation, value⟩)).map (Row.pick columns) := by
  have hmeets : meets ⟨k, relation, value⟩ ∘ Row.pick columns =
      meets ⟨columns[k - 1], relation, value⟩ :=
    funext (meets_pick hpos hle relation value)
  rw [Array.filter_map, hmeets]

/-! ### Well-formed tables -/

namespace WellFormed

/-- A projection onto all columns in order is the table, once there is a width. -/
theorem project_all (h : table.WellFormed) (hwidth : table.width = some table.columns) :
    table.project (List.range' 1 table.columns) = .ok table := by
  have hrows : table.rows.map (Row.pick (List.range' 1 table.columns)) = table.rows := by
    refine (Array.map_congr_left fun row hrow ↦ ?_).trans (Array.map_id table.rows)
    rw [← h.length_eq hrow]
    exact row.pick_all
  refine (project_eq_ok_iff h).2 ⟨fun c hc ↦ ?_, ?_⟩
  · obtain ⟨hpos, hlt⟩ := List.mem_range'_1.1 hc
    exact ⟨hpos, by omega⟩
  · rw [hrows, List.length_range', ← hwidth]

/-- To project a projection, onto places among its columns, is to project onto the columns at these
places. -/
theorem project_project (h : table.WellFormed) (hproject : table.project columns = .ok projected)
    (hplaces : ∀ k ∈ places, 1 ≤ k ∧ k ≤ columns.length) :
    ∃ result, projected.project places = .ok result ∧
      table.project (places.map fun k ↦ columns.getD (k - 1) 0) = .ok result := by
  have hprojected := h.project hproject
  obtain ⟨hcolumns, rfl⟩ := (project_eq_ok_iff h).1 hproject
  refine ⟨_, project_of_hasColumn hprojected hplaces, (project_eq_ok_iff h).2 ⟨fun c hc ↦ ?_, ?_⟩⟩
  · obtain ⟨k, hk, rfl⟩ := List.mem_map.1 hc
    obtain ⟨hpos, hle⟩ := hplaces k hk
    have hlt : k - 1 < columns.length := by omega
    rw [List.getD_eq_getElem columns 0 hlt]
    exact hcolumns _ (List.getElem_mem hlt)
  · have hpick : Row.pick places ∘ Row.pick columns =
        Row.pick (places.map fun k ↦ columns.getD (k - 1) 0) :=
      funext fun row ↦ row.pick_pick hplaces
    rw [Array.map_map, hpick, List.length_map]

end WellFormed

namespace Obtainable

/-! ### Obtainable tables -/

/-- To select from a projection is to select from the table, by the column that was picked at the
place in question, and to project then. Each of these operations goes well, and both ways end in the
same table. -/
theorem select_project_comm (h : table.Obtainable)
    (hproject : table.project columns = .ok projected) {k : Nat} (hpos : 1 ≤ k)
    (hle : k ≤ columns.length) (relation : Relation) (value : Int) :
    ∃ selected result,
      projected.select ⟨k, relation, value⟩ = .ok result ∧
      table.select ⟨columns[k - 1], relation, value⟩ = .ok selected ∧
      selected.project columns = .ok result := by
  have hwf := h.wellFormed
  have hprojected := hwf.project hproject
  obtain ⟨hcolumns, rfl⟩ := (project_eq_ok_iff hwf).1 hproject
  have hcolumn : table.HasColumn columns[k - 1] := hcolumns _ (List.getElem_mem _)
  have hselect : table.select ⟨columns[k - 1], relation, value⟩ = .ok
      { table with rows := table.rows.filter (meets ⟨columns[k - 1], relation, value⟩) } :=
    select_of_hasColumn hwf hcolumn
  refine ⟨_, _, select_of_hasColumn hprojected ⟨hpos, hle⟩, hselect, ?_⟩
  -- a selection leaves the columns of its table as they are
  refine (project_eq_ok_iff (hwf.select hselect)).2 ⟨hcolumns, ?_⟩
  rw [filter_map_pick hpos hle]

/-- Columns of which one is repeated: a selection by the repeated one, and one that leaves no
row. -/
theorem select_project_comm_repeated_column :
    let table := (((Table.empty 3).perform (.push [7, -8])).perform (.push [1, 2])).perform
      (.push [5, 2])
    let projected : Table := ⟨#[[-8, 7, -8], [2, 1, 2], [2, 5, 2]], some 3, 3⟩
    table.Obtainable ∧ table.project [2, 1, 2] = .ok projected ∧
      (∃ selected, projected.select ⟨3, .equal, 2⟩ = .ok ⟨#[[2, 1, 2], [2, 5, 2]], some 3, 3⟩ ∧
        table.select ⟨2, .equal, 2⟩ = .ok selected ∧
        selected.project [2, 1, 2] = .ok ⟨#[[2, 1, 2], [2, 5, 2]], some 3, 3⟩) ∧
      ∃ selected, projected.select ⟨2, .less, 0⟩ = .ok ⟨#[], some 3, 3⟩ ∧
        table.select ⟨1, .less, 0⟩ = .ok selected ∧
        selected.project [2, 1, 2] = .ok ⟨#[], some 3, 3⟩ := by
  intro table projected
  have h : table.Obtainable := (((Obtainable.empty 3).perform _).perform _).perform _
  have hproject : table.project [2, 1, 2] = .ok projected :=
    (project_eq_ok_iff h.wellFormed).2 ⟨by decide, by decide +kernel⟩
  refine ⟨h, hproject, ?_, ?_⟩
  · obtain ⟨selected, result, hresult, hselect, hboth⟩ :=
      select_project_comm (k := 3) h hproject (by decide) (by decide) .equal 2
    obtain rfl : ⟨#[[2, 1, 2], [2, 5, 2]], some 3, 3⟩ = result := Except.ok.inj hresult
    exact ⟨selected, hresult, hselect, hboth⟩
  · obtain ⟨selected, result, hresult, hselect, hboth⟩ :=
      select_project_comm (k := 2) h hproject (by decide) (by decide) .less 0
    obtain rfl : ⟨#[], some 3, 3⟩ = result := Except.ok.inj hresult
    exact ⟨selected, hresult, hselect, hboth⟩

/-- A projection onto all columns in order is the table, once there is a width. A projection of a
projection goes well exactly for places among the columns of the first one, and is then the
projection of the table onto the columns at these places; otherwise it reports the first place that
there is not, though the table may have a column of that number. -/
theorem project_identity_composition (h : table.Obtainable) :
    (table.width.isSome → table.project (List.range' 1 table.columns) = .ok table) ∧
    ∀ columns projected, table.project columns = .ok projected →
      ∀ places : List Nat,
        ((∀ k ∈ places, 1 ≤ k ∧ k ≤ columns.length) →
          ∃ result, projected.project places = .ok result ∧
            table.project (places.map fun k ↦ columns.getD (k - 1) 0) = .ok result) ∧
        ∀ before k after, places = before ++ k :: after →
          (∀ j ∈ before, 1 ≤ j ∧ j ≤ columns.length) → ¬ (1 ≤ k ∧ k ≤ columns.length) →
          projected.project places = .error (.noSuchColumn k) := by
  have hwf := h.wellFormed
  refine ⟨fun hwidth ↦ ?_, fun columns projected hproject places ↦
    ⟨hwf.project_project hproject, fun before k after hplaces hbefore hk ↦ ?_⟩⟩
  · obtain ⟨width, hwidth⟩ := Option.isSome_iff_exists.1 hwidth
    have hcolumns : table.columns = width := by rw [Table.columns, hwidth, Option.getD_some]
    exact hwf.project_all (hcolumns ▸ hwidth)
  · have hprojected := hwf.project hproject
    obtain ⟨-, rfl⟩ := (project_eq_ok_iff hwf).1 hproject
    exact (project_eq_error_iff hprojected).2 ⟨before, k, after, hplaces, hbefore, hk, rfl⟩

/-- A table of three columns, and a projection onto two of them. The third place is a column of the
table, but the projection does not have it. -/
theorem project_identity_composition_missing_place :
    let table := ((Table.empty 2).perform (.push [7, -8, 9])).perform (.push [1, 2, 3])
    table.Obtainable ∧ table.rows = #[[7, -8, 9], [1, 2, 3]] ∧
      table.project [1, 2, 3] = .ok table ∧
      ∃ projected, table.project [3, 1] = .ok projected ∧
        (∃ result, projected.project [2, 1, 2] = .ok result ∧
          table.project [1, 3, 1] = .ok result) ∧
        projected.project [1, 3, 0] = .error (.noSuchColumn 3) := by
  intro table
  have h : table.Obtainable := ((Obtainable.empty 2).perform _).perform _
  obtain ⟨hall, hcomposition⟩ := project_identity_composition h
  obtain ⟨projected, hproject⟩ : ∃ projected, table.project [3, 1] = .ok projected :=
    ⟨_, project_of_hasColumn h.wellFormed (by decide)⟩
  refine ⟨h, by decide, hall (by decide), projected, hproject, ?_, ?_⟩
  · exact (hcomposition _ _ hproject [2, 1, 2]).1 (by decide)
  · exact (hcomposition _ _ hproject [1, 3, 0]).2 [1] 3 [0] rfl (by decide) (by decide)

end Obtainable

end Table

end TableShell
