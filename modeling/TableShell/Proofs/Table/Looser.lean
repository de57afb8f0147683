import Mathlib.Data.List.Basic
import TableShell.Proofs.Caps
import TableShell.Proofs.Table.Addition
import TableShell.Proofs.Table.WellFormed

/-!
# Tables that differ in their room

A table is looser than another if it has the same rows and the same width, and at least the
capacity. What is done to both comes out the same way and leaves the one looser than the other,
unless it is refused for want of room (`Looser.add_taken`) or says that it was cut
(`Query.Counterpart.apply`). A query cannot want for room, because its result has no more rows than
the table that it reads.
-/

namespace TableShell

/-- Whether a fault comes from a limit. -/
def Fault.isLimit : Fault → Bool
  | .noRoom _ | .projectionCut .. | .tooManyColumns .. => true
  | _ => false

open Sequence

namespace Table

variable {table loose : Table}

/-- A well-formed table, and one with the same rows and width and at least the capacity. -/
structure Looser (table loose : Table) : Prop where
  wellFormed : table.WellFormed
  rows_eq : loose.rows = table.rows
  width_eq : loose.width = table.width
  capacity_le : table.capacity ≤ loose.capacity

namespace Looser

theorem columns_eq (h : table.Looser loose) : loose.columns = table.columns :=
  congrArg (Option.getD · 0) h.width_eq

theorem wellFormed_loose (h : table.Looser loose) : loose.WellFormed := by
  refine ⟨?_, fun row hrow ↦ ?_⟩
  · rw [size, h.rows_eq]
    exact Nat.le_trans h.wellFormed.size_le h.capacity_le
  · rw [h.rows_eq] at hrow
    rw [h.width_eq]
    exact h.wellFormed.width_eq row hrow

theorem hasData_eq (h : table.Looser loose) : loose.hasData = table.hasData := by
  rw [hasData, isEmpty, h.rows_eq, h.columns_eq]
  rfl

/-- A looser table is shown in the same lines. -/
theorem lines_eq (h : table.Looser loose) : loose.lines = table.lines := by
  rw [lines, h.hasData_eq, h.rows_eq]
  rfl

theorem hasColumn_iff (h : table.Looser loose) {c : Nat} : loose.HasColumn c ↔ table.HasColumn c := by
  rw [HasColumn, HasColumn, h.columns_eq]

/-! ### Queries -/

/-- A projection that fails also fails if it has further columns. -/
theorem project_append (h : table.Looser loose) {columns : List Nat} {fault : Fault}
    (hfault : table.project columns = .error fault) (more : List Nat) :
    loose.project (columns ++ more) = .error fault := by
  obtain ⟨before, c, after, rfl, hbefore, hc, rfl⟩ := (project_eq_error_iff h.wellFormed).1 hfault
  refine (project_eq_error_iff h.wellFormed_loose).2 ⟨before, c, after ++ more, ?_,
    fun b hb ↦ h.hasColumn_iff.2 (hbefore b hb), mt h.hasColumn_iff.1 hc, rfl⟩
  rw [List.append_assoc, List.cons_append]

theorem project_matched (h : table.Looser loose) (columns : List Nat) :
    Matched Looser (table.project columns) (loose.project columns) := by
  cases hproject : table.project columns with
  | error fault =>
    have hloose := h.project_append hproject []
    rw [List.append_nil] at hloose
    rw [hloose]
    exact .error fault
  | ok result =>
    obtain ⟨hcolumns, rfl⟩ := (project_eq_ok_iff h.wellFormed).1 hproject
    rw [project_of_hasColumn h.wellFormed_loose fun c hc ↦ h.hasColumn_iff.2 (hcolumns c hc),
      h.rows_eq]
    exact .ok ⟨h.wellFormed.project hproject, rfl, rfl, h.capacity_le⟩

theorem select_matched (h : table.Looser loose) (condition : Condition) :
    Matched Looser (table.select condition) (loose.select condition) := by
  cases hselect : table.select condition with
  | error fault =>
    obtain ⟨hcolumn, rfl⟩ := (select_eq_error_iff h.wellFormed).1 hselect
    rw [(select_eq_error_iff h.wellFormed_loose).2 ⟨mt h.hasColumn_iff.1 hcolumn, rfl⟩]
    exact .error _
  | ok result =>
    obtain ⟨hcolumn, rfl⟩ := (select_eq_ok_iff h.wellFormed).1 hselect
    rw [select_of_hasColumn h.wellFormed_loose (h.hasColumn_iff.2 hcolumn), h.rows_eq]
    exact .ok ⟨h.wellFormed.select hselect, rfl, h.width_eq, h.capacity_le⟩

/-! ### Additions -/

/-- What is stored of a row goes by the width alone. -/
theorem stored_eq (h : table.Looser loose) (values : List Int) :
    loose.stored values = table.stored values := by
  rw [stored, stored, h.width_eq]

/-- A row that fits a table fits a looser one, also under a looser limit. -/
theorem fits (h : table.Looser loose) {limit limit' total : Nat} (hlimit : limit ≤ limit')
    (hfits : table.Fits limit total) : loose.Fits limit' total := by
  rw [Fits, h.width_eq]
  rw [Fits] at hfits
  cases hwidth : table.width with
  | none =>
    rw [hwidth] at hfits
    exact Nat.le_trans hfits hlimit
  | some width =>
    rw [hwidth] at hfits
    exact hfits

/-- A row that was read is added to a looser table in the same way, unless there is no room for it,
or it would fix the width and is too wide. -/
theorem add_taken (h : table.Looser loose) {limit limit' : Nat} (hlimit : limit ≤ limit')
    (values : List Int) :
    Matched
      (fun addition addition' : Addition ↦ addition.table.Looser addition'.table ∧
        addition'.row = addition.row ∧ addition'.cutFrom = addition.cutFrom)
      (table.add ⟨values.take (table.width.getD limit), values.length⟩ limit)
      (loose.add ⟨values.take (loose.width.getD limit'), values.length⟩ limit') ∨
    ∃ fault : Fault, fault.isLimit ∧
      table.add ⟨values.take (table.width.getD limit), values.length⟩ limit = .error fault := by
  rw [add_taken_eq, add_taken_eq]
  by_cases hfits : table.Fits limit values.length
  · rw [if_pos hfits, if_pos (h.fits hlimit hfits)]
    by_cases hroom : table.size < table.capacity
    · have hsize : loose.size = table.size := congrArg Array.size h.rows_eq
      have hcapacity := h.capacity_le
      rw [if_pos hroom, if_pos (by omega)]
      have hgrown : (table.grownBy values).table.WellFormed :=
        h.wellFormed.push (push_eq_ok_iff.2 ⟨hroom, width_getD_length_stored hfits, rfl⟩)
      refine .inl (.ok ⟨⟨hgrown, ?_, ?_, hcapacity⟩, h.stored_eq values, ?_⟩)
      · rw [grownBy, grownBy, h.stored_eq, h.rows_eq]
      · rw [grownBy, grownBy, h.stored_eq]
      · rw [grownBy, grownBy, h.stored_eq]
    · rw [if_neg hroom]
      exact .inr ⟨_, rfl, rfl⟩
  · rw [if_neg hfits]
    cases hwidth : table.width with
    | none => exact .inr ⟨_, rfl, rfl⟩
    | some width =>
      -- a row that is too narrow for a fixed width is so under any limit
      have hnarrow : ¬ loose.Fits limit' values.length := by
        rw [Fits, h.width_eq, hwidth]
        rw [Fits, hwidth] at hfits
        exact hfits
      rw [if_neg hnarrow, h.width_eq, hwidth]
      exact .inl (.error _)

end Looser

end Table

/-- A query on a looser table, read with a looser cap, comes to the same with the same notices,
unless it goes well and says that it was cut. -/
theorem Query.Counterpart.apply {cap cap' : Nat} {q q' : Query} {table loose : Table}
    (hq : q.Counterpart cap cap' q') (hcap : cap ≤ cap') (h : table.Looser loose) :
    Matched (fun result result' ↦ result.Looser result' ∧ q'.notices = q.notices) (q.apply table)
        (q'.apply loose) ∨
      ∃ result, q.apply table = .ok result ∧ ∃ fault ∈ q.notices, fault.isLimit := by
  cases hq with
  | select condition => exact .inl ((h.select_matched condition).mono fun _ _ h ↦ ⟨h, rfl⟩)
  | project targets =>
    by_cases hall : targets.length ≤ cap
    · rw [List.take_of_length_le hall, List.take_of_length_le (Nat.le_trans hall hcap)]
      exact .inl ((h.project_matched _).mono fun _ _ h ↦ ⟨h, rfl⟩)
    · -- of the columns kept with the looser cap those kept with the other are the first
      obtain ⟨more, hmore⟩ : (targets.take cap).map Int.toNat <+: (targets.take cap').map Int.toNat :=
        (List.take_prefix_take_left hcap).map _
      rw [← hmore]
      cases hproject : table.project ((targets.take cap).map Int.toNat) with
      | error fault =>
        left
        rw [Query.apply, Query.apply, hproject, h.project_append hproject]
        exact .error fault
      | ok result =>
        have hcut : ((targets.take cap).map Int.toNat).length < targets.length := by
          rw [List.length_map, List.length_take]
          omega
        have hnotices : Query.notices
            (.project ((targets.take cap).map Int.toNat) targets.length) =
              [.projectionCut targets.length ((targets.take cap).map Int.toNat).length] :=
          if_pos hcut
        refine .inr ⟨result, hproject, ?_⟩
        rw [hnotices]
        exact ⟨_, List.mem_singleton_self _, rfl⟩

end TableShell
