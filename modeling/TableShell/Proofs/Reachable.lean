import Mathlib.Logic.Relation
import TableShell.Proofs.Line
import TableShell.Proofs.Table.WellFormed

/-!
# Shells that can be reached

A shell is reached from its start by lines, each performed on a display of its own, which may treat
what it is shown in any way and refuse any of it. A line may follow whatever the lines before it
came to, also after a fault that would end a run.

`Sound` is what all shells have in common that can be reached: the table is well-formed, keeps
within the limits and holds nothing but cells, and its width is fixed as soon as it has a row and
not before. A line keeps a shell sound because the only change that it can make is to add a row that
has values, that there is room for, and that fits (`Sound.grown`). The same reason keeps the width:
a row that fits a fixed width is stored with that width (`width_eq_of_transition`).
-/

namespace TableShell

namespace Shell

variable {limits : Limits} {shell next later : Shell}

/-! ### Lines one after the other -/

/-- The change of the shell by one line, performed on any display up to its first fault or with
that fault shown. -/
inductive Transition (shell : Shell) : Shell → Prop
  | attempt {σ : Type} [Display σ] (display : σ) (line : String) :
      Transition shell (shell.attemptOn display line).shell
  | answer {σ : Type} [Display σ] (display : σ) (line : String) :
      Transition shell (shell.answerOn display line).shell

/-- A shell that lines lead to from the start. -/
def Reachable (limits : Limits) (shell : Shell) : Prop :=
  Relation.ReflTransGen Transition (start limits) shell

/-- Whatever the display does, the change by a line is the one in its reply. -/
theorem Transition.exists_attempt (h : Transition shell next) :
    ∃ line, next = (shell.attempt line).shell := by
  cases h with
  | attempt display line => exact ⟨line, shell_attemptOn shell display line⟩
  | answer display line =>
    exact ⟨line, (shell_answerOn shell display line).trans (Reply.shell_report _)⟩

/-! ### The invariant -/

/-- What all shells with the given limits have in common that can be reached. -/
structure Sound (limits : Limits) (shell : Shell) : Prop where
  limits_eq : shell.limits = limits
  capacity_eq : shell.table.capacity = limits.rows
  wellFormed : shell.table.WellFormed
  /-- The width is fixed as soon as there is a row, and not before. -/
  isStarted_iff : shell.isStarted ↔ 0 < shell.size
  columns_pos : shell.isStarted → 1 ≤ shell.columns
  columns_le : shell.columns ≤ limits.columns
  cell_bounds : ∀ row ∈ shell.table.rows, ∀ n ∈ row, 1 ≤ n ∧ n ≤ 0x7FFFFFFFFFFFFFFF

namespace Sound

theorem start (limits : Limits) : Sound limits (start limits) where
  limits_eq := rfl
  capacity_eq := rfl
  wellFormed := .empty limits.rows
  isStarted_iff := ⟨fun h ↦ Bool.noConfusion h, fun h ↦ absurd h (Nat.lt_irrefl 0)⟩
  columns_pos := fun h ↦ Bool.noConfusion h
  columns_le := Nat.zero_le _
  cell_bounds := by simp [Shell.start, Table.empty]

/-- The width that a sound shell stores a row with is positive and within the limit. -/
theorem length_stored (h : Sound limits shell) {values : List Int} (hne : values ≠ [])
    (hfits : shell.table.Fits shell.limits.columns values.length) :
    1 ≤ (shell.table.stored values).length ∧
      (shell.table.stored values).length ≤ limits.columns := by
  cases hwidth : shell.table.width with
  | none =>
    rw [Table.Fits, hwidth, h.limits_eq] at hfits
    rw [Table.stored_of_width_none hwidth]
    exact ⟨List.length_pos_iff.2 hne, hfits⟩
  | some width =>
    have hcolumns : shell.columns = width := by
      rw [columns, Table.columns, hwidth, Option.getD_some]
    have hstarted : shell.isStarted := by
      rw [isStarted, hwidth]
      rfl
    rw [Table.length_stored hwidth hfits, ← hcolumns]
    exact ⟨h.columns_pos hstarted, h.columns_le⟩

/-- A row that has values, that there is room for and that fits keeps a shell sound. -/
theorem grown (h : Sound limits shell) {values : List Int} (hne : values ≠ [])
    (hcells : ∀ n ∈ values, 1 ≤ n ∧ n ≤ 0x7FFFFFFFFFFFFFFF)
    (hroom : shell.table.size < shell.table.capacity)
    (hfits : shell.table.Fits shell.limits.columns values.length) :
    Sound limits { shell with table := (shell.table.grownBy values).table } := by
  obtain ⟨hpos, hle⟩ := h.length_stored hne hfits
  -- as a table the grown one is the result of a push, which is known to keep it well-formed
  have hpush : shell.table.push (shell.table.stored values) =
      .ok (shell.table.grownBy values).table :=
    Table.push_eq_ok_iff.2 ⟨hroom, Table.width_getD_length_stored hfits, rfl⟩
  refine ⟨h.limits_eq, h.capacity_eq, h.wellFormed.push hpush, ?_, fun _ ↦ hpos, hle, ?_⟩
  · have hsize : 0 < (shell.table.rows.push (shell.table.stored values)).size := by
      rw [Array.size_push]
      omega
    exact ⟨fun _ ↦ hsize, fun _ ↦ rfl⟩
  · intro row hrow n hn
    rcases Array.mem_push.1 hrow with hrow | rfl
    · exact h.cell_bounds row hrow n hn
    · exact hcells n (List.mem_of_mem_take hn)

/-- A line keeps a shell sound. -/
theorem transition (h : Sound limits shell) (hnext : Transition shell next) :
    Sound limits next := by
  obtain ⟨line, rfl⟩ := hnext.exists_attempt
  rcases shell_attempt_cases shell line with hsame | ⟨values, hne, hcells, hroom, hfits, hgrown⟩
  · rw [hsame]
    exact h
  · rw [hgrown]
    exact h.grown hne hcells hroom hfits

end Sound

/-- A line keeps a width that is fixed. -/
theorem width_eq_of_transition (hstarted : shell.isStarted) (hnext : Transition shell next) :
    next.table.width = shell.table.width := by
  obtain ⟨line, rfl⟩ := hnext.exists_attempt
  rcases shell_attempt_cases shell line with hsame | ⟨values, -, -, -, hfits, hgrown⟩
  · rw [hsame]
  · obtain ⟨width, hwidth⟩ := Option.isSome_iff_exists.1 hstarted
    rw [hgrown, hwidth]
    exact congrArg some (Table.length_stored hwidth hfits)

/-- So do any number of lines. -/
theorem width_eq_of_transitions (hstarted : shell.isStarted)
    (hlater : Relation.ReflTransGen Transition shell later) :
    later.table.width = shell.table.width := by
  induction hlater with
  | refl => rfl
  | tail _ hnext ih =>
    have hstill : Shell.isStarted _ = true := (congrArg Option.isSome ih).trans hstarted
    exact (width_eq_of_transition hstill hnext).trans ih

namespace Reachable

/-- Every shell that can be reached is sound. -/
theorem sound (h : Reachable limits shell) : Sound limits shell := by
  induction h with
  | refl => exact .start limits
  | tail _ hnext ih => exact ih.transition hnext

/-- The table of a shell that can be reached keeps within the limits, has a width exactly if it has
a row, is as wide as each of its rows, and holds nothing but positive 64-bit integers. Once the
width is fixed no later line changes it. -/
theorem within_limits (h : Reachable limits shell) :
    shell.size ≤ limits.rows ∧
    (shell.isStarted ↔ 0 < shell.size) ∧
    (shell.isStarted → 1 ≤ shell.columns ∧ shell.columns ≤ limits.columns ∧
      ∀ row ∈ shell.table.rows, row.length = shell.columns) ∧
    (∀ row ∈ shell.table.rows, ∀ n ∈ row, 1 ≤ n ∧ n ≤ 0x7FFFFFFFFFFFFFFF) ∧
    (shell.isStarted → ∀ later, Relation.ReflTransGen Transition shell later →
      later.table.width = shell.table.width) := by
  have hsound := h.sound
  refine ⟨?_, hsound.isStarted_iff, fun hstarted ↦ ⟨hsound.columns_pos hstarted, hsound.columns_le,
    fun row hrow ↦ hsound.wellFormed.length_eq hrow⟩, hsound.cell_bounds,
    fun hstarted later hlater ↦ width_eq_of_transitions hstarted hlater⟩
  rw [← hsound.capacity_eq]
  exact hsound.wellFormed.size_le

/-- One row whose echo is refused, and a second one that is cut. -/
theorem within_limits_two_lines :
    let limits : Limits := ⟨2, 2, 1, 10⟩
    let first := ((start limits).attemptOn (Rationed.ofRoom 0 "no room") "a7,8").shell
    let shell := (first.answerOn LineLog.empty "a1,2,3").shell
    Reachable limits shell ∧ shell.table.rows = #[[7, 8], [1, 2]] ∧ shell.size ≤ 2 ∧
      (∀ row ∈ shell.table.rows, row.length = shell.columns) ∧
      ∀ later, Relation.ReflTransGen Transition shell later → later.table.width = some 2 := by
  intro limits first shell
  have h : Reachable limits shell :=
    (Relation.ReflTransGen.single (.attempt _ "a7,8")).tail (.answer LineLog.empty "a1,2,3")
  have hwidth : shell.table.width = some 2 := by decide +kernel
  have hstarted : shell.isStarted := congrArg Option.isSome hwidth
  obtain ⟨hsize, -, hstored, -, hrigid⟩ := within_limits h
  refine ⟨h, by decide +kernel, hsize, (hstored hstarted).2.2, fun later hlater ↦ ?_⟩
  rw [← hwidth]
  exact hrigid hstarted later hlater

end Reachable

end Shell

end TableShell
