import TableShell.Pipeline

/-!
# The positions of a line, by number

A stage is told by how many stages came before it. With that number at most the number of pipes
there is a position for it (`next?_of_done_le`). It reads the main table if nothing came before it
(`input_position`), and its result is carried over if there are pipes left (`output_position`).

A line may be asked for its next position any number of times, also after the last one has been
handed out; then there is no answer and nothing changes. So the number of calls says how far the
line has come (`after_start`) and what the next answer is (`answer?_start`), and of two stages in a
row the one carries over what the other reads (`answers_link`).
-/

namespace TableShell

namespace Progress

variable {pipes done : Nat}

theorem isFinished_iff : (⟨pipes, done⟩ : Progress).isFinished ↔ pipes + 1 ≤ done := by
  rw [isFinished, stages, decide_eq_true_iff]

/-- As long as no more stages than there are pipes have been handed out, there is a next one. -/
theorem next?_of_done_le (h : done ≤ pipes) :
    (⟨pipes, done⟩ : Progress).next? =
      some ((⟨pipes, done⟩ : Progress).position, ⟨pipes, done + 1⟩) := by
  have hleft : ¬ (⟨pipes, done⟩ : Progress).isFinished := by
    rw [isFinished_iff]
    omega
  rw [next?, if_neg hleft]

/-- The first stage reads the main table, any other one what was carried over. -/
theorem input_position (h : done ≤ pipes) :
    (⟨pipes, done⟩ : Progress).position.input = if done = 0 then .mainTable else .carried := by
  rw [position]
  dsimp only
  by_cases hdone : done = 0
  · rw [if_pos hdone, if_pos hdone]
    split <;> rfl
  · have hpipes : pipes ≠ 0 := by omega
    rw [if_neg hdone, if_neg hdone, if_neg hpipes]
    split <;> rfl

/-- The last stage shows its result, any other one carries it over. -/
theorem output_position (h : done ≤ pipes) :
    (⟨pipes, done⟩ : Progress).position.output = if done < pipes then .carried else .shown := by
  rw [position]
  dsimp only
  by_cases hdone : done < pipes
  · have hpipes : pipes ≠ 0 := by omega
    rw [if_neg hpipes, if_pos hdone, if_pos hdone]
    split <;> rfl
  · by_cases hpipes : pipes = 0
    · rw [if_pos hpipes, if_neg hdone]
      rfl
    · have hzero : done ≠ 0 := by omega
      rw [if_neg hpipes, if_neg hzero, if_neg hdone, if_neg hdone]
      rfl

theorem input_eq_mainTable_iff (h : done ≤ pipes) :
    (⟨pipes, done⟩ : Progress).position.input = .mainTable ↔ done = 0 := by
  rw [input_position h]
  split <;> simp [*]

theorem output_eq_shown_iff (h : done ≤ pipes) :
    (⟨pipes, done⟩ : Progress).position.output = .shown ↔ done = pipes := by
  rw [output_position h]
  split
  · next hlt => exact iff_of_false nofun (Nat.ne_of_lt hlt)
  · next hge => exact iff_of_true rfl (Nat.le_antisymm h (Nat.not_lt.1 hge))

/-- A stage stands alone exactly if its line has no pipes. -/
theorem position_eq_only_iff : (⟨pipes, done⟩ : Progress).position = .only ↔ pipes = 0 := by
  rw [position]
  dsimp only
  split
  · next hpipes => exact iff_of_true rfl hpipes
  · next hpipes =>
    refine iff_of_false ?_ hpipes
    split
    · exact nofun
    · split <;> exact nofun

/-! ### Asking for positions -/

/-- Asks for the next position. If none is left there is no answer, and nothing changes. -/
def call (progress : Progress) : Option Position × Progress :=
  match progress.next? with
  | some (position, later) => (some position, later)
  | none => (none, progress)

/-- The progress after a number of calls. -/
def after (progress : Progress) : Nat → Progress
  | 0 => progress
  | calls + 1 => (progress.after calls).call.2

/-- The answer to the call that has so many others before it. -/
def answer? (progress : Progress) (before : Nat) : Option Position :=
  (progress.after before).call.1

theorem call_of_done_le (h : done ≤ pipes) :
    (⟨pipes, done⟩ : Progress).call =
      (some (⟨pipes, done⟩ : Progress).position, ⟨pipes, done + 1⟩) := by
  rw [call, next?_of_done_le h]

theorem call_of_lt_done (h : pipes < done) :
    (⟨pipes, done⟩ : Progress).call = (none, ⟨pipes, done⟩) := by
  rw [call, next?, if_pos (isFinished_iff.2 h)]

/-- Each call hands out one stage, until there is none left. -/
theorem after_start (pipes calls : Nat) :
    (start pipes).after calls = ⟨pipes, min calls (pipes + 1)⟩ := by
  induction calls with
  | zero => rw [after, start, Nat.zero_min]
  | succ calls ih =>
    rw [after, ih]
    rcases Nat.lt_or_ge pipes calls with hlate | hleft
    · rw [Nat.min_eq_right hlate, call_of_lt_done (Nat.lt_succ_self pipes),
        Nat.min_eq_right (Nat.le_succ_of_le hlate)]
    · rw [Nat.min_eq_left (Nat.le_succ_of_le hleft), call_of_done_le hleft,
        Nat.min_eq_left (Nat.succ_le_succ hleft)]

/-- The answer is the position that has the number of the call, if the line has so many stages. -/
theorem answer?_start (pipes before : Nat) :
    (start pipes).answer? before =
      if before ≤ pipes then some (⟨pipes, before⟩ : Progress).position else none := by
  rw [answer?, after_start]
  split
  · next hleft => rw [Nat.min_eq_left (Nat.le_succ_of_le hleft), call_of_done_le hleft]
  · next hlate =>
    rw [Nat.min_eq_right (Nat.not_le.1 hlate), call_of_lt_done (Nat.lt_succ_self pipes)]

/-- An answer is of some kind exactly if there is one and that position is of the kind. -/
theorem map_answer?_eq_some_iff {α : Type} {f : Position → α} {a : α} {before : Nat} :
    ((start pipes).answer? before).map f = some a ↔
      before ≤ pipes ∧ f (⟨pipes, before⟩ : Progress).position = a := by
  rw [answer?_start]
  split <;> simp [*]

/-- Ask a line for its positions, any number of times. The first calls, as many as the line has
stages, are answered with a position, and no call after them is; that all stages have been handed
out can be seen from the last answer on. Only the first position reads the main table and only the
last one shows its result, so that whatever one stage carries over is read by the next. The position
of a stage that stands alone is the answer only to the first call for a line without pipes. The
number of stages and the number of those handed out, which are the only sums that are formed, fit
into 64 bits. -/
theorem answers_link {pipes : Nat} (hpipes : pipes ≤ 0xFFFFFFFFFFFFFFFE) :
    (∀ before, ((start pipes).answer? before).isSome ↔ before + 1 ≤ pipes + 1) ∧
    (∀ calls, ((start pipes).after calls).isFinished ↔ pipes + 1 ≤ calls) ∧
    (∀ before, ((start pipes).answer? before).map Position.input = some .mainTable ↔
      before = 0) ∧
    (∀ before, ((start pipes).answer? before).map Position.output = some .shown ↔
      before = pipes) ∧
    (∀ before < pipes,
      ((start pipes).answer? before).map Position.output = some .carried ∧
      ((start pipes).answer? (before + 1)).map Position.input = some .carried) ∧
    (∀ before, (start pipes).answer? before = some .only ↔ pipes = 0 ∧ before = 0) ∧
    ∀ calls, ((start pipes).after calls).stages < 0x10000000000000000 ∧
      ((start pipes).after calls).done < 0x10000000000000000 := by
  refine ⟨fun before ↦ ?_, fun calls ↦ ?_, fun before ↦ ?_, fun before ↦ ?_, fun before h ↦ ?_,
    fun before ↦ ?_, fun calls ↦ ?_⟩
  · rw [answer?_start, Option.isSome_ite, Nat.add_le_add_iff_right]
  · rw [after_start, isFinished_iff]
    omega
  · rw [map_answer?_eq_some_iff, and_congr_right input_eq_mainTable_iff]
    omega
  · rw [map_answer?_eq_some_iff, and_congr_right output_eq_shown_iff]
    omega
  · rw [map_answer?_eq_some_iff, map_answer?_eq_some_iff, output_position (Nat.le_of_lt h),
      input_position h, if_pos h, if_neg (Nat.succ_ne_zero before)]
    exact ⟨⟨Nat.le_of_lt h, rfl⟩, h, rfl⟩
  · rw [answer?_start, Option.ite_none_right_eq_some, Option.some.injEq, position_eq_only_iff]
    omega
  · rw [after_start]
    show pipes + 1 < 0x10000000000000000 ∧ min calls (pipes + 1) < 0x10000000000000000
    omega

/-- As many pipes as there may be. -/
theorem answers_link_most_pipes :
    let line := start 0xFFFFFFFFFFFFFFFE
    line.pipes ≤ 0xFFFFFFFFFFFFFFFE ∧ line.answer? 0 = some .first ∧ line.answer? 1 = some .middle ∧
      (line.answer? line.pipes).map Position.output = some .shown ∧
      line.answer? (line.pipes + 1) = none ∧ (line.after (line.pipes + 1)).isFinished ∧
      (line.after (line.pipes + 1)).stages < 0x10000000000000000 := by
  intro line
  have hlink := @answers_link 0xFFFFFFFFFFFFFFFE (Nat.le_refl _)
  refine ⟨Nat.le_refl _, by decide, by decide, (hlink.2.2.2.1 _).2 rfl, ?_,
    (hlink.2.1 _).2 (Nat.le_refl _), (hlink.2.2.2.2.2.2 _).1⟩
  exact Option.not_isSome_iff_eq_none.1 fun h ↦ Nat.lt_irrefl _ ((hlink.1 _).1 h)

end Progress

end TableShell
