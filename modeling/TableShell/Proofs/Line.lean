import TableShell.Proofs.Performance
import TableShell.Proofs.Table.Addition

/-!
# What a line does to a shell

A line changes the shell only if it is read as a single row to add and that row finds its place in
the table. `attempt_of_add` is the reply to such a line and `shell_attempt_of_not_add` says that any
other line leaves the shell as it is; together with `exists_values_of_readLine_add` they give
`shell_attempt_cases`, on which everything rests that is said of the shell after a line.
-/

namespace TableShell

namespace Shell

variable {shell : Shell} {line : String}

/-- The reply to a command that stands alone is its step. -/
theorem run_alone (shell : Shell) (command : Command) :
    shell.run (Progress.start 0) none [command] =
      ⟨(shell.step .only none command).shell, (shell.step .only none command).lines,
        match (shell.step .only none command).next with
        | .proceed _ => none
        | .stop fault => fault⟩ := by
  have hnext : (Progress.start 0).next? = some (.only, ⟨0, 1⟩) := rfl
  rw [run, hnext]
  dsimp only
  cases (shell.step .only none command).next with
  | proceed carried =>
    show Reply.after _ ⟨_, [], none⟩ = _
    rw [Reply.after, List.append_nil]
  | stop fault => rfl

/-- The reply to a line that is read as a row to add. -/
theorem attempt_of_add {fields : IntegerList}
    (hread : Command.readLine shell.caps line.toList = .ok [.add fields]) :
    shell.attempt line =
      match shell.table.add fields shell.limits.columns with
      | .ok addition => ⟨{ shell with table := addition.table }, additionLines addition, none⟩
      | .error fault => ⟨shell, [], some fault⟩ := by
  have hpipes : Command.pipesIn line.toList = 0 := Command.pipesIn_of_readLine_alone hread
  rw [attempt, hread, hpipes]
  dsimp only
  rw [run_alone, step, stepAdd]
  cases shell.table.add fields shell.limits.columns <;> rfl

/-- A line that is not read as a row to add leaves the shell as it is. -/
theorem shell_attempt_of_not_add
    (hread : ∀ fields, Command.readLine shell.caps line.toList ≠ .ok [.add fields]) :
    (shell.attempt line).shell = shell := by
  rw [attempt]
  cases h : Command.readLine shell.caps line.toList with
  | error fault => rfl
  | ok commands =>
    rcases Command.readLine_cases h with rfl | ⟨fields, rfl⟩ | rfl | ⟨queries, rfl⟩
    · rfl
    · exact absurd h (hread fields)
    · rfl
    · exact shell_run_of_queries Command.exists_query_of_mem_map shell _ none

/-- A row that is read has values, which are cells, and what is kept of them goes by the caps. -/
theorem exists_values_of_readLine_add {fields : IntegerList}
    (hread : Command.readLine shell.caps line.toList = .ok [.add fields]) :
    ∃ values : List Int, values ≠ [] ∧ (∀ n ∈ values, 1 ≤ n ∧ n ≤ 0x7FFFFFFFFFFFFFFF) ∧
      fields = ⟨values.take shell.caps.row, values.length⟩ := by
  obtain ⟨argument, values, -, -, hne, htokens, rfl⟩ := Command.readLine_eq_add_iff.1 hread
  refine ⟨values, hne, fun n hn ↦ ?_, rfl⟩
  have hmem : some n ∈ (Token.split (· == ',') argument).map Numeral.positive? :=
    htokens ▸ List.mem_map_of_mem hn
  obtain ⟨token, -, htoken⟩ := List.mem_map.1 hmem
  exact Numeral.positive?_bounds htoken

/-- After a line the shell is what it was, or a row has been added that there was room for and that
fitted. -/
theorem shell_attempt_cases (shell : Shell) (line : String) :
    (shell.attempt line).shell = shell ∨
      ∃ values : List Int, values ≠ [] ∧ (∀ n ∈ values, 1 ≤ n ∧ n ≤ 0x7FFFFFFFFFFFFFFF) ∧
        shell.table.size < shell.table.capacity ∧
        shell.table.Fits shell.limits.columns values.length ∧
        (shell.attempt line).shell =
          { shell with table := (shell.table.grownBy values).table } := by
  by_cases h : ∃ fields, Command.readLine shell.caps line.toList = .ok [.add fields]
  · obtain ⟨fields, hread⟩ := h
    obtain ⟨values, hne, hcells, rfl⟩ := exists_values_of_readLine_add hread
    have hattempt := attempt_of_add hread
    cases hadd : shell.table.add ⟨values.take shell.caps.row, values.length⟩
        shell.limits.columns with
    | error fault =>
      rw [hadd] at hattempt
      exact .inl (congrArg Reply.shell hattempt)
    | ok addition =>
      obtain ⟨hroom, hfits, rfl⟩ := Table.add_taken_eq_ok_iff.1 hadd
      rw [hadd] at hattempt
      exact .inr ⟨values, hne, hcells, hroom, hfits, congrArg Reply.shell hattempt⟩
  · exact .inl (shell_attempt_of_not_add fun fields hread ↦ h ⟨fields, hread⟩)

end Shell

end TableShell
