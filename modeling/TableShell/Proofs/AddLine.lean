import TableShell.Proofs.Reachable
import TableShell.Proofs.Shown

/-!
# Lines that add a row

A line is accepted if it writes a row and the table can take that row (`Shell.Accepts`). What it
takes to write a row is a matter of the line alone, and of all of it: the tokens past the width of
the table have to be positive numerals like the others, and are counted with them.

An accepted line appends one row and shows its echo, after the notice that it was cut, if it was
(`Shell.acceptance`). A line that is not accepted leaves the shell as it is and shows no echo. That
is `Reachable.add_line_exact`; it holds for each of the two ways to perform a line, on every display
that takes every line.
-/

namespace TableShell

namespace Shell

variable {limits : Limits} {shell : Shell} {line : String} {values : List Int}

/-- A line that writes a row of the given values, and a shell whose table can take that row. -/
structure Accepts (shell : Shell) (line : String) (values : List Int) : Prop where
  /-- The line is an `a` and tokens between commas, each of them a numeral of 64 bits. -/
  reads : ∃ argument, line.toList = 'a' :: argument ∧ '|' ∉ argument ∧
    ((argument.splitOn ',').filter (!·.isEmpty)).map Numeral.int64? = values.map some
  ne_nil : values ≠ []
  pos : ∀ n ∈ values, 0 < n
  room : shell.size < shell.limits.rows
  /-- The row is not too wide for an open width, or not too narrow for a fixed one. -/
  fits : match shell.table.width with
    | none => values.length ≤ shell.limits.columns
    | some width => width ≤ values.length

/-- The reply to an accepted line: the row is appended, cut to the width of the table if there is
one, and shown. -/
def acceptance (shell : Shell) (values : List Int) : Reply :=
  match shell.table.width with
  | none =>
    ⟨{ shell with
        table := ⟨shell.table.rows.push values, some values.length, shell.table.capacity⟩ },
      ["Added record: " ++ ", ".intercalate (values.map Numeral.text)], none⟩
  | some width =>
    ⟨{ shell with
        table := ⟨shell.table.rows.push (values.take width), some width, shell.table.capacity⟩ },
      (if width < values.length then
          ["Record truncated from " ++ values.length.repr ++ " to " ++ width.repr ++ " columns."]
        else []) ++
        ["Added record: " ++ ", ".intercalate ((values.take width).map Numeral.text)], none⟩

/-- What is told of the addition of a row that fits is what the acceptance shows. -/
theorem acceptance_eq (hfits : shell.table.Fits shell.limits.columns values.length) :
    (⟨{ shell with table := (shell.table.grownBy values).table },
      additionLines (shell.table.grownBy values), none⟩ : Reply) = shell.acceptance values := by
  cases hwidth : shell.table.width with
  | none =>
    have hstored : shell.table.stored values = values := Table.stored_of_width_none hwidth
    have hcut : (shell.table.grownBy values).cutFrom = none := by
      rw [Table.grownBy, hstored]
      exact if_neg (Nat.lt_irrefl _)
    rw [acceptance, hwidth, additionLines, hcut, Table.grownBy, hstored]
    rfl
  | some width =>
    have hstored : shell.table.stored values = values.take width :=
      Table.stored_of_width_some hwidth
    have hlength : (values.take width).length = width := by
      rw [← hstored]
      exact Table.length_stored hwidth hfits
    rw [acceptance, hwidth, additionLines, Table.grownBy, hstored, hlength]
    dsimp only
    by_cases hcut : width < values.length
    · rw [if_pos hcut, if_pos hcut]
      show Reply.mk _ ([(Fault.widthMismatch width values.length).message] ++ _) _ = _
      rw [Fault.message_of_wide (Nat.le_of_lt hcut)]
      rfl
    · rw [if_neg hcut, if_neg hcut]
      rfl

/-- The reply to an accepted line is its acceptance. -/
theorem attempt_of_accepts (hsound : Sound limits shell) (haccepts : shell.Accepts line values) :
    shell.attempt line = shell.acceptance values := by
  obtain ⟨⟨argument, hline, hpipe, htokens⟩, hne, hpos, hroom, hfits⟩ := haccepts
  have hread : Command.readLine shell.caps line.toList =
      .ok [.add ⟨values.take shell.caps.row, values.length⟩] :=
    Command.readLine_eq_add_iff.2 ⟨argument, values, hline, hpipe, hne,
      Numeral.map_positive?_eq_iff.2 ⟨htokens, hpos⟩, rfl⟩
  have hcapacity : shell.table.size < shell.table.capacity := by
    rw [hsound.capacity_eq, ← hsound.limits_eq]
    exact hroom
  have hadd : shell.table.add ⟨values.take shell.caps.row, values.length⟩ shell.limits.columns =
      .ok (shell.table.grownBy values) :=
    Table.add_taken_eq_ok_iff.2 ⟨hcapacity, hfits, rfl⟩
  rw [attempt_of_add hread, hadd]
  exact acceptance_eq hfits

/-- A line that is not accepted leaves the shell as it is and shows plain lines. -/
theorem attempt_of_not_accepts (hsound : Sound limits shell)
    (hnot : ∀ values, ¬ shell.Accepts line values) :
    (shell.attempt line).shell = shell ∧ ∀ l ∈ (shell.attempt line).lines, Plain l := by
  by_cases h : ∃ fields, Command.readLine shell.caps line.toList = .ok [.add fields]
  · obtain ⟨fields, hread⟩ := h
    have hattempt := attempt_of_add hread
    obtain ⟨argument, values, hline, hpipe, hne, htokens, rfl⟩ :=
      Command.readLine_eq_add_iff.1 hread
    cases hadd : shell.table.add ⟨values.take shell.caps.row, values.length⟩
        shell.limits.columns with
    | error fault =>
      rw [hattempt, hadd]
      exact ⟨rfl, fun l hl ↦ by cases hl⟩
    | ok addition =>
      -- with the row added, the line would have been accepted
      obtain ⟨hroom, hfits, -⟩ := Table.add_taken_eq_ok_iff.1 hadd
      obtain ⟨htokens, hpos⟩ := Numeral.map_positive?_eq_iff.1 htokens
      rw [hsound.capacity_eq, ← hsound.limits_eq] at hroom
      exact absurd ⟨⟨argument, hline, hpipe, htokens⟩, hne, hpos, hroom, hfits⟩ (hnot values)
  · have hread : ∀ fields, Command.readLine shell.caps line.toList ≠ .ok [.add fields] :=
      fun fields hread ↦ h ⟨fields, hread⟩
    exact ⟨shell_attempt_of_not_add hread, fun l hl ↦ plain_of_mem_attempt hread hl⟩

namespace Reachable

/-- An accepted line appends exactly one row, as wide as the table or as it was written if it is the
first, and is answered with exactly its echo, after the notice that the row was cut, if it was. A
line that is not accepted leaves the shell as it is, and no echo is among the lines that it is
answered with. -/
theorem add_line_exact (h : Reachable limits shell) (line : String) :
    (∀ values, shell.Accepts line values → ∀ {σ : Type} [AcceptingDisplay σ] (display : σ),
      let reply := shell.acceptance values
      let outcome : Outcome σ :=
        ⟨reply.shell, reply.lines.foldl AcceptingDisplay.accept display, none⟩
      shell.attemptOn display line = outcome ∧ shell.answerOn display line = outcome) ∧
    ((∀ values, ¬ shell.Accepts line values) →
      ∃ (attempted answered : List String) (fault unanswered : Option Fault),
        (∀ l ∈ attempted, ¬ "Added record: ".toList <+: l.toList) ∧
        (∀ l ∈ answered, ¬ "Added record: ".toList <+: l.toList) ∧
        ∀ {σ : Type} [AcceptingDisplay σ] (display : σ),
          shell.attemptOn display line =
            ⟨shell, attempted.foldl AcceptingDisplay.accept display, fault⟩ ∧
          shell.answerOn display line =
            ⟨shell, answered.foldl AcceptingDisplay.accept display, unanswered⟩) := by
  have hsound := h.sound
  refine ⟨fun values haccepts σ _ display ↦ ?_, fun hnot ↦ ?_⟩
  · have hattempt := attempt_of_accepts hsound haccepts
    have hfault : (shell.acceptance values).fault = none := by
      rw [acceptance]
      split <;> rfl
    have hanswer : shell.answer line = shell.acceptance values := by
      rw [answer, hattempt, Reply.report, hfault]
    dsimp only
    rw [attemptOn_eq_deliver, answerOn_eq_deliver, hattempt, hanswer, Reply.deliver_accepting,
      hfault]
    exact ⟨rfl, rfl⟩
  · obtain ⟨hshell, hplain⟩ := attempt_of_not_accepts hsound hnot
    have hanswered : (shell.answer line).shell = shell :=
      (Reply.shell_report (shell.attempt line)).trans hshell
    refine ⟨(shell.attempt line).lines, (shell.answer line).lines, (shell.attempt line).fault,
      (shell.answer line).fault, fun l hl ↦ (hplain l hl).not_isEcho,
      fun l hl ↦ (plain_of_mem_report hplain hl).not_isEcho, fun display ↦ ?_⟩
    rw [attemptOn_eq_deliver, answerOn_eq_deliver, Reply.deliver_accepting,
      Reply.deliver_accepting, hshell, hanswered]
    exact ⟨rfl, rfl⟩

/-- A row that is cut, and a piped one that is no row. -/
theorem add_line_exact_second_row :
    let limits : Limits := ⟨2, 2, 1, 10⟩
    let shell := ((start limits).answerOn LineLog.empty "a1,2").shell
    Reachable limits shell ∧
      shell.attemptOn LineLog.empty "a,+7,,08,9," =
        ⟨⟨⟨#[[1, 2], [7, 8]], some 2, 2⟩, limits⟩,
          ⟨#["Record truncated from 3 to 2 columns.", "Added record: 7, 8"]⟩, none⟩ ∧
      (shell.answerOn LineLog.empty "a7,8|p1").shell = shell := by
  intro limits shell
  have h : Reachable limits shell := .single (.answer LineLog.empty "a1,2")
  have haccepted := (add_line_exact h "a,+7,,08,9,").1
  refine ⟨h, ?_, ?_⟩
  · have hfits : shell.table.Fits shell.limits.columns 3 := by decide +kernel
    have haccepts : shell.Accepts "a,+7,,08,9," [7, 8, 9] :=
      ⟨⟨",+7,,08,9,".toList, by decide +kernel, by decide +kernel, by decide +kernel⟩,
        by decide, by decide, by decide +kernel, hfits⟩
    have hreply : shell.acceptance [7, 8, 9] = ⟨⟨⟨#[[1, 2], [7, 8]], some 2, 2⟩, limits⟩,
        ["Record truncated from 3 to 2 columns.", "Added record: 7, 8"], none⟩ := by
      decide +kernel
    rw [(haccepted _ haccepts LineLog.empty).1, hreply]
    rfl
  · have hnot : ∀ values, ¬ shell.Accepts "a7,8|p1" values := by
      intro values haccepts
      obtain ⟨argument, hline, hpipe, -⟩ := haccepts.reads
      have hargument : "7,8|p1".toList = argument := (List.cons.inj hline).2
      rw [← hargument] at hpipe
      exact hpipe (by decide +kernel)
    obtain ⟨attempted, answered, fault, unanswered, -, -, hshown⟩ :=
      (add_line_exact h "a7,8|p1").2 hnot
    rw [(hshown LineLog.empty).2]

end Reachable

end Shell

end TableShell
