import TableShell.Proofs.AddLine
import TableShell.Proofs.Reload

/-!
# Echoes and rows

Of every row that is added there are two texts: its echo, when it is added, and its line, when the
table is printed. Over any lines that a new shell is given they are the same texts in the same order
(`print_repeats_echoes`), so whoever keeps the echoes knows the table.

Three facts meet here. The row that is echoed is the one that is stored, also if it was cut. No
other line can be taken for an echo, whatever it quotes (`Plain.not_isEcho`). And no row is left
out when the table is printed, since all cells are positive. The invariant is that one line adds to
the texts of the rows what it adds to the echoes (`map_text_rows_answer`).
-/

namespace TableShell

namespace Shell

variable {limits : Limits} {shell : Shell} {σ : Type}

/-! ### What is shown in a session -/

/-- The lines of the replies to turns, in order. -/
def replyLines (shell : Shell) : List Turn → List String
  | [] => []
  | turn :: rest => (turn.reply shell).lines ++ (turn.reply shell).shell.replyLines rest

/-- A display that takes every line takes those of the replies. -/
theorem session_accepting [AcceptingDisplay σ] (shell : Shell) (display : σ) (turns : List Turn) :
    shell.session display turns =
      (shell.after turns, (shell.replyLines turns).foldl AcceptingDisplay.accept display) := by
  induction turns generalizing shell display with
  | nil => rfl
  | cons turn rest ih =>
    rw [session, turn.perform_eq_deliver, Reply.deliver_accepting, replyLines, List.foldl_append,
      after_cons]
    exact ih _ _

/-- A log keeps the lines of the replies. -/
theorem lines_session_lineLog (shell : Shell) (turns : List Turn) :
    (shell.session LineLog.empty turns).2.lines.toList = shell.replyLines turns := by
  have hkept := Display.lines_deliver_empty (shell.replyLines turns)
  rw [Display.deliver_accepting] at hkept
  rw [session_accepting]
  exact hkept

/-! ### Echoes among lines -/

/-- What a line tells of if it is an echo: the text behind the mark. -/
def echoed? (line : String) : Option String :=
  ("Added record: ".toList.isPrefixOf? line.toList).map String.ofList

theorem echoed?_addedMark (text : String) : echoed? (addedMark ++ text) = some text := by
  have hprefix : "Added record: ".toList.isPrefixOf? (addedMark ++ text).toList =
      some text.toList := by
    rw [List.isPrefixOf?_eq_some_iff_append_eq, String.toList_append]
    rfl
  rw [echoed?, hprefix, Option.map_some, String.ofList_toList]

/-- A plain line tells of nothing. -/
theorem Plain.echoed?_eq_none {line : String} (h : Plain line) : echoed? line = none := by
  rw [echoed?, Option.map_eq_none_iff]
  rcases hprefix : "Added record: ".toList.isPrefixOf? line.toList with - | rest
  · rfl
  · exact absurd ⟨rest, List.isPrefixOf?_eq_some_iff_append_eq.1 hprefix⟩ h.not_isEcho

/-- There is no echo among plain lines. -/
theorem filterMap_echoed?_of_plain {lines : List String} (h : ∀ line ∈ lines, Plain line) :
    lines.filterMap echoed? = [] :=
  List.filterMap_eq_nil_iff.2 fun line hline ↦ (h line hline).echoed?_eq_none

/-- The only echo among the lines that tell of an addition is that of the stored row. -/
theorem filterMap_echoed?_additionLines (addition : Table.Addition) :
    (additionLines addition).filterMap echoed? = [addition.row.text] := by
  have hcut : ∀ cut : List String, (∀ line ∈ cut, Plain line) →
      (cut ++ [addedMark ++ addition.row.text]).filterMap echoed? = [addition.row.text] := by
    intro cut hplain
    rw [List.filterMap_append, filterMap_echoed?_of_plain hplain, List.nil_append,
      List.filterMap_cons, echoed?_addedMark]
    rfl
  obtain ⟨table, row, - | width⟩ := addition
  · exact hcut [] nofun
  · refine hcut [(Fault.widthMismatch table.columns width).message] fun line hline ↦ ?_
    rw [List.mem_singleton.1 hline]
    exact .fault _

/-! ### Rows and echoes -/

/-- A line adds the same texts to those of the rows as to those of the echoes. -/
theorem map_text_rows_answer (hsound : Sound limits shell) (line : String) :
    (shell.answer line).shell.table.rows.toList.map Row.text =
      shell.table.rows.toList.map Row.text ++ (shell.answer line).lines.filterMap echoed? := by
  by_cases haccepts : ∃ values, shell.Accepts line values
  · obtain ⟨values, haccepts⟩ := haccepts
    have hanswer : shell.answer line =
        ⟨{ shell with table := (shell.table.grownBy values).table },
          additionLines (shell.table.grownBy values), none⟩ := by
      rw [answer, attempt_of_accepts hsound haccepts, ← acceptance_eq haccepts.fits]
      rfl
    rw [hanswer]
    dsimp only
    rw [filterMap_echoed?_additionLines, Table.grownBy]
    simp
  · obtain ⟨hshell, hplain⟩ :=
      attempt_of_not_accepts hsound fun values h ↦ haccepts ⟨values, h⟩
    have hsame : (shell.answer line).shell = shell := (Reply.shell_report _).trans hshell
    have hechoes : (shell.answer line).lines.filterMap echoed? = [] :=
      filterMap_echoed?_of_plain fun l hl ↦ plain_of_mem_report hplain hl
    rw [hsame, hechoes, List.append_nil]

/-- So do any number of lines. -/
theorem map_text_rows_after (h : Reachable limits shell) (lines : List String) :
    (shell.after (lines.map .answer)).table.rows.toList.map Row.text =
      shell.table.rows.toList.map Row.text ++
        (shell.replyLines (lines.map .answer)).filterMap echoed? := by
  induction lines generalizing shell with
  | nil => simp [replyLines]
  | cons line rest ih =>
    rw [List.map_cons, after_cons, ih (h.tail (transition_reply shell (.answer line))), replyLines,
      List.filterMap_append, ← List.append_assoc]
    exact congrArg (· ++ _) (map_text_rows_answer h.sound line)

/-- A print shows the texts of the rows, or that there are none. -/
theorem Sound.lines_eq (h : Sound limits shell) :
    shell.table.lines = if shell.table.rows.toList.map Row.text = [] then ["Empty data."]
      else shell.table.rows.toList.map Row.text := by
  rw [h.proper.lines_eq, Query.present]
  by_cases hrows : shell.table.rows.toList = []
  · rw [if_pos (.inl hrows), if_pos (List.map_eq_nil_iff.2 hrows)]
  · have hdata := Table.hasData_iff.1 (h.hasData_iff.2 hrows)
    rw [if_neg hdata, if_neg (mt List.map_eq_nil_iff.1 hrows)]

/-- Give a new shell any lines, one after the other, whatever faults they come to, and take from all
that is shown the texts of the echoes. A print then shows exactly these texts, in this order, or the
notice that there is no data if there is none. -/
theorem print_repeats_echoes (limits : Limits) (lines : List String) [AcceptingDisplay σ]
    (display : σ) :
    let turns := lines.map Turn.answer
    let shown := ((start limits).session LineLog.empty turns).2.lines.toList
    let echoes := shown.filterMap echoed?
    let reached := (start limits).session display turns
    reached.2 = shown.foldl AcceptingDisplay.accept display ∧
      reached.1.answerOn reached.2 "?" =
        ⟨reached.1,
          (if echoes = [] then ["Empty data."] else echoes).foldl AcceptingDisplay.accept reached.2,
          none⟩ := by
  intro turns shown echoes reached
  have hshown : shown = (start limits).replyLines turns := lines_session_lineLog _ turns
  have hreached : reached = ((start limits).after turns,
      ((start limits).replyLines turns).foldl AcceptingDisplay.accept display) :=
    session_accepting _ display turns
  have hreachable : Reachable limits ((start limits).after turns) := Reachable.after .refl turns
  have hrows : reached.1.table.rows.toList.map Row.text = echoes := by
    have hafter := map_text_rows_after (.refl : Reachable limits (start limits)) lines
    rw [hreached, ← List.nil_append echoes]
    show _ = [] ++ shown.filterMap echoed?
    rw [hshown]
    exact hafter
  have hsound : Sound limits reached.1 := by
    rw [hreached]
    exact hreachable.sound
  refine ⟨?_, ?_⟩
  · rw [hreached, hshown]
  · rw [answerOn_print, hsound.lines_eq, hrows]

end Shell

end TableShell
