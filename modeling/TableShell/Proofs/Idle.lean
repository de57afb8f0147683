import TableShell.Proofs.Session

/-!
# Lines that add nothing

A line that adds no row leaves the shell exactly as it is (`Shell.shell_answer_of_size_le`): nothing
of the line is kept, whether it was a query, could not be read or was refused. So it makes no
difference to other lines whether it was there. Lines that add nothing can be struck from a session,
and between two additions they can be put in another order or repeated, without a change to what is
shown for any other line, to its fault, or to the table at the end (`idle_lines_leave_no_trace`).

What is shown for a line is what the display takes for it, lines and faults apart, and is read off a
display that keeps a record (`Recorded`). That depends on the shell and on the line alone
(`Shell.account`), so sessions on different displays can be compared.
-/

namespace TableShell

/-- The members of a list without those whose places are struck, counted from zero. -/
def strike {α : Type} (struck : Nat → Bool) : List α → List α
  | [] => []
  | x :: rest =>
    let others := strike (fun n ↦ struck (n + 1)) rest
    if struck 0 then others else x :: others

/-! ### Records -/

/-- A display together with a record of what it has taken. -/
structure Recorded (σ : Type) where
  display : σ
  /-- What the display has taken, in order. -/
  taken : List Remark

namespace Recorded

variable {σ : Type} [Display σ]

instance : Display (Recorded σ) where
  put recorded line := (Display.put recorded.display line).map fun next ↦
    ⟨next, recorded.taken ++ [.line line]⟩
  putFault recorded fault := (Display.putFault recorded.display fault).map fun next ↦
    ⟨next, recorded.taken ++ [.fault fault]⟩

/-- A remark is put on record if the display takes it. -/
theorem take_eq (display : σ) (taken : List Remark) (remark : Remark) :
    Display.take (⟨display, taken⟩ : Recorded σ) remark =
      (Display.take display remark).map fun next ↦ ⟨next, taken ++ [remark]⟩ := by
  rcases remark with text | fault <;> rfl

/-- If nothing is refused everything is put on record, and the display is as it would be without a
record. -/
theorem takeAll_eq [WillingDisplay σ] (display : σ) (taken remarks : List Remark) :
    Display.takeAll (⟨display, taken⟩ : Recorded σ) remarks =
      (⟨(Display.takeAll display remarks).1, taken ++ remarks⟩, none) := by
  induction remarks generalizing display taken with
  | nil => rw [List.append_nil, Display.takeAll, Display.takeAll]
  | cons remark rest ih =>
    obtain ⟨next, hnext⟩ := Display.exists_take display remark
    rw [Display.takeAll, take_eq, hnext, Display.takeAll, hnext]
    show Display.takeAll (⟨next, taken ++ [remark]⟩ : Recorded σ) rest = _
    rw [ih, List.append_assoc]
    rfl

end Recorded

/-! ### Accounts of lines -/

/-- What is seen of a line: what the display takes for it, and the fault that it ends with. -/
structure Account where
  taken : List Remark
  fault : Option Fault
deriving DecidableEq, Repr, Inhabited

namespace Shell

section Accounts

variable {σ : Type} [Display σ]

/-- The accounts of lines that are answered one after the other on one display. -/
def accounts (shell : Shell) (display : σ) : List String → List Account
  | [] => []
  | line :: rest =>
    let outcome := shell.answerOn (⟨display, []⟩ : Recorded σ) line
    ⟨outcome.display.taken, outcome.fault⟩ ::
      outcome.shell.accounts outcome.display.display rest

/-- The account of a line, read off a log. -/
def account (shell : Shell) (line : String) : Account :=
  let outcome := shell.answerOn (⟨LineLog.empty, []⟩ : Recorded LineLog) line
  ⟨outcome.display.taken, outcome.fault⟩

/-- The accounts of lines, each in the shell that the line before it has left. -/
def history (shell : Shell) : List String → List Account
  | [] => []
  | line :: rest => shell.account line :: (shell.answer line).shell.history rest

/-- On every display that refuses nothing, a line has the same account. A record makes no difference
to the shell or to the display. -/
theorem answerOn_recorded [WillingDisplay σ] (shell : Shell) (display : σ) (line : String) :
    shell.answerOn (⟨display, []⟩ : Recorded σ) line =
      ⟨(shell.answer line).shell,
        ⟨(shell.answerOn display line).display, (shell.account line).taken⟩,
        (shell.account line).fault⟩ := by
  obtain ⟨remarks, -, htells⟩ := Performance.run_answer line shell
  have hrecorded : ∀ {τ : Type} [Display τ] [WillingDisplay τ] (other : τ),
      shell.answerOn (⟨other, []⟩ : Recorded τ) line =
        ⟨(shell.answer line).shell, ⟨(Display.takeAll other remarks).1, remarks⟩,
          (shell.answer line).fault⟩ := by
    intro τ _ _ other
    have houtcome : shell.answerOn (⟨other, []⟩ : Recorded τ) line = _ :=
      Performance.outcome_of_told (htells _)
    rw [houtcome, Recorded.takeAll_eq, Performance.faultOf_endingOfLine]
    rfl
  have hplain : shell.answerOn display line = _ := Performance.outcome_of_told (htells display)
  rw [account, hrecorded LineLog.empty, hrecorded display, hplain]

/-- So the accounts of lines are their history, whatever the display is. -/
theorem accounts_eq_history [WillingDisplay σ] (shell : Shell) (display : σ)
    (lines : List String) : shell.accounts display lines = shell.history lines := by
  induction lines generalizing shell display with
  | nil => rfl
  | cons line rest ih =>
    rw [accounts, answerOn_recorded]
    exact congrArg _ (ih _ _)

end Accounts

variable {shell : Shell}

theorem length_history (shell : Shell) (lines : List String) :
    (shell.history lines).length = lines.length := by
  induction lines generalizing shell with
  | nil => rfl
  | cons line rest ih => exact congrArg (· + 1) (ih _)

theorem history_append (shell : Shell) (lines more : List String) :
    shell.history (lines ++ more) =
      shell.history lines ++ (shell.after (lines.map .answer)).history more := by
  induction lines generalizing shell with
  | nil => rfl
  | cons line rest ih => exact congrArg _ (ih _)

/-! ### Idle lines -/

/-- A line never takes a row away, and if it adds none the shell stays as it is. -/
theorem size_lt_or_shell_answer_eq (shell : Shell) (line : String) :
    shell.size < (shell.answer line).shell.size ∨ (shell.answer line).shell = shell := by
  rw [answer, Reply.shell_report]
  rcases shell_attempt_cases shell line with hsame | ⟨values, -, -, -, -, hgrown⟩
  · exact .inr hsame
  · rw [hgrown]
    refine .inl ?_
    show shell.table.rows.size < (shell.table.rows.push _).size
    rw [Array.size_push]
    exact Nat.lt_succ_self _

theorem shell_answer_of_size_le {line : String}
    (h : (shell.answer line).shell.size ≤ shell.size) : (shell.answer line).shell = shell :=
  (size_lt_or_shell_answer_eq shell line).resolve_left (Nat.not_lt.2 h)

theorem size_le_size_answer (shell : Shell) (line : String) :
    shell.size ≤ (shell.answer line).shell.size := by
  rcases size_lt_or_shell_answer_eq shell line with hlt | hsame
  · exact Nat.le_of_lt hlt
  · exact Nat.le_of_eq (congrArg size hsame.symm)

theorem size_le_size_after (shell : Shell) (lines : List String) :
    shell.size ≤ (shell.after (lines.map .answer)).size := by
  induction lines generalizing shell with
  | nil => exact Nat.le_refl _
  | cons line rest ih => exact Nat.le_trans (shell.size_le_size_answer line) (ih _)

/-- If lines add nothing taken together, each of them leaves the shell as it is. -/
theorem forall_shell_answer_eq {lines : List String}
    (h : (shell.after (lines.map .answer)).size ≤ shell.size) :
    ∀ line ∈ lines, (shell.answer line).shell = shell := by
  induction lines with
  | nil => exact nofun
  | cons line rest ih =>
    have hline : (shell.answer line).shell = shell :=
      shell_answer_of_size_le (Nat.le_trans (size_le_size_after _ rest) h)
    rw [List.map_cons, after_cons, Turn.reply, hline] at h
    exact List.forall_mem_cons.2 ⟨hline, ih h⟩

/-- Such lines have accounts that depend on nothing but the line, in any order and number. -/
theorem history_of_idle {lines : List String}
    (h : ∀ line ∈ lines, (shell.answer line).shell = shell) :
    shell.history lines = lines.map shell.account ∧ shell.after (lines.map .answer) = shell := by
  induction lines with
  | nil => exact ⟨rfl, rfl⟩
  | cons line rest ih =>
    obtain ⟨hline, hrest⟩ := List.forall_mem_cons.1 h
    obtain ⟨hhistory, hafter⟩ := ih hrest
    rw [history, List.map_cons, List.map_cons, after_cons, Turn.reply, hline, hhistory, hafter]
    exact ⟨rfl, rfl⟩

/-- If the lines that are struck add nothing, the others have the accounts that they had, and the
shell at the end is the same. -/
theorem history_strike {lines : List String} {struck : Nat → Bool}
    (hidle : ∀ n < lines.length, struck n →
      (shell.after ((lines.take (n + 1)).map .answer)).size ≤
        (shell.after ((lines.take n).map .answer)).size) :
    shell.history (strike struck lines) = strike struck (shell.history lines) ∧
      shell.after ((strike struck lines).map .answer) = shell.after (lines.map .answer) := by
  induction lines generalizing shell struck with
  | nil => exact ⟨rfl, rfl⟩
  | cons line rest ih =>
    -- the lines behind the first one, in the shell that it leaves
    have hlater : ∀ next, (shell.answer line).shell = next →
        next.history (strike (fun n ↦ struck (n + 1)) rest) =
            strike (fun n ↦ struck (n + 1)) (next.history rest) ∧
          next.after ((strike (fun n ↦ struck (n + 1)) rest).map .answer) =
            next.after (rest.map .answer) := by
      rintro next rfl
      exact ih fun n hn hstruck ↦ hidle (n + 1) (Nat.succ_lt_succ hn) hstruck
    by_cases hfirst : struck 0 = true
    · have hsame := shell_answer_of_size_le (hidle 0 (Nat.succ_pos _) hfirst)
      obtain ⟨hhistory, hafter⟩ := hlater shell hsame
      rw [strike, if_pos hfirst, history, strike, if_pos hfirst, List.map_cons, after_cons,
        Turn.reply, hsame]
      exact ⟨hhistory, hafter⟩
    · obtain ⟨hhistory, hafter⟩ := hlater _ rfl
      rw [strike, if_neg hfirst, history, history, strike, if_neg hfirst, hhistory]
      exact ⟨rfl, hafter⟩

/-- Strike from any session lines that add no row. Whatever the displays are, as long as they refuse
nothing, each of the other lines has the output and the fault that it had, and the table at the end
is the same. And in the place of lines that add no row between them, let the same lines stand in any
order, any of them repeated or left out. Each of them is seen as it was, and so are all lines before
and after them. -/
theorem idle_lines_leave_no_trace (limits : Limits) {σ τ : Type} [Display σ] [WillingDisplay σ]
    [Display τ] [WillingDisplay τ] (display : σ) (other : τ) :
    (∀ (lines : List String) (struck : Nat → Bool),
      (∀ n < lines.length, struck n →
        ((start limits).session display ((lines.take (n + 1)).map .answer)).1.size ≤
          ((start limits).session display ((lines.take n).map .answer)).1.size) →
      (start limits).accounts other (strike struck lines) =
          strike struck ((start limits).accounts display lines) ∧
        ((start limits).session other ((strike struck lines).map .answer)).1.table =
          ((start limits).session display (lines.map .answer)).1.table) ∧
    ∀ before block rest : List String,
      ((start limits).session display ((before ++ block).map .answer)).1.size ≤
        ((start limits).session display (before.map .answer)).1.size →
      ∃ (head tail : List Account) (seen : String → Account),
        head.length = before.length ∧ tail.length = rest.length ∧
        (start limits).accounts display (before ++ block ++ rest) =
          head ++ block.map seen ++ tail ∧
        ∀ block' ⊆ block,
          (start limits).accounts other (before ++ block' ++ rest) =
              head ++ block'.map seen ++ tail ∧
            ((start limits).session other ((before ++ block' ++ rest).map .answer)).1.table =
              ((start limits).session display ((before ++ block ++ rest).map .answer)).1.table := by
  simp only [fst_session, accounts_eq_history]
  refine ⟨fun lines struck hidle ↦ ?_, fun before block rest hblock ↦ ?_⟩
  · obtain ⟨hhistory, hafter⟩ := history_strike hidle
    exact ⟨hhistory, by rw [hafter]⟩
  · rw [List.map_append, after_append] at hblock
    have hidle := forall_shell_answer_eq hblock
    generalize hshell : (start limits).after (before.map .answer) = shell at hidle
    have hsame : ∀ block' ⊆ block,
        (start limits).history (before ++ block' ++ rest) =
            (start limits).history before ++ block'.map shell.account ++ shell.history rest ∧
          (start limits).after ((before ++ block' ++ rest).map .answer) =
            shell.after (rest.map .answer) := by
      intro block' hsubset
      obtain ⟨hhistory, hafter⟩ := history_of_idle fun line hline ↦ hidle line (hsubset hline)
      simp only [history_append, List.map_append, after_append, hshell, hhistory, hafter]
      exact ⟨trivial, trivial⟩
    obtain ⟨hwhole, hend⟩ := hsame block (List.Subset.refl block)
    refine ⟨_, _, shell.account, length_history _ before, length_history shell rest, hwhole,
      fun block' hsubset ↦ ?_⟩
    obtain ⟨hhistory, hafter⟩ := hsame block' hsubset
    exact ⟨hhistory, by rw [hafter, hend]⟩

/-- A line of each kind that adds nothing: prints, a row that ends the run, one that is too narrow,
one for which there is no room, a line that cannot be read, and a pipeline that fails in its second
stage. -/
theorem idle_lines_leave_no_trace_each_kind :
    let limits : Limits := ⟨2, 2, 1, 10⟩
    let lines := ["?", "a1,2,3", "a7,8", "x", "a1", "p1|s9<1", "a4,5,6", "a1,2", "?"]
    let struck : Nat → Bool := fun n ↦ n ∈ [0, 1, 3, 4, 5, 7]
    let log := LineLog.empty
    (∀ n < lines.length, struck n →
      ((start limits).session log ((lines.take (n + 1)).map .answer)).1.size ≤
        ((start limits).session log ((lines.take n).map .answer)).1.size) ∧
    (start limits).accounts log ["a7,8", "a4,5,6", "?"] =
      strike struck ((start limits).accounts log lines) ∧
    ((start limits).session log ((["a7,8"] ++ ["?"]).map .answer)).1.size ≤
      ((start limits).session log (["a7,8"].map .answer)).1.size ∧
    ((start limits).session log ((["a7,8"] ++ ["?", "?"] ++ ["a4,5"]).map .answer)).1.table =
      ((start limits).session log ((["a7,8"] ++ ["?"] ++ ["a4,5"]).map .answer)).1.table := by
  intro limits lines struck log
  obtain ⟨hstrike, hblock⟩ := idle_lines_leave_no_trace limits log log
  have hidle : ∀ n < lines.length, struck n →
      ((start limits).session log ((lines.take (n + 1)).map .answer)).1.size ≤
        ((start limits).session log ((lines.take n).map .answer)).1.size := by
    decide +kernel
  have hadds : ((start limits).session log ((["a7,8"] ++ ["?"]).map .answer)).1.size ≤
      ((start limits).session log (["a7,8"].map .answer)).1.size := by
    decide +kernel
  obtain ⟨head, tail, seen, -, -, -, hothers⟩ := hblock ["a7,8"] ["?"] ["a4,5"] hadds
  exact ⟨hidle, (hstrike lines struck hidle).1, hadds, (hothers ["?", "?"] (by simp)).2⟩

end Shell

end TableShell
