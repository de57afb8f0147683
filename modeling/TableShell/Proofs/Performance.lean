import TableShell.Performance
import TableShell.Proofs.Reading

/-!
# Performing a line is delivering its reply

A performance changes the shell and shows lines in turns; a reply is computed first and delivered
afterwards. The two differ where a line is refused: what would still have changed after that point
is changed by the reply, but not by the performance. They agree on every line that can be typed,
because only the first command of a line can change the shell (`shell_run_of_queries`), and this it
does before anything is shown. That the later commands are queries is what the reader of lines sees
to (`Command.exists_query_of_readLine`).

What a display is handed are remarks, which are lines or faults. A line comes to the same remarks
and the same ending on every display that does not refuse them (`run_attempt`, `run_answer`), and
they read as the lines of its reply.

Main statements: `Shell.shell_attemptOn` and `Shell.shell_answerOn`, that no display has a say in
what becomes of the shell, and `Shell.attemptOn_eq_deliver` and `Shell.answerOn_eq_deliver` for the
displays on which a fault is the line of its message. With them every question about a performance
is one about a reply and about what a display makes of lines.
-/

namespace TableShell

/-! ### Remarks -/

/-- What a display is handed: a line, or a fault. -/
inductive Remark where
  | line (text : String)
  | fault (fault : Fault)
deriving DecidableEq, Repr, Inhabited

/-- How a remark reads where a fault is the line of its message. -/
def Remark.text : Remark → String
  | .line text => text
  | .fault cause => cause.message

namespace Remark

theorem map_text_line (lines : List String) : (lines.map line).map text = lines := by
  rw [List.map_map]
  exact List.map_id lines

theorem map_text_fault (faults : List Fault) :
    (faults.map fault).map text = faults.map Fault.message := by
  rw [List.map_map]
  rfl

end Remark

namespace Display

variable {σ : Type}

/-- Takes a remark, or refuses it for a reason. -/
def take [Display σ] (display : σ) : Remark → Except String σ
  | .line text => put display text
  | .fault fault => putFault display fault

/-- Hands over remarks in order until one is refused, and tells the reason of the refusal. -/
def takeAll [Display σ] (display : σ) : List Remark → σ × Option String
  | [] => (display, none)
  | remark :: rest =>
    match take display remark with
    | .ok display => takeAll display rest
    | .error reason => (display, some reason)

/-- Remarks are handed over in order: the later ones only if no earlier one is refused. -/
theorem takeAll_append [Display σ] (display : σ) (remarks more : List Remark) :
    takeAll display (remarks ++ more) =
      match takeAll display remarks with
      | (display, none) => takeAll display more
      | (display, some reason) => (display, some reason) := by
  induction remarks generalizing display with
  | nil => rfl
  | cons remark rest ih =>
    rw [List.cons_append, takeAll, takeAll]
    cases take display remark with
    | ok display => exact ih display
    | error reason => rfl

/-- Where a fault is the line of its message, to hand over remarks is to deliver how they read. -/
theorem takeAll_eq_deliver [PlainDisplay σ] (display : σ) (remarks : List Remark) :
    takeAll display remarks = deliver display (remarks.map Remark.text) := by
  induction remarks generalizing display with
  | nil => rfl
  | cons remark rest ih =>
    have htake : take display remark = put display remark.text := by
      cases remark with
      | line text => rfl
      | fault fault => exact PlainDisplay.putFault_eq_put display fault
    rw [takeAll, List.map_cons, deliver, htake]
    cases put display remark.text with
    | ok display => exact ih display
    | error reason => rfl

end Display

namespace Shell

/-- A query leaves the shell as it is. -/
theorem shell_stepQuery (shell : Shell) (position : Position) (carried : Option Table)
    (query : Query) : (shell.stepQuery position carried query).shell = shell := by
  unfold stepQuery
  cases shell.source? position carried with
  | none => rfl
  | some source =>
    dsimp only
    split
    · rfl
    · cases query.apply source with
      | error fault => rfl
      | ok result => cases position.output <;> rfl

/-- So do any number of queries. -/
theorem shell_run_of_queries {commands : List Command}
    (hqueries : ∀ c ∈ commands, ∃ query, c = .query query) (shell : Shell) (progress : Progress)
    (carried : Option Table) : (shell.run progress carried commands).shell = shell := by
  induction commands generalizing progress carried with
  | nil => rfl
  | cons c rest ih =>
    obtain ⟨⟨query, rfl⟩, hrest⟩ := List.forall_mem_cons.1 hqueries
    rw [run]
    cases progress.next? with
    | none => rfl
    | some handed =>
      obtain ⟨position, progress⟩ := handed
      have hstep : (shell.step position carried (.query query)).shell = shell :=
        shell_stepQuery shell position carried query
      dsimp only
      cases (shell.step position carried (.query query)).next with
      | stop fault => exact hstep
      | proceed carried =>
        dsimp only
        rw [hstep]
        exact ih hrest progress carried

end Shell

namespace Reply

/-- Showing the fault of a reply does not touch its shell. -/
theorem shell_report (reply : Reply) : reply.report.shell = reply.shell := by
  obtain ⟨shell, lines, fault⟩ := reply
  cases fault with
  | none => rfl
  | some fault =>
    rw [Reply.report]
    dsimp only
    split <;> rfl

end Reply

namespace Position

/-- The lines in which the result of a query is shown at a position. -/
def shown (position : Position) (result : Table) : List String :=
  match position.output with
  | .carried => []
  | .shown => result.lines

/-- What is handed on of it to the next stage. -/
def handedOn (position : Position) (result : Table) : Option Table :=
  match position.output with
  | .carried => some result
  | .shown => none

end Position

namespace Performance

variable {σ α β : Type}

/-! ### One act after another -/

/-- A fault that is caught is handed on. -/
theorem run_tryCatch (x : Performance σ α) (handler : Fault → Performance σ α) (s : Shell × σ) :
    (tryCatch x handler).run.run s =
      match x.run.run s with
      | (.ok a, s) => (.ok a, s)
      | (.error fault, s) => (handler fault).run.run s := by
  rw [ExceptT.run_tryCatch, StateT.run_bind]
  rcases x.run.run s with ⟨_ | a, s⟩ <;> rfl

/-- To read the shell is to go on with it. -/
theorem run_shell_bind (f : Shell → Performance σ α) (s : Shell) (display : σ) :
    (shell >>= f).run.run (s, display) = (f s).run.run (s, display) :=
  rfl

/-- Something that is refused is a fault of its own. -/
theorem run_offer (take : σ → Except String σ) (shell : Shell) (display : σ) :
    (offer take).run.run (shell, display) =
      match take display with
      | .ok display => (.ok (), shell, display)
      | .error reason => (.error (.io reason), shell, display) := by
  rw [offer, Sequence.run_bind]
  show StateT.run (ExceptT.run (match take display with
    | .ok display => set (shell, display)
    | .error reason => throw (.io reason) : Performance σ Unit)) (shell, display) = _
  cases take display <;> rfl

/-! ### Remarks first, ending after -/

variable [Display σ]

/-- What comes of remarks that are made before an ending: that ending, unless one is refused. -/
def told (shell : Shell) (remarks : List Remark) (ending : Except Fault α) (display : σ) :
    Except Fault α × Shell × σ :=
  match Display.takeAll display remarks with
  | (display, none) => (ending, shell, display)
  | (display, some reason) => (.error (.io reason), shell, display)

theorem told_nil (shell : Shell) (ending : Except Fault α) (display : σ) :
    told shell [] ending display = (ending, shell, display) :=
  rfl

theorem told_append (shell : Shell) (remarks more : List Remark) (ending : Except Fault α)
    (display : σ) :
    told shell (remarks ++ more) ending display =
      match Display.takeAll display remarks with
      | (display, none) => told shell more ending display
      | (display, some reason) => (.error (.io reason), shell, display) := by
  rw [told, Display.takeAll_append]
  rcases Display.takeAll display remarks with ⟨display, _ | reason⟩ <;> rfl

/-- A performance that changes the shell and then makes remarks before an ending, whatever the
display is. -/
def Tells (x : ∀ {σ : Type} [Display σ], Performance σ α) (shell changed : Shell)
    (remarks : List Remark) (ending : Except Fault α) : Prop :=
  ∀ {σ : Type} [Display σ] (display : σ),
    x.run.run (shell, display) = told changed remarks ending display

section Acts

variable {x : Performance σ α} {f : α → Performance σ β} {shell changed : Shell}
  {remarks more : List Remark} {a : α} {b : β} {ending : Except Fault β} {fault : Fault}
  {display : σ}

/-- Acts that only make remarks after the shell has changed, one after the other. -/
theorem run_bind_told (hx : x.run.run (shell, display) = told changed remarks (.ok a) display)
    (hf : ∀ display, (f a).run.run (changed, display) = told changed more ending display) :
    (x >>= f).run.run (shell, display) = told changed (remarks ++ more) ending display := by
  rw [Sequence.run_bind, hx, told_append, told]
  rcases Display.takeAll display remarks with ⟨display, _ | reason⟩
  · exact hf display
  · rfl

/-- Acts that only make remarks, and the value returned after them. -/
theorem run_return_told (hx : x.run.run (shell, display) = told changed remarks (.ok a) display)
    (hf : f a = pure b) :
    (x >>= f).run.run (shell, display) = told changed remarks (.ok b) display := by
  have h : (x >>= f).run.run (shell, display) = told changed (remarks ++ []) (.ok b) display :=
    run_bind_told hx fun display ↦ by
      rw [hf, told_nil]
      rfl
  rwa [List.append_nil] at h

/-- An act that fails is the end. -/
theorem run_bind_told_error
    (hx : x.run.run (shell, display) = told changed remarks (.error fault) display) :
    (x >>= f).run.run (shell, display) = told changed remarks (.error fault) display := by
  rw [Sequence.run_bind, hx, told, told]
  rcases Display.takeAll display remarks with ⟨display, _ | reason⟩ <;> rfl

end Acts

theorem run_emit (line : String) (shell : Shell) (display : σ) :
    (emit line).run.run (shell, display) = told shell [.line line] (.ok ()) display := by
  rw [emit, run_offer, told, Display.takeAll, Display.take]
  cases Display.put display line <;> rfl

theorem run_warn (fault : Fault) (shell : Shell) (display : σ) :
    (warn fault).run.run (shell, display) = told shell [.fault fault] (.ok ()) display := by
  rw [warn, run_offer, told, Display.takeAll, Display.take]
  cases Display.putFault display fault <;> rfl

/-- To make a remark about each member of a list is to make these remarks. -/
theorem run_forM_told {act : α → Performance σ Unit} {remark : α → Remark}
    (hact : ∀ a shell display,
      (act a).run.run (shell, display) = told shell [remark a] (.ok ()) display)
    (xs : List α) (shell : Shell) (display : σ) :
    (xs.forM act).run.run (shell, display) = told shell (xs.map remark) (.ok ()) display := by
  induction xs generalizing display with
  | nil => rfl
  | cons a rest ih => exact run_bind_told (hact a shell display) ih

theorem run_render (table : Table) (shell : Shell) (display : σ) :
    (render table).run.run (shell, display) =
      told shell (table.lines.map .line) (.ok ()) display :=
  run_forM_told run_emit table.lines shell display

/-! ### Commands -/

/-- How a command ends by itself, if the display refuses nothing. -/
def endingOf : Continuation → Except Fault Continuation
  | .stop (some fault) => .error fault
  | next => .ok next

/-- The remarks that tell of an addition: that the row was cut, if it was, and the row itself. -/
def additionRemarks (addition : Table.Addition) : List Remark :=
  let cut := match addition.cutFrom with
    | some width => [.fault (.widthMismatch addition.table.columns width)]
    | none => []
  cut ++ [.line (Shell.addedMark ++ addition.row.text)]

theorem map_text_additionRemarks (addition : Table.Addition) :
    (additionRemarks addition).map Remark.text = Shell.additionLines addition := by
  rw [additionRemarks, Shell.additionLines]
  cases addition.cutFrom <;> rfl

theorem run_tell (addition : Table.Addition) (shell : Shell) (display : σ) :
    (tell addition).run.run (shell, display) =
      told shell (additionRemarks addition) (.ok ()) display := by
  rw [tell, additionRemarks]
  cases addition.cutFrom with
  | none => exact run_emit _ shell display
  | some width => exact run_bind_told (run_warn _ shell display) (run_emit _ shell)

/-- A row is in the table before anything is told of it. -/
theorem run_add (fields : IntegerList) (shell : Shell) (display : σ) :
    (add fields).run.run (shell, display) =
      match shell.table.add fields shell.limits.columns with
      | .ok addition =>
        told { shell with table := addition.table } (additionRemarks addition) (.ok ()) display
      | .error fault => (.error fault, shell, display) := by
  rw [add, run_shell_bind]
  cases shell.table.add fields shell.limits.columns with
  | error fault => rfl
  | ok addition => exact run_tell addition { shell with table := addition.table } display

section Queries

variable {shell : Shell} {position : Position} {carried : Option Table} {source result : Table}
  {q : Query} {fault : Fault}

/-- A query without a table to read is a fault. -/
theorem tells_query_of_no_source (hsource : shell.source? position carried = none) :
    Tells (query position carried q) shell shell [] (.error .missingInput) := by
  intro σ _ display
  show (query position carried q).run.run (shell, display) = _
  rw [query, run_shell_bind, hsource]
  rfl

/-- A query that reads a main table without data shows that table. -/
theorem tells_query_of_empty (hsource : shell.source? position carried = some source)
    (hempty : position.input = .mainTable ∧ (!source.hasData) = true) :
    Tells (query position carried q) shell shell (source.lines.map .line) (.ok (.stop none)) := by
  intro σ _ display
  show (query position carried q).run.run (shell, display) = _
  rw [query, run_shell_bind, hsource]
  dsimp only
  rw [if_pos hempty]
  exact run_return_told (run_render source shell display) rfl

/-- Any other query is carried out on the table that it reads, and may fail. -/
theorem tells_query_of_error (hsource : shell.source? position carried = some source)
    (hdata : ¬ (position.input = .mainTable ∧ (!source.hasData) = true))
    (hfault : q.apply source = .error fault) :
    Tells (query position carried q) shell shell [] (.error fault) := by
  intro σ _ display
  show (query position carried q).run.run (shell, display) = _
  rw [query, run_shell_bind, hsource]
  dsimp only
  rw [if_neg hdata, hfault]
  rfl

/-- If it goes well, there are its notices, and its result is shown or handed on. -/
theorem tells_query_of_ok (hsource : shell.source? position carried = some source)
    (hdata : ¬ (position.input = .mainTable ∧ (!source.hasData) = true))
    (hresult : q.apply source = .ok result) :
    Tells (query position carried q) shell shell
      (q.notices.map .fault ++ (position.shown result).map .line)
      (.ok (.proceed (position.handedOn result))) := by
  intro σ _ display
  have hnotices : ∀ display : σ, (q.notices.forM warn).run.run (shell, display) =
      told shell (q.notices.map .fault) (.ok ()) display :=
    run_forM_told run_warn q.notices shell
  show (query position carried q).run.run (shell, display) = _
  rw [query, run_shell_bind, hsource]
  dsimp only
  rw [if_neg hdata, hresult, Position.shown, Position.handedOn]
  show StateT.run (ExceptT.run (q.notices.forM warn >>= fun _ ↦ _)) (shell, display) = _
  cases position.output with
  | carried => exact run_bind_told (hnotices display) fun _ ↦ rfl
  | shown =>
    exact run_bind_told (hnotices display) fun display ↦
      run_return_told (run_render result shell display) rfl

end Queries

/-- Carrying out a query is making remarks that read as the lines of its step. -/
theorem run_query (position : Position) (carried : Option Table) (q : Query) (shell : Shell) :
    ∃ remarks : List Remark,
      remarks.map Remark.text = (shell.stepQuery position carried q).lines ∧
      Tells (query position carried q) shell shell remarks
        (endingOf (shell.stepQuery position carried q).next) := by
  rw [Shell.stepQuery]
  cases hsource : shell.source? position carried with
  | none => exact ⟨[], rfl, tells_query_of_no_source hsource⟩
  | some source =>
    dsimp only
    by_cases hempty : position.input = .mainTable ∧ (!source.hasData) = true
    · rw [if_pos hempty]
      exact ⟨_, Remark.map_text_line source.lines, tells_query_of_empty hsource hempty⟩
    · rw [if_neg hempty]
      cases hresult : q.apply source with
      | error fault => exact ⟨[], rfl, tells_query_of_error hsource hempty hresult⟩
      | ok result =>
        have htells : Tells (query position carried q) shell shell _ _ :=
          tells_query_of_ok hsource hempty hresult
        refine ⟨q.notices.map .fault ++ (position.shown result).map .line, ?_, ?_⟩
        · rw [List.map_append, Remark.map_text_fault, Remark.map_text_line, Position.shown]
          cases position.output with
          | carried => exact List.append_nil _
          | shown => rfl
        · rw [Position.handedOn] at htells
          cases hposition : position.output with
          | carried => rwa [hposition] at htells
          | shown => rwa [hposition] at htells

section Alone

variable {shell : Shell} {position : Position} {carried : Option Table} {fields : IntegerList}

/-- A row that can be added is added and told of. -/
theorem tells_add_of_ok {addition : Table.Addition}
    (hadd : shell.table.add fields shell.limits.columns = .ok addition) :
    Tells (command position carried (.add fields)) shell { shell with table := addition.table }
      (additionRemarks addition) (.ok (.proceed carried)) := by
  intro σ _ display
  have hrun := run_add fields shell display
  rw [hadd] at hrun
  exact run_return_told hrun rfl

/-- A row that cannot be added is a fault. -/
theorem tells_add_of_error {fault : Fault}
    (hadd : shell.table.add fields shell.limits.columns = .error fault) :
    Tells (command position carried (.add fields)) shell shell [] (.error fault) := by
  intro σ _ display
  have hrun := run_add fields shell display
  rw [hadd] at hrun
  exact run_bind_told_error hrun

/-- A print shows the main table. -/
theorem tells_print :
    Tells (command position carried .print) shell shell (shell.table.lines.map .line)
      (.ok (.proceed carried)) := by
  intro σ _ display
  show StateT.run (ExceptT.run (Performance.shell >>= _)) (shell, display) = _
  rw [run_shell_bind]
  exact run_return_told (run_render shell.table shell display) rfl

end Alone

/-- Carrying out a command is making remarks that read as the lines of its step, in the shell after
it. -/
theorem run_command (position : Position) (carried : Option Table) (c : Command) (shell : Shell) :
    ∃ remarks : List Remark, remarks.map Remark.text = (shell.step position carried c).lines ∧
      Tells (command position carried c) shell (shell.step position carried c).shell remarks
        (endingOf (shell.step position carried c).next) := by
  cases c with
  | add fields =>
    rw [Shell.step, Shell.stepAdd]
    cases hadd : shell.table.add fields shell.limits.columns with
    | error fault => exact ⟨[], rfl, tells_add_of_error hadd⟩
    | ok addition => exact ⟨_, map_text_additionRemarks addition, tells_add_of_ok hadd⟩
  | print => exact ⟨_, Remark.map_text_line shell.table.lines, tells_print⟩
  | query q =>
    obtain ⟨remarks, htext, hrun⟩ := run_query position carried q shell
    rw [Shell.step, Shell.shell_stepQuery]
    exact ⟨remarks, htext, hrun⟩

/-! ### Lines -/

/-- How a line ends by itself, if the display refuses nothing. -/
def endingOfLine (reply : Reply) : Except Fault Unit :=
  match reply.fault with
  | some fault => .error fault
  | none => .ok ()

/-- Commands of which none but the first can change the shell are carried out as their reply
says. -/
theorem run_commands {cs : List Command} (hqueries : ∀ c ∈ cs.tail, ∃ q, c = .query q)
    (progress : Progress) (carried : Option Table) (shell : Shell) :
    ∃ remarks : List Remark,
      remarks.map Remark.text = (shell.run progress carried cs).lines ∧
      Tells (commands progress carried cs) shell (shell.run progress carried cs).shell remarks
        (endingOfLine (shell.run progress carried cs)) := by
  induction cs generalizing progress carried shell with
  | nil => exact ⟨[], rfl, fun _ ↦ rfl⟩
  | cons c rest ih =>
    unfold commands
    rw [Shell.run]
    cases progress.next? with
    | none => exact ⟨[], rfl, fun _ ↦ rfl⟩
    | some handed =>
      obtain ⟨position, progress⟩ := handed
      have hrest : ∀ c ∈ rest.tail, ∃ q, c = .query q := fun c hc ↦
        hqueries c (List.mem_of_mem_tail hc)
      obtain ⟨remarks, htext, hstep⟩ := run_command position carried c shell
      dsimp only
      generalize shell.step position carried c = step at htext hstep ⊢
      obtain ⟨changed, lines, next⟩ := step
      cases next with
      | proceed carried =>
        -- what follows is carried out in the changed shell and leaves that as it is
        have hsame : (changed.run progress carried rest).shell = changed :=
          Shell.shell_run_of_queries hqueries changed progress carried
        obtain ⟨more, hmore, hrun⟩ := ih hrest progress carried changed
        rw [hsame] at hrun
        refine ⟨remarks ++ more, ?_, fun display ↦ ?_⟩
        · rw [List.map_append, htext, hmore]
          rfl
        · dsimp only [Reply.after]
          rw [hsame]
          exact run_bind_told (hstep display) hrun
      | stop fault =>
        refine ⟨remarks, htext, fun display ↦ ?_⟩
        cases fault with
        | some fault => exact run_bind_told_error (hstep display)
        | none => exact run_return_told (hstep display) rfl

/-- A line that cannot be read is a fault. -/
theorem tells_attempt_of_error {line : String} {shell : Shell} {fault : Fault}
    (hread : Command.readLine shell.caps line.toList = .error fault) :
    Tells (attempt line) shell shell [] (.error fault) := by
  intro σ _ display
  show (attempt line).run.run (shell, display) = _
  rw [attempt, run_shell_bind, hread]
  rfl

/-- A line that can be read comes to what its commands come to. -/
theorem tells_attempt_of_ok {line : String} {shell changed : Shell} {stages : List Command}
    {remarks : List Remark} {ending : Except Fault Unit}
    (hread : Command.readLine shell.caps line.toList = .ok stages)
    (h : Tells (commands (Progress.start (Command.pipesIn line.toList)) none stages) shell changed
      remarks ending) :
    Tells (attempt line) shell changed remarks ending := by
  intro σ _ display
  show (attempt line).run.run (shell, display) = _
  rw [attempt, run_shell_bind, hread]
  exact h display

/-- Attempting a line is carrying out what its reply says. -/
theorem run_attempt (line : String) (shell : Shell) :
    ∃ remarks : List Remark, remarks.map Remark.text = (shell.attempt line).lines ∧
      Tells (attempt line) shell (shell.attempt line).shell remarks
        (endingOfLine (shell.attempt line)) := by
  rw [Shell.attempt]
  cases hread : Command.readLine shell.caps line.toList with
  | error fault => exact ⟨[], rfl, tells_attempt_of_error hread⟩
  | ok stages =>
    obtain ⟨remarks, htext, hrun⟩ := run_commands (Command.exists_query_of_mem_tail hread)
      (Progress.start (Command.pipesIn line.toList)) none shell
    exact ⟨remarks, htext, tells_attempt_of_ok hread hrun⟩

/-! ### Answers -/

/-- The remark that is made of a fault, unless that fault ends the run. -/
def closing : Except Fault Unit → List Remark
  | .ok () => []
  | .error fault => if fault.endsRun then [] else [.fault fault]

/-- What is left of an ending once that remark is made. -/
def closed : Except Fault Unit → Except Fault Unit
  | .ok () => .ok ()
  | .error fault => if fault.endsRun then .error fault else .ok ()

/-- A fault that does not end the run is shown after everything else. -/
theorem Tells.answer {line : String} {shell changed : Shell} {remarks : List Remark}
    {ending : Except Fault Unit} (h : Tells (attempt line) shell changed remarks ending) :
    Tells (Performance.answer line) shell changed (remarks ++ closing ending) (closed ending) := by
  intro σ _ display
  dsimp only
  rw [Performance.answer, run_tryCatch, h display, told_append, told]
  rcases Display.takeAll display remarks with ⟨display, _ | reason⟩
  · rcases ending with fault | _
    · dsimp only [closing, closed]
      by_cases hends : fault.endsRun = true
      · rw [if_pos hends, if_pos hends, if_pos hends]
        rfl
      · rw [if_neg hends, if_neg hends, if_neg hends]
        exact run_warn fault changed display
    · rfl
  · rfl

/-- A reply in which the fault is shown has one more remark, and what is left of the ending. -/
theorem report_eq (reply : Reply) :
    reply.report.lines = reply.lines ++ (closing (endingOfLine reply)).map Remark.text ∧
      endingOfLine reply.report = closed (endingOfLine reply) := by
  obtain ⟨shell, lines, fault⟩ := reply
  cases fault with
  | none => exact ⟨(List.append_nil lines).symm, rfl⟩
  | some fault =>
    by_cases hends : fault.endsRun = true
    · have hreport : Reply.report ⟨shell, lines, some fault⟩ = ⟨shell, lines, some fault⟩ :=
        if_pos hends
      have hclosing : closing (.error fault) = [] := if_pos hends
      have hclosed : closed (.error fault) = .error fault := if_pos hends
      rw [hreport]
      dsimp only [endingOfLine]
      rw [hclosing, hclosed]
      exact ⟨(List.append_nil lines).symm, rfl⟩
    · have hreport : Reply.report ⟨shell, lines, some fault⟩ =
          ⟨shell, lines ++ [fault.message], none⟩ := if_neg hends
      have hclosing : closing (.error fault) = [.fault fault] := if_neg hends
      have hclosed : closed (.error fault) = .ok () := if_neg hends
      rw [hreport]
      dsimp only [endingOfLine]
      rw [hclosing, hclosed]
      exact ⟨rfl, rfl⟩

/-- Answering a line is carrying out what its reply says, the shown fault included. -/
theorem run_answer (line : String) (shell : Shell) :
    ∃ remarks : List Remark, remarks.map Remark.text = (shell.answer line).lines ∧
      Tells (answer line) shell (shell.answer line).shell remarks
        (endingOfLine (shell.answer line)) := by
  obtain ⟨remarks, htext, hrun⟩ := run_attempt line shell
  obtain ⟨hlines, hending⟩ := report_eq (shell.attempt line)
  refine ⟨remarks ++ closing (endingOfLine (shell.attempt line)), ?_, ?_⟩
  · rw [List.map_append, htext]
    exact hlines.symm
  · rw [Shell.answer, Reply.shell_report, hending]
    exact hrun.answer

/-- The fault of an ending. -/
def faultOf : Except Fault Unit → Option Fault
  | .ok () => none
  | .error fault => some fault

@[simp]
theorem faultOf_endingOfLine (reply : Reply) : faultOf (endingOfLine reply) = reply.fault := by
  rw [endingOfLine]
  cases reply.fault <;> rfl

/-- What a performance comes to that changes the shell and then makes remarks. A refused remark is
the fault of the outcome, whatever the ending is. -/
theorem outcome_of_told {σ : Type} [Display σ] {performance : Performance σ Unit}
    {shell changed : Shell} {remarks : List Remark} {ending : Except Fault Unit} {display : σ}
    (h : performance.run.run (shell, display) = told changed remarks ending display) :
    performance.outcome shell display =
      ⟨changed, (Display.takeAll display remarks).1,
        ((Display.takeAll display remarks).2.map .io).or (faultOf ending)⟩ := by
  rw [outcome, h, told]
  rcases Display.takeAll display remarks with ⟨display, _ | reason⟩
  · cases ending <;> rfl
  · rfl

end Performance

namespace Shell

variable {σ : Type}

/-- What becomes of the shell when a line is performed does not depend on the display. -/
theorem shell_attemptOn [Display σ] (shell : Shell) (display : σ) (line : String) :
    (shell.attemptOn display line).shell = (shell.attempt line).shell := by
  obtain ⟨remarks, -, hrun⟩ := Performance.run_attempt line shell
  exact congrArg Outcome.shell (Performance.outcome_of_told (hrun display))

/-- Nor does it when the fault of the line is shown. -/
theorem shell_answerOn [Display σ] (shell : Shell) (display : σ) (line : String) :
    (shell.answerOn display line).shell = (shell.answer line).shell := by
  obtain ⟨remarks, -, hrun⟩ := Performance.run_answer line shell
  exact congrArg Outcome.shell (Performance.outcome_of_told (hrun display))

/-- To perform a line up to its first fault is to deliver the reply to it. -/
theorem attemptOn_eq_deliver [PlainDisplay σ] (shell : Shell) (display : σ) (line : String) :
    shell.attemptOn display line = (shell.attempt line).deliver display := by
  obtain ⟨remarks, htext, hrun⟩ := Performance.run_attempt line shell
  refine (Performance.outcome_of_told (hrun display)).trans ?_
  rw [Display.takeAll_eq_deliver, htext, Performance.faultOf_endingOfLine]
  rfl

/-- To perform a line and show its fault is to deliver the reply to it. -/
theorem answerOn_eq_deliver [PlainDisplay σ] (shell : Shell) (display : σ) (line : String) :
    shell.answerOn display line = (shell.answer line).deliver display := by
  obtain ⟨remarks, htext, hrun⟩ := Performance.run_answer line shell
  refine (Performance.outcome_of_told (hrun display)).trans ?_
  rw [Display.takeAll_eq_deliver, htext, Performance.faultOf_endingOfLine]
  rfl

end Shell

/-! ### Displays that take every line -/

/-- A remark is taken by a display that refuses nothing. -/
theorem Display.exists_take {σ : Type} [Display σ] [WillingDisplay σ] (display : σ)
    (remark : Remark) : ∃ next, take display remark = .ok next := by
  rcases remark with text | fault
  · exact WillingDisplay.exists_put display text
  · exact WillingDisplay.exists_putFault display fault

/-- So none is refused of any number of them. -/
theorem Display.takeAll_of_willing {σ : Type} [Display σ] [WillingDisplay σ] (display : σ)
    (remarks : List Remark) : (takeAll display remarks).2 = none := by
  induction remarks generalizing display with
  | nil => rfl
  | cons remark rest ih =>
    obtain ⟨next, hnext⟩ := exists_take display remark
    rw [takeAll, hnext]
    exact ih next

namespace Shell

variable {σ : Type} [Display σ]

/-- On such a display an answered line comes to the fault that is in its reply. -/
theorem fault_answerOn_of_willing [WillingDisplay σ] (shell : Shell) (display : σ)
    (line : String) : (shell.answerOn display line).fault = (shell.answer line).fault := by
  obtain ⟨remarks, -, hrun⟩ := Performance.run_answer line shell
  have houtcome : shell.answerOn display line = _ := Performance.outcome_of_told (hrun display)
  rw [houtcome, Display.takeAll_of_willing, Performance.faultOf_endingOfLine]
  rfl

/-- A line for which nothing is shown leaves any display as it is. -/
theorem answerOn_of_lines_eq_nil {shell : Shell} {line : String}
    (hlines : (shell.answer line).lines = []) (display : σ) :
    shell.answerOn display line =
      ⟨(shell.answer line).shell, display, (shell.answer line).fault⟩ := by
  obtain ⟨remarks, htext, hrun⟩ := Performance.run_answer line shell
  obtain rfl : remarks = [] := List.map_eq_nil_iff.1 (htext.trans hlines)
  have houtcome : shell.answerOn display line = _ := Performance.outcome_of_told (hrun display)
  rw [houtcome, Performance.faultOf_endingOfLine]
  rfl

end Shell

/-- A display that takes every line takes all lines of a reply, and the fault is that of the
reply. -/
theorem Reply.deliver_accepting {σ : Type} [AcceptingDisplay σ] (reply : Reply) (display : σ) :
    reply.deliver display =
      ⟨reply.shell, reply.lines.foldl AcceptingDisplay.accept display, reply.fault⟩ := by
  rw [Reply.deliver, Display.deliver_accepting]
  rfl

end TableShell
