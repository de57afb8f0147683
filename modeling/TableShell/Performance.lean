import TableShell.Display

/-!
# Performances

A line is performed on a display: the shell is changed and lines are shown as its commands are
carried out, in that order. Whatever goes wrong, be it a fault of the line or a line that the
display refuses, ends the performance on the spot, and what was done up to then stays done. So a
row that was added stays in the table although its echo was refused.

`Shell.attemptOn` performs a line up to its first fault. `Shell.answerOn` shows the message of that
fault as well, unless the fault ends the run; the message may be refused in its turn.
-/

namespace TableShell

/-- What is done to a shell and a display, up to the first fault. -/
abbrev Performance (σ : Type) := ExceptT Fault (StateM (Shell × σ))

namespace Performance

variable {σ : Type} [Display σ]

/-! ### Single acts -/

/-- The shell as it is by now. -/
def shell : Performance σ Shell := do
  return (← get).1

/-- Puts a table in the place of the main table. -/
def setTable (table : Table) : Performance σ Unit :=
  modify fun (shell, display) ↦ ({ shell with table }, display)

/-- Hands something to the display, which takes it or refuses it. -/
def offer (take : σ → Except String σ) : Performance σ Unit := do
  let (shell, display) ← get
  match take display with
  | .ok display => set (shell, display)
  | .error reason => throw (.io reason)

/-- Shows a line, unless the display refuses it. -/
def emit (line : String) : Performance σ Unit :=
  offer fun display ↦ Display.put display line

/-- Shows a fault, unless the display refuses it. -/
def warn (fault : Fault) : Performance σ Unit :=
  offer fun display ↦ Display.putFault display fault

/-- Shows a table, line by line. -/
def render (table : Table) : Performance σ Unit :=
  table.lines.forM emit

/-! ### Commands -/

/-- Tells of a row that was added, and first that it was cut, if it was. -/
def tell (addition : Table.Addition) : Performance σ Unit := do
  if let some width := addition.cutFrom then
    warn (.widthMismatch addition.table.columns width)
  emit (Shell.addedMark ++ addition.row.text)

/-- Adds a row to the main table and tells of it. -/
def add (fields : IntegerList) : Performance σ Unit := do
  let current ← shell
  let addition ← MonadExcept.ofExcept (current.table.add fields current.limits.columns)
  setTable addition.table
  tell addition

/-- Carries out a query. A main table without data is shown as it is, which finishes the line. -/
def query (position : Position) (carried : Option Table) (query : Query) :
    Performance σ Continuation := do
  match (← shell).source? position carried with
  | none => throw .missingInput
  | some source =>
    if position.input = .mainTable ∧ !source.hasData then
      render source
      return .stop none
    else
      let result ← MonadExcept.ofExcept (query.apply source)
      query.notices.forM warn
      match position.output with
      | .carried => return .proceed (some result)
      | .shown =>
        render result
        return .proceed none

/-- Carries out the command at a position. -/
def command (position : Position) (carried : Option Table) : Command → Performance σ Continuation
  | .add fields => do
    add fields
    return .proceed carried
  | .print => do
    render (← shell).table
    return .proceed carried
  | .query q => query position carried q

/-! ### Lines -/

/-- Carries out commands in order, each at the next position of the line, as long as there is
one. -/
def commands (progress : Progress) (carried : Option Table) : List Command → Performance σ Unit
  | [] => return
  | first :: rest =>
    match progress.next? with
    | none => return
    | some (position, progress) => do
      match ← command position carried first with
      | .proceed carried => commands progress carried rest
      | .stop fault => fault.forM throw

/-- Performs a line up to the first fault in it. -/
def attempt (line : String) : Performance σ Unit := do
  let stages ← MonadExcept.ofExcept (Command.readLine (← shell).caps line.toList)
  commands (Progress.start (Command.pipesIn line.toList)) none stages

/-- Performs a line and shows the fault in it, unless that fault ends the run. -/
def answer (line : String) : Performance σ Unit :=
  tryCatch (attempt line) fun fault ↦
    if fault.endsRun then throw fault else warn fault

/-- What a performance comes to. -/
def outcome (performance : Performance σ Unit) (shell : Shell) (display : σ) : Outcome σ :=
  let (ending, shell, display) := performance.run.run (shell, display)
  ⟨shell, display, match ending with
    | .ok () => none
    | .error fault => some fault⟩

end Performance

namespace Shell

variable {σ : Type} [Display σ]

/-- Performs a line on a display; the first fault in it ends it. -/
def attemptOn (shell : Shell) (display : σ) (line : String) : Outcome σ :=
  (Performance.attempt line).outcome shell display

/-- Performs a line on a display, with the fault in it shown unless it ends the run. -/
def answerOn (shell : Shell) (display : σ) (line : String) : Outcome σ :=
  (Performance.answer line).outcome shell display

end Shell

end TableShell
