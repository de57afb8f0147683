import TableShell.Command
import TableShell.Limits
import TableShell.Pipeline

/-!
# Shells

A shell is its main table together with the limits it was opened with. A line is answered by a
`Reply`: the shell afterwards, the lines to show, and the fault that the line ends with, if it
ends with one. Nothing is written here; a reply is a value, and what becomes of its lines is the
business of a display.

`Shell.attempt` ends with the first fault of a line. `Shell.answer` shows the message of that
fault instead, unless the fault ends the run.
-/

namespace TableShell

/-- The state between two lines. -/
structure Shell where
  /-- The main table. -/
  table : Table
  limits : Limits
deriving DecidableEq, Repr, Inhabited

/-- The answer to a line. -/
structure Reply where
  /-- The shell after the line. -/
  shell : Shell
  /-- The lines to show, in order. -/
  lines : List String
  /-- The fault that the line ends with. -/
  fault : Option Fault
deriving DecidableEq, Repr, Inhabited

namespace Reply

/-- A reply with further lines in front. -/
def after (lines : List String) (reply : Reply) : Reply :=
  { reply with lines := lines ++ reply.lines }

/-- The reply in which a fault is shown as the last line, unless it ends the run. -/
def report (reply : Reply) : Reply :=
  match reply.fault with
  | some fault =>
    if fault.endsRun then reply
    else { reply with lines := reply.lines ++ [fault.message], fault := none }
  | none => reply

end Reply

/-- What follows a command on its line. -/
inductive Continuation where
  /-- The next command, with the table carried over to it. -/
  | proceed (carried : Option Table)
  /-- Nothing; the line is finished, or ends with a fault. -/
  | stop (fault : Option Fault)
deriving DecidableEq, Repr, Inhabited

/-- What one command of a line comes to. -/
structure Step where
  /-- The shell after the command. -/
  shell : Shell
  /-- The lines that the command shows. -/
  lines : List String
  /-- What follows it. -/
  next : Continuation
deriving DecidableEq, Repr, Inhabited

namespace Shell

/-- A shell whose main table has no rows. -/
def start (limits : Limits) : Shell :=
  ⟨Table.empty limits.rows, limits⟩

/-- The number of columns of the main table, zero before its first row. -/
def columns (shell : Shell) : Nat :=
  shell.table.columns

/-- The number of rows of the main table. -/
def size (shell : Shell) : Nat :=
  shell.table.size

/-- Whether a first row has fixed the width of the main table. -/
def isStarted (shell : Shell) : Bool :=
  shell.table.width.isSome

/-- How many values are kept of the lists on the next line. Of a row no more is kept than the
table is wide, or than the column limit while the width is open. -/
def caps (shell : Shell) : Command.Caps where
  row := shell.table.width.getD shell.limits.columns
  projection := shell.limits.projection

/-! ### One command -/

/-- What is shown before a row that was added. -/
def addedMark : String :=
  "Added record: "

/-- The lines that tell of an addition: that the row was cut, if it was, and the row itself. -/
def additionLines (addition : Table.Addition) : List String :=
  let cut := match addition.cutFrom with
    | some width => [(Fault.widthMismatch addition.table.columns width).message]
    | none => []
  cut ++ [addedMark ++ addition.row.text]

/-- The table that a query at a position reads. -/
def source? (shell : Shell) (position : Position) (carried : Option Table) : Option Table :=
  match position.input with
  | .mainTable => some shell.table
  | .carried => carried

/-- Adds a row to the main table. -/
def stepAdd (shell : Shell) (carried : Option Table) (fields : IntegerList) : Step :=
  match shell.table.add fields shell.limits.columns with
  | .ok addition =>
    ⟨{ shell with table := addition.table }, additionLines addition, .proceed carried⟩
  | .error fault => ⟨shell, [], .stop (some fault)⟩

/-- Answers a query. A main table without data is shown as it is, which finishes the line. -/
def stepQuery (shell : Shell) (position : Position) (carried : Option Table) (query : Query) :
    Step :=
  match shell.source? position carried with
  | none => ⟨shell, [], .stop (some .missingInput)⟩
  | some source =>
    if position.input = .mainTable ∧ !source.hasData then
      ⟨shell, source.lines, .stop none⟩
    else match query.apply source with
      | .error fault => ⟨shell, [], .stop (some fault)⟩
      | .ok result =>
        let notices := query.notices.map Fault.message
        match position.output with
        | .carried => ⟨shell, notices, .proceed (some result)⟩
        | .shown => ⟨shell, notices ++ result.lines, .proceed none⟩

/-- What the command at a position comes to. -/
def step (shell : Shell) (position : Position) (carried : Option Table) : Command → Step
  | .add fields => shell.stepAdd carried fields
  | .print => ⟨shell, shell.table.lines, .proceed carried⟩
  | .query query => shell.stepQuery position carried query

/-! ### One line -/

/-- Runs commands in order, each at the next position of the line, as long as there is one. -/
def run (shell : Shell) (progress : Progress) (carried : Option Table) : List Command → Reply
  | [] => ⟨shell, [], none⟩
  | command :: rest =>
    match progress.next? with
    | none => ⟨shell, [], none⟩
    | some (position, progress) =>
      let step := shell.step position carried command
      match step.next with
      | .proceed carried => (step.shell.run progress carried rest).after step.lines
      | .stop fault => ⟨step.shell, step.lines, fault⟩

/-- Answers a line; the first fault in it ends it. -/
def attempt (shell : Shell) (line : String) : Reply :=
  match Command.readLine shell.caps line.toList with
  | .error fault => ⟨shell, [], some fault⟩
  | .ok commands => shell.run (Progress.start (Command.pipesIn line.toList)) none commands

/-- Answers a line and shows the fault in it, unless that fault ends the run. -/
def answer (shell : Shell) (line : String) : Reply :=
  (shell.attempt line).report

end Shell

end TableShell
