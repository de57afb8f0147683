/-!
# Faults

Everything that can be wrong with a line, by cause. An `ArgumentError` is about the text after a
command letter; a `Fault` is about the line as a whole. `Fault.message` is the only place where a
fault gets its wording, and `Fault.endsRun` the only place that says which faults end a run.

Two of the faults are also used as mere notices, shown while the line goes on: `projectionCut`,
and `widthMismatch` when the row was too wide.
-/

namespace TableShell

/-- What can be wrong with the argument of a command. -/
inductive ArgumentError where
  /-- A token is no positive 64-bit integer. -/
  | badToken (token : String)
  /-- A condition holds `count` integers, which is not two. -/
  | wrongCount (count : Nat)
  /-- A list has no tokens. -/
  | noValues
deriving DecidableEq, Repr, Inhabited

/-- The wording of an argument error. -/
def ArgumentError.message : ArgumentError → String
  | badToken token => "malformed token '" ++ token ++ "'"
  | wrongCount count => "number of arguments should be exactly 2, got " ++ count.repr
  | noValues => "no values given"

/-- What can go wrong with a line. -/
inductive Fault where
  /-- The argument of the command with this letter cannot be read. -/
  | badArgument (letter : Char) (cause : ArgumentError)
  /-- A column lies outside the table that is queried. -/
  | noSuchColumn (column : Nat)
  /-- No command has this letter. -/
  | unknownLetter (letter : Char)
  /-- The command with this letter stands in a piped line and may not. -/
  | unpipeable (letter : Char)
  /-- There is nothing between two pipes, before the first or after the last. -/
  | blankStage
  /-- A query was to read the result of an earlier one, and there is none. -/
  | missingInput
  /-- A row has `got` values where `expected` are wanted. -/
  | widthMismatch (expected got : Nat)
  /-- The table already holds as many rows as it may. -/
  | noRoom (limit : Nat)
  /-- A projection names more columns than it may keep. -/
  | projectionCut (requested kept : Nat)
  /-- The row that would fix the width is too wide. -/
  | tooManyColumns (got limit : Nat)
  /-- Reading or writing failed for the given reason. -/
  | io (reason : String)
deriving DecidableEq, Repr, Inhabited

namespace Fault

/-- The wording of a fault. A width mismatch is worded by its direction: a narrow row is lost, a
wide one is cut. -/
def message : Fault → String
  | badArgument letter cause =>
    "Invalid arguments to '" ++ letter.toString ++ "': " ++ cause.message
  | noSuchColumn column => "Invalid column " ++ column.repr ++ "."
  | unknownLetter letter => "Unknown command '" ++ letter.toString ++ "'"
  | unpipeable letter => "Command '" ++ letter.toString ++ "' cannot be piped"
  | blankStage => "Empty pipeline stage"
  | missingInput => "Pipeline stage has no input from a previous stage"
  | widthMismatch expected got =>
    if got < expected then
      "Record's " ++ got.repr ++ " columns too few. Not added."
    else
      "Record truncated from " ++ got.repr ++ " to " ++ expected.repr ++ " columns."
  | noRoom limit => "Cannot add another record, already at limit of " ++ limit.repr
  | projectionCut requested kept =>
    "Projecting onto " ++ kept.repr ++ " of " ++ requested.repr ++ " cols specified"
  | tooManyColumns got limit =>
    "Input was " ++ got.repr ++ " columns - must be at most " ++ limit.repr
  | io reason => "I/O error: " ++ reason

theorem message_of_narrow {expected got : Nat} (h : got < expected) :
    (widthMismatch expected got).message =
      "Record's " ++ got.repr ++ " columns too few. Not added." :=
  if_pos h

theorem message_of_wide {expected got : Nat} (h : expected ≤ got) :
    (widthMismatch expected got).message =
      "Record truncated from " ++ got.repr ++ " to " ++ expected.repr ++ " columns." :=
  if_neg (Nat.not_lt.2 h)

/-- Whether a fault ends the run. Every other fault costs only the line that it is found in. -/
def endsRun : Fault → Bool
  | tooManyColumns .. | io .. => true
  | _ => false

end Fault

end TableShell
