import TableShell.Query

/-!
# Commands

A line holds stages with pipes between them, and each stage is a command: a letter, which is its
verb, and an argument.

| letter | argument | command |
|---|---|---|
| `a` | `1,2,3` | add a row |
| `?` | none | print the table |
| `p` | `2,3` | project onto columns |
| `s` | `2<5` | select rows |

Only queries may stand in a line with pipes. A line is read as a whole before any of it is run,
from the left, and its first bad stage is the fault of the line.
-/

namespace TableShell

/-- What the letter of a stage asks for. -/
inductive Verb where
  | add
  | print
  | project
  | select
deriving DecidableEq, Repr, Inhabited

namespace Verb

/-- The letter of a verb. -/
def letter : Verb → Char
  | add => 'a'
  | print => '?'
  | project => 'p'
  | select => 's'

/-- The verb with the given letter. -/
def ofLetter : Char → Except Fault Verb
  | 'a' => .ok add
  | '?' => .ok print
  | 'p' => .ok project
  | 's' => .ok select
  | letter => .error (.unknownLetter letter)

/-- Whether a verb may stand in a line with pipes. -/
def isPipeable : Verb → Bool
  | project | select => true
  | add | print => false

/-- A character stands for a verb exactly when it is its letter. -/
theorem ofLetter_eq_ok_iff {c : Char} {verb : Verb} :
    ofLetter c = .ok verb ↔ c = verb.letter := by
  constructor
  · intro h
    unfold ofLetter at h
    split at h <;> cases h <;> rfl
  · rintro rfl
    cases verb <;> rfl

end Verb

/-- One stage of a line. -/
inductive Command where
  /-- Adds a row to the table. -/
  | add (fields : IntegerList)
  /-- Shows the table. -/
  | print
  /-- Makes a table of a table. -/
  | query (query : Query)
deriving DecidableEq, Repr, Inhabited

namespace Command

/-- The verb of a command. -/
def verb : Command → Verb
  | add _ => .add
  | print => .print
  | query (.project ..) => .project
  | query (.select _) => .select

/-! ### Stages -/

/-- How many values are kept of the lists on a line. -/
structure Caps where
  /-- Kept of a row to be added. -/
  row : Nat
  /-- Kept of the columns to project onto. -/
  projection : Nat
deriving DecidableEq, Repr, Inhabited

/-- Reads the argument that a verb is given. Whatever follows a print is ignored. -/
def readArgument (caps : Caps) (verb : Verb) (argument : List Char) :
    Except ArgumentError Command :=
  match verb with
  | .add => do
    return add (← IntegerList.read IntegerList.comma caps.row argument)
  | .print => .ok print
  | .project => do
    let list ← IntegerList.read IntegerList.comma caps.projection argument
    return query (.project (list.values.map Int.toNat) list.total)
  | .select => do
    return query (.select (← Condition.read argument))

/-- Reads one stage of a line. A bad letter comes before a stage that may not be piped, and both
come before a bad argument. -/
def readStage (caps : Caps) (piped : Bool) : List Char → Except Fault Command
  | [] => .error .blankStage
  | letter :: argument => do
    let verb ← Verb.ofLetter letter
    if piped && !verb.isPipeable then
      .error (.unpipeable letter)
    else
      (readArgument caps verb argument).mapError (.badArgument letter)

/-! ### Lines -/

/-- The separator of the stages of a line. -/
def pipe : Char :=
  '|'

/-- The number of pipes in a line. -/
def pipesIn (line : List Char) : Nat :=
  line.count pipe

/-- Reads the stages of a line. An empty line has none. -/
def readLine (caps : Caps) (line : List Char) : Except Fault (List Command) :=
  if line.isEmpty then
    .ok []
  else
    (line.splitOn pipe).mapM (readStage caps (0 < pipesIn line))

end Command

end TableShell
