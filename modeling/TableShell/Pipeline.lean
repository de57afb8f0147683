/-!
# The stages of a line

Where a stage stands in its line decides what it reads and where its result goes. The first stage
reads the main table, every later one what was carried over from the stage before it; the last
stage shows its result, every earlier one carries it over. `Progress.next?` hands out the
positions of a line with a given number of pipes, one after the other, and then nothing more.
-/

namespace TableShell

/-- The place of a stage in its line. -/
inductive Position where
  /-- The only stage of a line without pipes. -/
  | only
  /-- The first of several stages. -/
  | first
  /-- A stage between the first and the last. -/
  | middle
  /-- The last of several stages. -/
  | last
deriving DecidableEq, Repr, Inhabited

/-- What a stage reads. -/
inductive Input where
  /-- The table of the shell. -/
  | mainTable
  /-- The result of the stage before. -/
  | carried
deriving DecidableEq, Repr, Inhabited

/-- Where the result of a stage goes. -/
inductive Output where
  /-- To the stage after. -/
  | carried
  /-- To whoever typed the line. -/
  | shown
deriving DecidableEq, Repr, Inhabited

namespace Position

/-- What the stage at a position reads. -/
def input : Position → Input
  | only | first => .mainTable
  | middle | last => .carried

/-- Where the result of the stage at a position goes. -/
def output : Position → Output
  | only | last => .shown
  | first | middle => .carried

end Position

/-- How far the stages of a line have been handed out. -/
structure Progress where
  /-- The number of pipes in the line. -/
  pipes : Nat
  /-- The number of stages handed out so far. -/
  done : Nat
deriving DecidableEq, Repr, Inhabited

namespace Progress

/-- A line with the given number of pipes, no stage of which has been handed out. -/
def start (pipes : Nat) : Progress :=
  ⟨pipes, 0⟩

/-- The number of stages of the line: one more than it has pipes. -/
def stages (progress : Progress) : Nat :=
  progress.pipes + 1

/-- Whether every stage has been handed out. -/
def isFinished (progress : Progress) : Bool :=
  progress.stages ≤ progress.done

/-- The position of the next stage. -/
def position (progress : Progress) : Position :=
  if progress.pipes = 0 then .only
  else if progress.done = 0 then .first
  else if progress.done < progress.pipes then .middle
  else .last

/-- Hands out the next stage, if one is left. -/
def next? (progress : Progress) : Option (Position × Progress) :=
  if progress.isFinished then none
  else some (progress.position, { progress with done := progress.done + 1 })

end Progress

end TableShell
