import TableShell.Performance
import TableShell.Entry
import TableShell.Options

/-!
# The console

A run of the program from its first prompt to its end. Every line of the input is answered in
turn: first the prompt, then a warning if the line was cut, then the lines of the reply. A fault
that ends the run does so at once and is reported apart from the output. At the end of the input
the line with the last prompt is finished.

The input is a value here, and so is everything written, so that a run is a function of what is
read.
-/

namespace TableShell

/-- What lines are read from, once it is open. -/
inductive Feed where
  /-- Something with contents. -/
  | contents (input : List UInt8)
  /-- Something of which not a byte can be read, for the given reason. -/
  | unreadable (reason : String)
deriving DecidableEq, Repr, Inhabited

/-- How a run ends. -/
structure Exit where
  /-- The exit code: zero, one after a fault, two after wrong arguments. -/
  code : Nat
  /-- Everything written to the standard output. -/
  output : String
  /-- Everything written to the standard error. -/
  errors : String
deriving DecidableEq, Repr, Inhabited

namespace Console

/-- The text that asks for a line. -/
def prompt (quiet : Bool) : String :=
  if quiet then "" else "> "

/-- The text that ends the last prompt. -/
def farewell (quiet : Bool) : String :=
  if quiet then "" else "\n"

/-- What is reported if a script cannot be opened. -/
def scriptError (path reason : String) : String :=
  "Error reading script '" ++ path ++ "': " ++ reason

/-! ### Lines -/

/-- Answers the bytes of one line. -/
def respond (shell : Shell) (piece : List UInt8) : Reply :=
  let entry := Entry.ofBytes shell.limits.lineLength piece
  (shell.answer entry.text).after (if entry.isCut then [entry.warning] else [])

/-- Answers the lines of the input until one ends with a fault. -/
def converse (quiet : Bool) (shell : Shell) (transcript : Transcript) :
    List (List UInt8) → Outcome Transcript
  | [] => ⟨shell, transcript.write (prompt quiet ++ farewell quiet), none⟩
  | piece :: rest =>
    let outcome := (respond shell piece).deliver (transcript.write (prompt quiet))
    match outcome.fault with
    | none => converse quiet outcome.shell outcome.display rest
    | some _ => outcome

/-! ### Runs -/

/-- Runs a shell on all of its input. -/
def serve (quiet : Bool) (shell : Shell) : Feed → Outcome Transcript
  | .contents input => converse quiet shell Transcript.empty (Entry.pieces input)
  | .unreadable reason => ⟨shell, Transcript.empty.write (prompt quiet), some (.io reason)⟩

/-- The exit after an outcome: a fault is reported and gives the code one. -/
def exitOf (outcome : Outcome Transcript) : Exit :=
  match outcome.fault with
  | none => ⟨0, outcome.display.text, ""⟩
  | some fault => ⟨1, outcome.display.text, fault.message ++ "\n"⟩

/-- Runs the program with given options, files and standard input. -/
def runWith (options : Options) (openScript : String → Except String Feed)
    (standardInput : List UInt8) : Exit :=
  let shell := Shell.start options.limits
  match options.script with
  | none => exitOf (serve options.quiet shell (.contents standardInput))
  | some path =>
    match openScript path with
    | .ok feed => exitOf (serve options.quiet shell feed)
    | .error reason => ⟨1, "", scriptError path reason ++ "\n"⟩

/-- Runs the program with given arguments, files and standard input. How the arguments are read is
given as well. -/
def run (read : List String → Except UsageError Options) (arguments : List String)
    (openScript : String → Except String Feed) (standardInput : List UInt8) : Exit :=
  match read arguments with
  | .ok options => runWith options openScript standardInput
  | .error usage => ⟨2, "", usage.message ++ "\n"⟩

end Console

end TableShell
