import TableShell.Console

/-!
# The program

The standard streams around a run: lines are answered while they are read, so the program can be
used at a terminal. All decisions are those of `Console`; here bytes are fetched and texts are
written.
-/

namespace TableShell

namespace Main

/-- The text of an operating-system error: what it is, and its number. -/
def reason : IO.Error → String
  | .noFileOrDirectory _ code details | .inappropriateType (some _) code details
  | .permissionDenied _ code details | .resourceBusy code details =>
    details ++ " (os error " ++ code.toNat.repr ++ ")"
  | .otherError code details | .inappropriateType none code details =>
    details ++ " (os error " ++ code.toNat.repr ++ ")"
  | error => error.toString

/-- The bytes up to the next line feed, without it, or nothing at the end of the input. -/
partial def nextPiece (input : IO.FS.Stream) : IO (Option (List UInt8)) :=
  let rec go (bytes : Array UInt8) : IO (Option (List UInt8)) := do
    match (← input.read 1).toList with
    | byte :: _ =>
      if byte = Entry.lineFeed then return some bytes.toList else go (bytes.push byte)
    | [] => return if bytes.isEmpty then none else some bytes.toList
  go #[]

/-- Answers lines until the input ends or a line ends with a fault. -/
partial def converse (quiet : Bool) (input output : IO.FS.Stream) (shell : Shell) :
    IO (Option Fault) := do
  output.putStr (Console.prompt quiet)
  output.flush
  match ← nextPiece input with
  | none =>
    output.putStr (Console.farewell quiet)
    return none
  | some piece =>
    let reply := Console.respond shell piece
    reply.lines.forM fun line ↦ output.putStr (line ++ "\n")
    match reply.fault with
    | some fault => return some fault
    | none => converse quiet input output reply.shell

/-- Runs a shell on a stream. A stream that fails ends the run like any other fault. -/
def serve (options : Options) (input : IO.FS.Stream) : IO UInt32 := do
  let output ← IO.getStdout
  let ending ← (converse options.quiet input output (Shell.start options.limits)).toBaseIO
  let fault := match ending with
    | .ok fault => fault
    | .error error => some (.io (reason error))
  match fault with
  | none => return 0
  | some fault =>
    IO.eprintln fault.message
    return 1

/-- Reads the arguments, opens what is to be read, and runs a shell on it. -/
def start (arguments : List String) : IO UInt32 := do
  match Options.read arguments with
  | .error usage =>
    IO.eprintln usage.message
    return 2
  | .ok options =>
    match options.script with
    | none => serve options (← IO.getStdin)
    | some path =>
      match ← (IO.FS.Handle.mk path .read).toBaseIO with
      | .ok handle => serve options (IO.FS.Stream.ofHandle handle)
      | .error error =>
        IO.eprintln (Console.scriptError path (reason error))
        return 1

end Main

end TableShell

/-- The entry point of the program. -/
def main (arguments : List String) : IO UInt32 :=
  TableShell.Main.start arguments
