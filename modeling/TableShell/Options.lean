import TableShell.Limits
import TableShell.Numeral

/-!
# Command-line options

The arguments of the program. There is a switch that turns the prompt off, one numeric setting for
each limit, and at most one script to read instead of the standard input. Each option may be given
once. A setting takes its value from behind an equals sign or from the next argument; after `--`
every argument is a script. A hyphen alone is a script as well.
-/

namespace TableShell

/-- What the program is started with. -/
structure Options where
  /-- The file to read lines from, instead of the standard input. -/
  script : Option String := none
  /-- Whether the prompt is left out. -/
  quiet : Bool := false
  /-- The limits of the shell. -/
  limits : Limits := {}
deriving DecidableEq, Repr, Inhabited

/-- What can be wrong with the arguments of the program. -/
inductive UsageError where
  /-- There is no such option. -/
  | unknownOption (argument : String)
  /-- The option was given before. -/
  | repeatedOption (argument : String)
  /-- The setting stands at the end of the arguments. -/
  | missingValue (argument : String)
  /-- The value of the setting is no unsigned 64-bit number. -/
  | invalidValue (argument value : String)
  /-- There is a script already. -/
  | secondScript (argument : String)
deriving DecidableEq, Repr, Inhabited

/-- The wording of a usage error. -/
def UsageError.message : UsageError → String
  | unknownOption argument => "unknown option '" ++ argument ++ "'"
  | repeatedOption argument => "option '" ++ argument ++ "' given more than once"
  | missingValue argument => "option '" ++ argument ++ "' needs a value"
  | invalidValue argument value => "invalid value '" ++ value ++ "' for '" ++ argument ++ "'"
  | secondScript argument => "unexpected argument '" ++ argument ++ "'"

namespace Options

/-! ### Arguments one by one -/

/-- The numeric settings, one for each limit. -/
inductive Setting where
  | columns
  | rows
  | projection
  | lineLength
deriving DecidableEq, Repr, Inhabited

/-- The option that gives a setting. -/
def Setting.option : Setting → String
  | columns => "--max-cols"
  | rows => "--max-rows"
  | projection => "--max-project"
  | lineLength => "--max-line-len"

/-- The setting that an option gives. -/
def Setting.ofOption? (option : String) : Option Setting :=
  [columns, rows, projection, lineLength].find? fun setting ↦ setting.option = option

/-- What an argument is, read by itself. -/
inductive Argument where
  /-- The end of the options. -/
  | endOfOptions
  /-- The switch that turns the prompt off. -/
  | quiet
  /-- A setting, with its value if there is one behind an equals sign. -/
  | assign (setting : Setting) (value : Option String)
  /-- A script. -/
  | script
  /-- An option that there is not. -/
  | unknown
deriving DecidableEq, Repr, Inhabited

namespace Argument

/-- Reads an argument that starts with two hyphens and goes on. -/
def ofLong (argument : String) : Argument :=
  let chars := argument.toList
  let option := String.ofList (chars.takeWhile (· ≠ '='))
  match chars.dropWhile (· ≠ '='), Setting.ofOption? option with
  | [], some setting => .assign setting none
  | _ :: value, some setting => .assign setting (some (String.ofList value))
  | [], none => if option = "--quiet" then .quiet else .unknown
  | _ :: _, none => .unknown

/-- Reads an argument. -/
def read (argument : String) : Argument :=
  match argument.toList with
  | ['-', '-'] => .endOfOptions
  | '-' :: '-' :: _ => ofLong argument
  | ['-'] => .script
  | ['-', 'q'] => .quiet
  | '-' :: _ => .unknown
  | _ => .script

end Argument

/-! ### All arguments -/

/-- The arguments seen so far. -/
structure Draft where
  script : Option String
  quiet : Bool
  settings : List (Setting × Nat)
deriving DecidableEq, Repr, Inhabited

namespace Draft

/-- No arguments. -/
def empty : Draft :=
  ⟨none, false, []⟩

/-- Takes the script. -/
def addScript (draft : Draft) (argument : String) : Except UsageError Draft :=
  match draft.script with
  | none => .ok { draft with script := some argument }
  | some _ => .error (.secondScript argument)

/-- Takes the switch that turns the prompt off. -/
def addQuiet (draft : Draft) (argument : String) : Except UsageError Draft :=
  if draft.quiet then .error (.repeatedOption argument) else .ok { draft with quiet := true }

/-- Takes the value of a setting. -/
def addSetting (draft : Draft) (setting : Setting) (value : String) : Except UsageError Draft :=
  if (draft.settings.lookup setting).isSome then
    .error (.repeatedOption setting.option)
  else match Numeral.word64? value.toList with
    | none => .error (.invalidValue setting.option value)
    | some n => .ok { draft with settings := (setting, n) :: draft.settings }

/-- The value of a setting, or its default if it was not given. -/
def getD (draft : Draft) (setting : Setting) (default : Nat) : Nat :=
  (draft.settings.lookup setting).getD default

/-- The options that the arguments come to. -/
def toOptions (draft : Draft) : Options where
  script := draft.script
  quiet := draft.quiet
  limits :=
    let standard : Limits := {}
    { columns := draft.getD .columns standard.columns
      rows := draft.getD .rows standard.rows
      projection := draft.getD .projection standard.projection
      lineLength := draft.getD .lineLength standard.lineLength }

end Draft

/-- Takes the arguments in order. -/
def collect (draft : Draft) : List String → Except UsageError Draft
  | [] => .ok draft
  | argument :: rest =>
    match Argument.read argument, rest with
    | .endOfOptions, rest => rest.foldlM Draft.addScript draft
    | .quiet, rest => do collect (← draft.addQuiet argument) rest
    | .assign setting (some value), rest => do collect (← draft.addSetting setting value) rest
    | .assign setting none, value :: rest => do collect (← draft.addSetting setting value) rest
    | .assign setting none, [] => .error (.missingValue setting.option)
    | .script, rest => do collect (← draft.addScript argument) rest
    | .unknown, _ => .error (.unknownOption argument)

/-- Reads the arguments of the program. -/
def read (arguments : List String) : Except UsageError Options := do
  return (← collect Draft.empty arguments).toOptions

end Options

end TableShell
