import TableShell.Shell

/-!
# Displays

A display takes finished lines, one after the other, and may refuse one. It may treat a fault in a
way of its own; on a `PlainDisplay` a fault is just the line of its message, and an
`AcceptingDisplay` refuses nothing besides. A `WillingDisplay` refuses nothing either, but may treat
faults as it likes. `Display.deliver` hands over lines until one is refused, and `Reply.deliver` does
so with the lines of a reply. A refusal is a fault of its own and takes the place of the one in the
reply.

There are three displays. A `LineLog` keeps the lines, a `Transcript` writes them into one text,
and a `Rationed` display takes a fixed number of lines and refuses all others. What each of them
makes of a list of lines is said by `deliver_lineLog`, `deliver_transcript` and
`deliver_rationed`.
-/

namespace TableShell

/-- A receiver of lines. A line carries no line break at its end. -/
class Display (σ : Type) where
  /-- Takes a line, or refuses it for a reason. -/
  put : σ → String → Except String σ
  /-- Takes a fault, or refuses it for a reason. A display may treat faults in a way of its own;
  unless it does, their messages are lines like any other. -/
  putFault : σ → Fault → Except String σ := fun display fault ↦ put display fault.message

namespace Display

variable {σ : Type} [Display σ]

/-- Hands over lines in order until one is refused, and tells the reason of the refusal. -/
def deliver (display : σ) : List String → σ × Option String
  | [] => (display, none)
  | line :: rest =>
    match put display line with
    | .ok display => deliver display rest
    | .error reason => (display, some reason)

@[simp]
theorem deliver_nil (display : σ) : deliver display [] = (display, none) :=
  rfl

end Display

/-- A display on which a fault is the line of its message. -/
class PlainDisplay (σ : Type) extends Display σ where
  /-- A fault is taken or refused as its message is. -/
  putFault_eq_put : ∀ display fault, putFault display fault = put display fault.message := by
    intros; rfl

/-- A display that takes every line. -/
class AcceptingDisplay (σ : Type) extends PlainDisplay σ where
  /-- The display after a line. -/
  accept : σ → String → σ
  /-- No line is refused. -/
  put_eq_accept : ∀ display line, Display.put display line = .ok (accept display line)

/-- A display that takes every line takes a list of lines one by one. -/
theorem Display.deliver_accepting {σ : Type} [AcceptingDisplay σ] (display : σ)
    (lines : List String) :
    Display.deliver display lines = (lines.foldl AcceptingDisplay.accept display, none) := by
  induction lines generalizing display with
  | nil => rfl
  | cons line rest ih =>
    rw [Display.deliver, AcceptingDisplay.put_eq_accept]
    exact ih (AcceptingDisplay.accept display line)

/-- A display that refuses nothing. A fault may be taken in any way. -/
class WillingDisplay (σ : Type) [Display σ] : Prop where
  /-- No line is refused. -/
  exists_put : ∀ (display : σ) (line : String), ∃ next, Display.put display line = .ok next
  /-- No fault is refused. -/
  exists_putFault : ∀ (display : σ) (fault : Fault), ∃ next,
    Display.putFault display fault = .ok next

instance {σ : Type} [AcceptingDisplay σ] : WillingDisplay σ where
  exists_put display line := ⟨_, AcceptingDisplay.put_eq_accept display line⟩
  exists_putFault display fault :=
    ⟨_, (PlainDisplay.putFault_eq_put display fault).trans (AcceptingDisplay.put_eq_accept ..)⟩

/-! ### Three displays -/

/-- A display that keeps its lines. -/
structure LineLog where
  lines : Array String
deriving DecidableEq, Repr, Inhabited

namespace LineLog

/-- A log without lines. -/
def empty : LineLog :=
  ⟨#[]⟩

/-- The lines so far, and the log without them. -/
def take (log : LineLog) : List String × LineLog :=
  (log.lines.toList, empty)

instance : AcceptingDisplay LineLog where
  put log line := .ok ⟨log.lines.push line⟩
  accept log line := ⟨log.lines.push line⟩
  put_eq_accept _ _ := rfl

end LineLog

/-- A display that writes its lines into one text, each with a line break after it. -/
structure Transcript where
  text : String
deriving DecidableEq, Repr, Inhabited

namespace Transcript

/-- A transcript without text. -/
def empty : Transcript :=
  ⟨""⟩

/-- Writes a text as it is. -/
def write (transcript : Transcript) (text : String) : Transcript :=
  ⟨transcript.text ++ text⟩

/-- Writes a line and a line break. -/
def writeLine (transcript : Transcript) (line : String) : Transcript :=
  (transcript.write line).write "\n"

theorem write_empty (transcript : Transcript) : transcript.write "" = transcript :=
  congrArg mk String.append_empty

theorem write_write (transcript : Transcript) (text more : String) :
    (transcript.write text).write more = transcript.write (text ++ more) :=
  congrArg mk (String.append_assoc ..)

/-- Lines are written one after the other, each with a line break behind it. -/
theorem foldl_writeLine (lines : List String) (transcript : Transcript) :
    lines.foldl writeLine transcript = transcript.write (String.join (lines.map (· ++ "\n"))) := by
  induction lines generalizing transcript with
  | nil => exact (write_empty transcript).symm
  | cons line rest ih =>
    rw [List.foldl_cons, ih, writeLine, write_write, write_write, List.map_cons, String.join_cons,
      String.append_assoc]

instance : AcceptingDisplay Transcript where
  put transcript line := .ok (transcript.writeLine line)
  accept := writeLine
  put_eq_accept _ _ := rfl

end Transcript

/-- A display that takes as many lines as it has room for, and refuses all others for one reason. -/
structure Rationed where
  /-- The lines taken. -/
  lines : Array String
  /-- The number of lines that can still be taken. -/
  room : Nat
  /-- The reason for which a line is refused once there is no room. -/
  refusal : String
deriving DecidableEq, Repr, Inhabited

namespace Rationed

/-- A rationed display that has taken nothing. -/
def ofRoom (room : Nat) (refusal : String) : Rationed :=
  ⟨#[], room, refusal⟩

/-- The lines so far, and the display without them. The room stays as it is. -/
def take (display : Rationed) : List String × Rationed :=
  (display.lines.toList, { display with lines := #[] })

instance : PlainDisplay Rationed where
  put display line :=
    match display.room with
    | 0 => .error display.refusal
    | room + 1 => .ok { display with lines := display.lines.push line, room }

end Rationed

namespace Display

/-- A log keeps every line. -/
theorem deliver_lineLog (log : LineLog) (lines : List String) :
    deliver log lines = (⟨log.lines ++ lines⟩, none) := by
  rw [deliver_accepting]
  congr 1
  induction lines generalizing log with
  | nil => simp
  | cons line rest ih =>
    show rest.foldl _ (⟨log.lines.push line⟩ : LineLog) = _
    rw [ih]
    simp

/-- An empty log then holds just these lines. -/
theorem lines_deliver_empty (lines : List String) :
    (deliver LineLog.empty lines).1.lines.toList = lines := by
  rw [deliver_lineLog]
  simp [LineLog.empty]

/-- A transcript writes every line. -/
theorem deliver_transcript (transcript : Transcript) (lines : List String) :
    deliver transcript lines = (lines.foldl Transcript.writeLine transcript, none) :=
  deliver_accepting transcript lines

/-- A rationed display takes the lines that it has room for, and refuses one exactly if there are
more. -/
theorem deliver_rationed (display : Rationed) (lines : List String) :
    deliver display lines =
      ({ display with
          lines := display.lines ++ lines.take display.room
          room := display.room - lines.length },
        if lines.length ≤ display.room then none else some display.refusal) := by
  induction lines generalizing display with
  | nil => simp
  | cons line rest ih =>
    obtain ⟨taken, room, refusal⟩ := display
    cases room with
    | zero => simp [deliver, put]
    | succ room =>
      show deliver (⟨taken.push line, room, refusal⟩ : Rationed) rest = _
      rw [ih]
      simp

end Display

/-! ### Replies on a display -/

/-- What a line comes to on a display. -/
structure Outcome (σ : Type) where
  /-- The shell after the line. -/
  shell : Shell
  /-- The display after the line. -/
  display : σ
  /-- The fault that the line ends with. -/
  fault : Option Fault

namespace Reply

/-- Delivers a reply. A refused line is the fault of the outcome, whatever the reply says. -/
def deliver {σ : Type} [Display σ] (reply : Reply) (display : σ) : Outcome σ :=
  let (display, refusal) := Display.deliver display reply.lines
  ⟨reply.shell, display, (refusal.map .io).or reply.fault⟩

end Reply

end TableShell
