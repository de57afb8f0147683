import TableShell.Proofs.Session

/-!
# Sessions on a display that refuses lines

A session on a display that takes a number of lines and refuses all others differs from the same
session on a log in what is shown, and in nothing else. After every turn the shells agree, and the
lines taken are the first lines of the log (`session_rationed`). A turn comes to its own fault if
what it shows still fits, and to the refusal if it does not (`Turn.perform_rationed`).

What carries the induction is the pair of displays: `LineLog.rationed` is the display that has
been offered the lines of a log and has taken those that it had room for.
-/

namespace TableShell

namespace LineLog

/-- The display that took of the lines of a log as many as it had room for. -/
def rationed (log : LineLog) (room : Nat) (refusal : String) : Rationed :=
  ⟨log.lines.take room, room - log.lines.size, refusal⟩

/-- A display that is offered further lines has been offered those of the longer log. -/
theorem deliver_rationed (log : LineLog) (room : Nat) (refusal : String) (lines : List String) :
    Display.deliver (log.rationed room refusal) lines =
      ((⟨log.lines ++ lines⟩ : LineLog).rationed room refusal,
        if lines.length ≤ room - log.lines.size then none else some refusal) := by
  have hlines : log.lines.take room ++ lines.take (room - log.lines.size) =
      (log.lines ++ lines).take room := by
    rw [← Array.toList_inj]
    simp [List.take_append]
  have hroom : room - log.lines.size - lines.length = room - (log.lines ++ lines).size := by
    have hsize : (log.lines ++ lines).size = log.lines.size + lines.length := by
      rw [← Array.length_toList, Array.toList_appendList, List.length_append, Array.length_toList]
    omega
  rw [Display.deliver_rationed, rationed, rationed, hlines, hroom]

end LineLog

/-- On a display with room for some lines a turn leaves the shell that it leaves on a log, and shows
what still fits of the lines that it shows there. Its fault is the same if they all fit, and a
refusal otherwise. -/
theorem Turn.perform_rationed (turn : Turn) (shell : Shell) (log : LineLog) (room : Nat)
    (refusal : String) :
    turn.perform shell (log.rationed room refusal) =
      ⟨(turn.reply shell).shell,
        (⟨log.lines ++ (turn.reply shell).lines⟩ : LineLog).rationed room refusal,
        if (turn.reply shell).lines.length ≤ room - log.lines.size then (turn.reply shell).fault
        else some (.io refusal)⟩ := by
  rw [perform_eq_deliver, Reply.deliver, LineLog.deliver_rationed]
  dsimp only
  by_cases hfits : (turn.reply shell).lines.length ≤ room - log.lines.size
  · rw [if_pos hfits, if_pos hfits]
    rfl
  · rw [if_neg hfits, if_neg hfits]
    rfl

/-- On a log a turn leaves the shell of its reply, adds the lines, and comes to the fault. -/
theorem Turn.perform_lineLog (turn : Turn) (shell : Shell) (log : LineLog) :
    turn.perform shell log =
      ⟨(turn.reply shell).shell, ⟨log.lines ++ (turn.reply shell).lines⟩,
        (turn.reply shell).fault⟩ := by
  rw [perform_eq_deliver, Reply.deliver, Display.deliver_lineLog]
  rfl

namespace Shell

/-- A session on a display with room for some lines goes along with the session on a log. -/
theorem session_rationed (shell : Shell) (log : LineLog) (room : Nat) (refusal : String)
    (turns : List Turn) :
    shell.session (log.rationed room refusal) turns =
      ((shell.session log turns).1, (shell.session log turns).2.rationed room refusal) := by
  induction turns generalizing shell log with
  | nil => rfl
  | cons turn rest ih =>
    rw [session, session, turn.perform_rationed, turn.perform_lineLog]
    exact ih _ _

/-- Compare a session on a display that takes `room` lines and refuses all others with the same
session on a log. After every turn the shells agree, and the lines taken are the first `room` lines
of the log. The fault of the turn is the same if its whole output fits into the room that is left
before it, and a refusal if it does not. -/
theorem refusing_display_only_cuts (shell : Shell) (room : Nat) (refusal : String)
    (turns : List Turn) (turn : Turn) :
    let limited := shell.session (Rationed.ofRoom room refusal) turns
    let unlimited := shell.session LineLog.empty turns
    let cut := turn.perform limited.1 limited.2
    let whole := turn.perform unlimited.1 unlimited.2
    cut.shell = whole.shell ∧
    cut.display.lines = whole.display.lines.take room ∧
    ∃ output : List String, whole.display.lines = unlimited.2.lines ++ output ∧
      cut.fault =
        if output.length ≤ room - limited.2.lines.size then whole.fault
        else some (.io refusal) := by
  have hstart : Rationed.ofRoom room refusal = LineLog.empty.rationed room refusal := by
    simp [Rationed.ofRoom, LineLog.rationed, LineLog.empty]
  intro limited unlimited cut whole
  have hlimited : limited = (unlimited.1, unlimited.2.rationed room refusal) := by
    rw [← session_rationed, ← hstart]
  have hcut : cut = turn.perform unlimited.1 (unlimited.2.rationed room refusal) := by
    show turn.perform limited.1 limited.2 = _
    rw [hlimited]
  have hwhole : whole = ⟨(turn.reply unlimited.1).shell,
      ⟨unlimited.2.lines ++ (turn.reply unlimited.1).lines⟩, (turn.reply unlimited.1).fault⟩ :=
    turn.perform_lineLog unlimited.1 unlimited.2
  -- what is left of the room after the lines taken is what is left of it after the log
  have hleft : room - limited.2.lines.size = room - unlimited.2.lines.size := by
    rw [hlimited]
    show room - (unlimited.2.lines.take room).size = _
    rw [Array.take_eq_extract, Array.size_extract]
    omega
  rw [turn.perform_rationed] at hcut
  rw [hleft, hcut, hwhole]
  exact ⟨rfl, rfl, _, rfl, rfl⟩

end Shell

end TableShell
