import TableShell.Proofs.Reachable

/-!
# Several lines, one after the other

A turn is a line together with the way in which it is performed: up to its first fault, or with that
fault shown. In a session each turn is taken in the shell and on the display that the turn before it
has left, whatever fault that one has come to (`Shell.session`).

The shell after a session does not depend on the display (`fst_session`), so the shell after some
lines can be named without one (`Shell.after`). It can be reached if the first one can
(`Reachable.after`).
-/

namespace TableShell

/-- A line, and whether the fault in it is left to the caller or shown. -/
inductive Turn where
  /-- The line is performed up to its first fault. -/
  | attempt (line : String)
  /-- The line is performed and the fault in it is shown, unless that fault ends the run. -/
  | answer (line : String)
deriving DecidableEq, Repr, Inhabited

namespace Turn

variable {σ : Type}

/-- The reply that a turn gets in a shell. -/
def reply (turn : Turn) (shell : Shell) : Reply :=
  match turn with
  | attempt line => shell.attempt line
  | answer line => shell.answer line

/-- What a turn comes to in a shell and on a display. -/
def perform [Display σ] (turn : Turn) (shell : Shell) (display : σ) : Outcome σ :=
  match turn with
  | attempt line => shell.attemptOn display line
  | answer line => shell.answerOn display line

/-- The shell after a turn is that of its reply, whatever the display does. -/
theorem shell_perform [Display σ] (turn : Turn) (shell : Shell) (display : σ) :
    (turn.perform shell display).shell = (turn.reply shell).shell := by
  cases turn with
  | attempt line => exact Shell.shell_attemptOn shell display line
  | answer line => exact Shell.shell_answerOn shell display line

/-- To perform a turn is to deliver its reply. -/
theorem perform_eq_deliver [PlainDisplay σ] (turn : Turn) (shell : Shell) (display : σ) :
    turn.perform shell display = (turn.reply shell).deliver display := by
  cases turn with
  | attempt line => exact Shell.attemptOn_eq_deliver shell display line
  | answer line => exact Shell.answerOn_eq_deliver shell display line

end Turn

namespace Shell

variable {σ : Type} [Display σ]

/-- The shell and the display after turns. Each turn goes on from what the one before it has left,
whatever fault that one has come to. -/
def session (shell : Shell) (display : σ) : List Turn → Shell × σ
  | [] => (shell, display)
  | turn :: rest =>
    let outcome := turn.perform shell display
    outcome.shell.session outcome.display rest

/-- The shell after turns. -/
def after (shell : Shell) (turns : List Turn) : Shell :=
  turns.foldl (fun shell turn ↦ (turn.reply shell).shell) shell

@[simp]
theorem after_nil (shell : Shell) : shell.after [] = shell :=
  rfl

@[simp]
theorem after_cons (shell : Shell) (turn : Turn) (rest : List Turn) :
    shell.after (turn :: rest) = (turn.reply shell).shell.after rest :=
  rfl

theorem after_append (shell : Shell) (turns more : List Turn) :
    shell.after (turns ++ more) = (shell.after turns).after more :=
  List.foldl_append

/-- The shell after a session on any display is the one after its turns. -/
theorem fst_session (shell : Shell) (display : σ) (turns : List Turn) :
    (shell.session display turns).1 = shell.after turns := by
  induction turns generalizing shell display with
  | nil => rfl
  | cons turn rest ih =>
    rw [session, after_cons, ← turn.shell_perform shell display]
    exact ih _ _

variable {limits : Limits} {shell : Shell}

/-- A turn is a transition. -/
theorem transition_reply (shell : Shell) (turn : Turn) :
    Transition shell (turn.reply shell).shell := by
  rw [← turn.shell_perform shell LineLog.empty]
  cases turn with
  | attempt line => exact .attempt LineLog.empty line
  | answer line => exact .answer LineLog.empty line

/-- Turns lead from shells that can be reached to shells that can be reached. -/
theorem Reachable.after (h : Reachable limits shell) (turns : List Turn) :
    Reachable limits (shell.after turns) := by
  induction turns generalizing shell with
  | nil => exact h
  | cons turn rest ih => exact ih (h.tail (transition_reply shell turn))

end Shell

end TableShell
