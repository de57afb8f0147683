import TableShell.Conversation
import TableShell.Proofs.Performance
import TableShell.Proofs.Reader

/-!
# Runs from line to line

A run reads a line, responds to it, and only then looks for the next one. It comes to the same as
responding to the entries of the whole input in order, until one comes to a fault
(`converses_iff`). So a run has an end, whatever is read and whatever the display refuses, and there
is only one outcome that it can have.

The induction is over the entries of the input (`Reader.entries_induction`): each round takes the
first one and leaves the others.
-/

namespace TableShell

/-! ### Entry by entry -/

namespace Entry

/-- What is shown before an entry is answered: that it was cut, if it was. -/
def notices (entry : Entry) : List String :=
  if entry.isCut then [entry.warning] else []

end Entry

namespace Shell

variable {σ : Type}

/-- What a prompt does to a display. -/
def ask (prompt : Option (σ → Except String σ)) (display : σ) : Except String σ :=
  match prompt with
  | none => .ok display
  | some write => write display

variable [Display σ]

/-- What an entry comes to on a display. If the warning is refused, the entry is not answered. -/
def respondOn (shell : Shell) (display : σ) (entry : Entry) : Outcome σ :=
  match Display.deliver display entry.notices with
  | (display, none) => shell.answerOn display entry.text
  | (display, some reason) => ⟨shell, display, some (.io reason)⟩

/-- What entries come to, one after the other, with a prompt before each of them and a last one at
the end. The first fault ends it. -/
def converseOn (prompt : Option (σ → Except String σ)) (shell : Shell) (display : σ) :
    List Entry → Outcome σ
  | [] =>
    match ask prompt display with
    | .ok display => (Performance.farewell prompt).outcome shell display
    | .error reason => ⟨shell, display, some (.io reason)⟩
  | entry :: rest =>
    match ask prompt display with
    | .ok display =>
      let outcome := shell.respondOn display entry
      match outcome.fault with
      | none => outcome.shell.converseOn prompt outcome.display rest
      | some _ => outcome
    | .error reason => ⟨shell, display, some (.io reason)⟩

end Shell

/-- On a display that takes every line, to respond to an entry is to deliver the reply to it with
the notices in front. -/
theorem Shell.respondOn_eq_deliver {σ : Type} [AcceptingDisplay σ] (shell : Shell) (display : σ)
    (entry : Entry) :
    shell.respondOn display entry =
      ((shell.answer entry.text).after entry.notices).deliver display := by
  rw [respondOn, Display.deliver_accepting]
  dsimp only
  rw [answerOn_eq_deliver, Reply.deliver_accepting, Reply.deliver_accepting, Reply.after,
    List.foldl_append]

/-! ### Rounds -/

variable {σ : Type}

namespace Performance

variable {prompt : Option (σ → Except String σ)} {reader : Reader} {shell : Shell} {display : σ}

/-- An ending with the given fault. -/
def endingWith : Option Fault → Except Fault Unit
  | none => .ok ()
  | some fault => .error fault

theorem run_eq_outcome (performance : Performance σ Unit) (shell : Shell) (display : σ) :
    performance.run.run (shell, display) =
      (endingWith (performance.outcome shell display).fault,
        (performance.outcome shell display).shell,
        (performance.outcome shell display).display) := by
  rw [outcome]
  rcases performance.run.run (shell, display) with ⟨fault | _, shell, display⟩ <;> rfl

theorem run_prompt (shell : Shell) (display : σ) :
    (prompt.forM offer).run.run (shell, display) =
      match Shell.ask prompt display with
      | .ok display => (.ok (), shell, display)
      | .error reason => (.error (.io reason), shell, display) := by
  rcases prompt with - | write
  · rfl
  · exact run_offer write shell display

variable [Display σ]

/-- To respond to an entry is to show the warning and answer it. -/
theorem outcome_respond (entry : Entry) (shell : Shell) (display : σ) :
    (respond entry).outcome shell display = shell.respondOn display entry := by
  rw [respond, Shell.respondOn, Entry.notices]
  by_cases hcut : entry.isCut
  · rw [if_pos hcut, if_pos hcut, outcome, Sequence.run_bind, emit, run_offer, Display.deliver]
    rcases Display.put display entry.warning with reason | display
    · rfl
    · rfl
  · rw [if_neg hcut, if_neg hcut]
    rfl

/-- A prompt that is refused is the end of a round. -/
theorem run_round_of_refused {reason : String} (hask : Shell.ask prompt display = .error reason) :
    (round prompt reader).run.run (shell, display) = (.error (.io reason), shell, display) := by
  rw [round, Sequence.run_bind, run_prompt, hask]

/-- Without a line, nothing follows the prompt. -/
theorem run_round_of_end {asked : σ} (hask : Shell.ask prompt display = .ok asked)
    (hnext : reader.next? = none) :
    (round prompt reader).run.run (shell, display) = (.ok none, shell, asked) := by
  rw [round, Sequence.run_bind, run_prompt, hask, hnext]
  rfl

/-- With a line, the response to it follows the prompt. -/
theorem run_round_of_line {asked : σ} {entry : Entry} {rest : Reader}
    (hask : Shell.ask prompt display = .ok asked) (hnext : reader.next? = some (entry, rest)) :
    (round prompt reader).run.run (shell, display) =
      (match (shell.respondOn asked entry).fault with
        | none => .ok (some rest)
        | some fault => .error fault,
        (shell.respondOn asked entry).shell, (shell.respondOn asked entry).display) := by
  rw [round, Sequence.run_bind, run_prompt, hask, hnext]
  dsimp only
  rw [Sequence.run_bind, run_eq_outcome, outcome_respond]
  rcases (shell.respondOn asked entry).fault with - | fault <;> rfl

end Performance

/-! ### Runs -/

variable [Display σ] {prompt : Option (σ → Except String σ)} {outcome : Outcome σ}

/-- How a round comes out decides how the run goes on. -/
theorem converses_iff_of_round {reader : Reader} {s t : Shell × σ}
    {ending : Except Fault (Option Reader)} :
    (Performance.round prompt reader).run.run s = (ending, t) →
      (Converses prompt reader s outcome ↔
        match ending with
        | .ok none => outcome = (Performance.farewell prompt).outcome t.1 t.2
        | .ok (some rest) => Converses prompt rest t outcome
        | .error fault => outcome = ⟨t.1, t.2, some fault⟩) := by
  intro h
  constructor
  · rintro (h' | h' | ⟨h', hrest⟩)
    · obtain ⟨rfl, rfl⟩ := Prod.mk.inj (h.symm.trans h')
      rfl
    · obtain ⟨rfl, rfl⟩ := Prod.mk.inj (h.symm.trans h')
      rfl
    · obtain ⟨rfl, rfl⟩ := Prod.mk.inj (h.symm.trans h')
      exact hrest
  · rcases ending with fault | - | rest
    · rintro rfl
      exact .fail h
    · rintro rfl
      exact .finish h
    · exact .next h

/-- A run has exactly one outcome: what the entries of the input come to, one after the other. -/
theorem converses_iff (input : List UInt8) (limit : Nat) (shell : Shell) (display : σ) :
    Converses prompt ⟨input, limit⟩ (shell, display) outcome ↔
      outcome = shell.converseOn prompt display (Entry.readAll limit input) := by
  induction input using Reader.entries_induction limit generalizing shell display with
  | nil =>
    show _ ↔ outcome = shell.converseOn prompt display []
    rw [Shell.converseOn]
    rcases hask : Shell.ask prompt display with reason | asked
    · exact converses_iff_of_round (Performance.run_round_of_refused hask)
    · exact converses_iff_of_round (Performance.run_round_of_end hask (Reader.next?_nil limit))
  | next input entry rest hentries hnext ih =>
    rw [hentries, Shell.converseOn]
    rcases hask : Shell.ask prompt display with reason | asked
    · exact converses_iff_of_round (Performance.run_round_of_refused hask)
    · rw [converses_iff_of_round (Performance.run_round_of_line hask hnext)]
      dsimp only
      rcases shell.respondOn asked entry with ⟨shell', display', - | fault⟩
      · exact ih shell' display'
      · exact Iff.rfl

end TableShell
