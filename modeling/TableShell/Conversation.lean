import TableShell.Performance
import TableShell.Reader

/-!
# Conversations

A run as it takes place: the prompt is written, a line is read, a warning is shown if the line was
cut, and the line is answered. That is one round. Rounds follow each other until there is no line
left to read, or something goes wrong: a fault that ends the run, or anything that the display
refuses, the prompt included.

A round is a performance, so nothing is said here about how many there are. That is `Converses`, the
rounds of a run up to its end; it leads to an outcome only if there is an end.
-/

namespace TableShell

namespace Performance

variable {σ : Type} [Display σ]

/-- Answers a line that was read, after a warning if it was cut. -/
def respond (entry : Entry) : Performance σ Unit := do
  if entry.isCut then
    emit entry.warning
  answer entry.text

/-- One round of a run: writes the prompt, if there is one, and answers the next line. What is left
to read is returned, or nothing if there was no line. -/
def round (prompt : Option (σ → Except String σ)) (reader : Reader) :
    Performance σ (Option Reader) := do
  prompt.forM offer
  match reader.next? with
  | none => return none
  | some (entry, rest) =>
    respond entry
    return some rest

/-- Ends the line that the last prompt stands on, if there is one. -/
def farewell (prompt : Option (σ → Except String σ)) : Performance σ Unit :=
  if prompt.isSome then emit "" else return

end Performance

/-- The rounds of a run up to its end, from a shell and a display to what the run comes to. -/
inductive Converses {σ : Type} [Display σ] (prompt : Option (σ → Except String σ)) :
    Reader → Shell × σ → Outcome σ → Prop
  /-- There is no line left. -/
  | finish {reader : Reader} {s t : Shell × σ}
      (h : (Performance.round prompt reader).run.run s = (.ok none, t)) :
      Converses prompt reader s ((Performance.farewell prompt).outcome t.1 t.2)
  /-- Something has gone wrong. -/
  | fail {reader : Reader} {s t : Shell × σ} {fault : Fault}
      (h : (Performance.round prompt reader).run.run s = (.error fault, t)) :
      Converses prompt reader s ⟨t.1, t.2, some fault⟩
  /-- There may be further lines. -/
  | next {reader rest : Reader} {s t : Shell × σ} {outcome : Outcome σ}
      (h : (Performance.round prompt reader).run.run s = (.ok (some rest), t))
      (hrest : Converses prompt rest t outcome) : Converses prompt reader s outcome

end TableShell
