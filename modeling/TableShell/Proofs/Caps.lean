import TableShell.Proofs.Reading

/-!
# One line, read with two caps

Caps decide how much is kept of a list, and nothing else: a line is read with any other caps as the
same stages, down to where their lists are cut, or it cannot be read with either, for the same
reason (`readLine_matched`). What a stage is read as with one caps and what it is read as with
another are counterparts of each other.
-/

namespace TableShell

/-- What the text of a query is read as with one cap, and with another. -/
inductive Query.Counterpart (cap cap' : Nat) : Query → Query → Prop
  | project (targets : List Int) :
      Counterpart cap cap' (.project ((targets.take cap).map Int.toNat) targets.length)
        (.project ((targets.take cap').map Int.toNat) targets.length)
  | select (condition : Condition) : Counterpart cap cap' (.select condition) (.select condition)

namespace Command

open Sequence

/-- What the text of a stage is read as with one caps, and with another. -/
inductive Counterpart (caps caps' : Caps) : Command → Command → Prop
  | add (values : List Int) :
      Counterpart caps caps' (.add ⟨values.take caps.row, values.length⟩)
        (.add ⟨values.take caps'.row, values.length⟩)
  | print : Counterpart caps caps' .print .print
  | query {q q' : Query} (h : q.Counterpart caps.projection caps'.projection q') :
      Counterpart caps caps' (.query q) (.query q')

variable (caps caps' : Caps)

/-- The argument of a verb is read with any caps, or with none. -/
theorem readArgument_matched (verb : Verb) (argument : List Char) :
    Matched (Counterpart caps caps') (readArgument caps verb argument)
      (readArgument caps' verb argument) := by
  have hlist : ∀ cap cap', Matched
      (fun list list' ↦ ∃ values : List Int,
        list = ⟨values.take cap, values.length⟩ ∧ list' = ⟨values.take cap', values.length⟩)
      (IntegerList.read IntegerList.comma cap argument)
      (IntegerList.read IntegerList.comma cap' argument) := by
    intro cap cap'
    refine .bind_left fun values ↦ ?_
    split
    · exact .error _
    · exact .ok ⟨values, rfl, rfl⟩
  cases verb with
  | add =>
    refine (hlist caps.row caps'.row).bind ?_
    rintro _ _ ⟨values, rfl, rfl⟩
    exact .ok (.add values)
  | print => exact .ok .print
  | project =>
    refine (hlist caps.projection caps'.projection).bind ?_
    rintro _ _ ⟨targets, rfl, rfl⟩
    exact .ok (.query (.project targets))
  | select => exact .bind_left fun condition ↦ .ok (.query (.select condition))

/-- So is a stage. -/
theorem readStage_matched (piped : Bool) (stage : List Char) :
    Matched (Counterpart caps caps') (readStage caps piped stage) (readStage caps' piped stage) := by
  cases stage with
  | nil => exact .error _
  | cons letter argument =>
    refine .bind_left fun verb ↦ ?_
    split
    · exact .error _
    · exact (readArgument_matched caps caps' verb argument).mapError

/-- So is a line, stage by stage. -/
theorem readLine_matched (line : List Char) :
    Matched (List.Forall₂ (Counterpart caps caps')) (readLine caps line) (readLine caps' line) := by
  unfold readLine
  split
  · exact .ok .nil
  · exact .mapM (readStage_matched caps caps' _) _

end Command

end TableShell
