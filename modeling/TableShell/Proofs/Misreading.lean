import TableShell.Proofs.Reading

/-!
# Lines that cannot be read

How reading fails, from the inside out: a token, a list, a condition, a stage, a line. There are
four faults of this kind (`Fault.OfText`), and whatever they quote, a letter or a token, they quote
from the line. Two things follow that do not depend on where in a line the reader stops: a line that
cannot be read costs no more than itself, and its fault shows no character that was not typed in.
-/

namespace TableShell

/-- What an argument error quotes. -/
def ArgumentError.quoted : ArgumentError → List Char
  | badToken token => token.toList
  | wrongCount _ | noValues => []

namespace Fault

/-- What a fault quotes: text that was typed in, or the reason for which something was refused. -/
def quoted : Fault → List Char
  | badArgument letter cause => letter :: cause.quoted
  | unknownLetter letter | unpipeable letter => [letter]
  | io reason => reason.toList
  | _ => []

/-- The faults that are found when a text is read. What they quote is in the text. -/
inductive OfText (text : List Char) : Fault → Prop
  | badArgument {letter : Char} {cause : ArgumentError} (hletter : letter ∈ text)
      (hcause : cause.quoted ⊆ text) : OfText text (.badArgument letter cause)
  | unknownLetter {letter : Char} (hletter : letter ∈ text) : OfText text (.unknownLetter letter)
  | unpipeable {letter : Char} (hletter : letter ∈ text) : OfText text (.unpipeable letter)
  | blankStage : OfText text .blankStage

namespace OfText

variable {text longer : List Char} {fault : Fault}

/-- A fault of a part of a text is a fault of the text. -/
theorem mono (h : OfText text fault) (hsubset : text ⊆ longer) : OfText longer fault := by
  rcases h with ⟨hletter, hcause⟩ | hletter | hletter | -
  · exact .badArgument (hsubset hletter) (List.Subset.trans hcause hsubset)
  · exact .unknownLetter (hsubset hletter)
  · exact .unpipeable (hsubset hletter)
  · exact .blankStage

/-- What is quoted is in the text. -/
theorem quoted_subset (h : OfText text fault) : fault.quoted ⊆ text := by
  rcases h with ⟨hletter, hcause⟩ | hletter | hletter | -
  · exact List.cons_subset.2 ⟨hletter, hcause⟩
  · exact List.cons_subset.2 ⟨hletter, List.nil_subset _⟩
  · exact List.cons_subset.2 ⟨hletter, List.nil_subset _⟩
  · exact List.nil_subset _

/-- A text that cannot be read does not end the run. -/
theorem not_endsRun (h : OfText text fault) : ¬ fault.endsRun := by
  rcases h with - | - | - | - <;> exact Bool.false_ne_true

end OfText

end Fault

/-! ### Parts of a text -/

/-- What is in a piece of a text is in the text. -/
theorem Token.subset_of_mem_splitOnP {isSeparator : Char → Bool} {text piece : List Char}
    (h : piece ∈ text.splitOnP isSeparator) : piece ⊆ text := by
  induction text generalizing piece with
  | nil =>
    obtain rfl : piece = [] := by simpa using h
    exact List.nil_subset _
  | cons c rest ih =>
    rw [List.splitOnP_cons_eq_if_modifyHead] at h
    split at h
    · rcases List.mem_cons.1 h with rfl | h
      · exact List.nil_subset _
      · exact List.subset_cons_of_subset c (ih h)
    · obtain ⟨first, others, hsplit⟩ := List.exists_cons_of_ne_nil
        (List.splitOnP_ne_nil isSeparator rest)
      rw [hsplit] at h ih
      rcases List.mem_cons.1 h with rfl | h
      · exact List.cons_subset_cons c (ih List.mem_cons_self)
      · exact List.subset_cons_of_subset c (ih (List.mem_cons_of_mem _ h))

/-! ### Arguments -/

section Arguments

variable {text : List Char} {cause : ArgumentError}

/-- If a token has no value, it is the token that is quoted. -/
theorem Token.quoted_of_values {isSeparator : Char → Bool}
    (h : Token.values isSeparator text = .error cause) : cause.quoted ⊆ text := by
  obtain ⟨token, htoken, hvalue⟩ := Sequence.exists_of_mapM_eq_error h
  have hquoted : cause.quoted = token := by
    unfold Token.value at hvalue
    split at hvalue
    · cases hvalue
    · rw [← Except.error.inj hvalue]
      exact String.toList_ofList
  rw [hquoted]
  exact Token.subset_of_mem_splitOnP (List.mem_filter.1 htoken).1

theorem IntegerList.quoted_of_read {separator : Char} {cap : Nat}
    (h : IntegerList.read separator cap text = .error cause) : cause.quoted ⊆ text := by
  rcases Sequence.bind_eq_error_iff.1 h with h | ⟨values, -, h⟩
  · exact Token.quoted_of_values h
  · split at h
    · rw [← Except.error.inj h]
      exact List.nil_subset _
    · cases h

theorem Condition.quoted_of_read (h : Condition.read text = .error cause) :
    cause.quoted ⊆ text := by
  rcases Sequence.bind_eq_error_iff.1 h with h | ⟨values, -, h⟩
  · exact Token.quoted_of_values h
  · split at h
    · split at h
      · cases h
      · rw [← Except.error.inj h]
        exact List.nil_subset _
    · rw [← Except.error.inj h]
      exact List.nil_subset _

/-- What is quoted of an argument is in the argument. -/
theorem Command.quoted_of_readArgument {caps : Caps} {verb : Verb}
    (h : readArgument caps verb text = .error cause) : cause.quoted ⊆ text := by
  have hlist : ∀ (cap : Nat) (make : IntegerList → Command),
      (do return make (← IntegerList.read IntegerList.comma cap text)) = Except.error cause →
      cause.quoted ⊆ text := by
    intro cap make h
    rcases Sequence.bind_eq_error_iff.1 h with h | ⟨list, -, h⟩
    · exact IntegerList.quoted_of_read h
    · cases h
  cases verb with
  | add => exact hlist caps.row add h
  | print => cases h
  | project => exact hlist caps.projection _ h
  | select =>
    rcases Sequence.bind_eq_error_iff.1 h with h | ⟨condition, -, h⟩
    · exact Condition.quoted_of_read h
    · cases h

end Arguments

/-! ### Stages and lines -/

namespace Command

variable {caps : Caps} {fault : Fault}

theorem ofText_of_readStage {piped : Bool} {stage : List Char}
    (h : readStage caps piped stage = .error fault) : fault.OfText stage := by
  rcases stage with - | ⟨letter, argument⟩
  · rw [← Except.error.inj h]
    exact .blankStage
  · rcases Sequence.bind_eq_error_iff.1 h with h | ⟨verb, -, h⟩
    · unfold Verb.ofLetter at h
      split at h <;> cases h
      exact .unknownLetter List.mem_cons_self
    · split at h
      · rw [← Except.error.inj h]
        exact .unpipeable List.mem_cons_self
      · obtain ⟨cause, hcause, rfl⟩ := Sequence.mapError_eq_error_iff.1 h
        exact .badArgument List.mem_cons_self
          (List.subset_cons_of_subset letter (quoted_of_readArgument hcause))

/-- A line that cannot be read has a fault of its text. -/
theorem ofText_of_readLine {line : List Char} (h : readLine caps line = .error fault) :
    fault.OfText line := by
  rw [readLine] at h
  split at h
  · cases h
  · obtain ⟨stage, hstage, hread⟩ := Sequence.exists_of_mapM_eq_error h
    rw [List.splitOn_eq_splitOnP] at hstage
    exact (ofText_of_readStage hread).mono (Token.subset_of_mem_splitOnP hstage)

end Command

end TableShell
