import TableShell.Fault
import TableShell.Numeral

/-!
# Tokens

The argument of a command is cut at its separators, and the non-empty pieces are its tokens. Two
separators in a row, or one at either end, therefore cost nothing. A token has to be a positive
numeral; the first one that is not is the error of the whole argument, however many tokens there
are.
-/

namespace TableShell

namespace Token

/-- The tokens of a text: its non-empty pieces between separators. -/
def split (isSeparator : Char → Bool) (text : List Char) : List (List Char) :=
  (text.splitOnP isSeparator).filter (!·.isEmpty)

/-- The value of a token. -/
def value (token : List Char) : Except ArgumentError Int :=
  match Numeral.positive? token with
  | some n => .ok n
  | none => .error (.badToken (String.ofList token))

/-- The values of all tokens of a text, in order. -/
def values (isSeparator : Char → Bool) (text : List Char) : Except ArgumentError (List Int) :=
  (split isSeparator text).mapM value

theorem value_eq_ok_iff {token : List Char} {n : Int} :
    value token = .ok n ↔ Numeral.positive? token = some n := by
  unfold value
  cases Numeral.positive? token <;> simp

/-- A text that is not empty and holds no separator is its own only token. -/
theorem split_of_forall {isSeparator : Char → Bool} {text : List Char} (hne : text ≠ [])
    (h : ∀ c ∈ text, isSeparator c = false) : split isSeparator text = [text] := by
  simp [split, List.splitOnP_eq_singleton h, hne]

/-- A separator divides the tokens of a text into those before it and those after it. -/
theorem split_append_cons {isSeparator : Char → Bool} {c : Char} (hc : isSeparator c)
    (before after : List Char) :
    split isSeparator (before ++ c :: after) =
      split isSeparator before ++ split isSeparator after := by
  simp [split, List.splitOnP_append_cons before after hc]

end Token

end TableShell
