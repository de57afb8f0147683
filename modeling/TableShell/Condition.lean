import TableShell.Token

/-!
# Conditions

The argument of `s`, such as `2<5`: a column, a relation, a value. The signs of the relations are
themselves the separators of the argument, so it needs exactly two tokens, and the relation that
counts is the first one written.
-/

namespace TableShell

/-- The ways in which a cell can be compared with a value. -/
inductive Relation where
  | less
  | greater
  | equal
deriving DecidableEq, Repr, Inhabited

namespace Relation

/-- The sign of a relation. -/
def sign : Relation → Char
  | less => '<'
  | greater => '>'
  | equal => '='

/-- The relation with the given sign. -/
def ofSign? : Char → Option Relation
  | '<' => some less
  | '>' => some greater
  | '=' => some equal
  | _ => none

/-- Whether a relation holds between a cell and a value. -/
def holds : Relation → Int → Int → Bool
  | less, cell, value => cell < value
  | greater, cell, value => value < cell
  | equal, cell, value => cell = value

/-- A character stands for a relation exactly when it is its sign. -/
theorem ofSign?_eq_some_iff {c : Char} {relation : Relation} :
    ofSign? c = some relation ↔ c = relation.sign := by
  constructor
  · intro h
    unfold ofSign? at h
    split at h <;> cases h <;> rfl
  · rintro rfl
    cases relation <;> rfl

end Relation

/-- A column, counted from one, and what its cells are compared with. -/
structure Condition where
  column : Nat
  relation : Relation
  value : Int
deriving DecidableEq, Repr, Inhabited

namespace Condition

/-- Reads a condition. A token that cannot be read comes before a wrong number of them. -/
def read (text : List Char) : Except ArgumentError Condition := do
  match ← Token.values (fun c ↦ (Relation.ofSign? c).isSome) text with
  | [column, value] =>
    -- there is a sign between two tokens, so there is a first sign
    match text.findSome? Relation.ofSign? with
    | some relation => .ok ⟨column.toNat, relation, value⟩
    | none => .error (.wrongCount 2)
  | values => .error (.wrongCount values.length)

end Condition

end TableShell
