/-!
# Decimal numerals

How whole numbers are read and written. A numeral is a run of ASCII digits, in most places with
a sign allowed in front; leading zeros change nothing. Two word sizes bound what may be read:
cells and comparands are signed 64-bit numbers (`int64?`), sizes on the command line are unsigned
64-bit numbers (`word64?`). Reading never rounds and never wraps: a numeral outside the range
has no value.

`signed?_toList_text` is the round trip: every integer is read back from its own text.
-/

namespace TableShell

namespace Numeral

/-! ### Reading -/

/-- The number that a run of ASCII decimal digits writes. Nothing but digits may occur, and there
has to be at least one. -/
def natural? (digits : List Char) : Option Nat :=
  if digits ≠ [] ∧ digits.all Char.isDigit then some (Nat.ofDigitChars 10 digits 0) else none

/-- The number written by digits with an optional sign in front of them. -/
def signed? : List Char → Option Int
  | '-' :: digits => (natural? digits).map fun n ↦ -(n : Int)
  | '+' :: digits => (natural? digits).map fun n ↦ (n : Int)
  | digits => (natural? digits).map fun n ↦ (n : Int)

/-- A signed numeral whose value fits into 64 bits. -/
def int64? (chars : List Char) : Option Int :=
  (signed? chars).filter fun n ↦ -0x8000000000000000 ≤ n ∧ n < 0x8000000000000000

/-- A signed numeral whose value fits into 64 bits and is at least one. -/
def positive? (chars : List Char) : Option Int :=
  (int64? chars).filter fun n ↦ 0 < n

/-- An unsigned numeral, with an optional plus sign, whose value fits into 64 bits. -/
def word64? (chars : List Char) : Option Nat :=
  let digits := match chars with
    | '+' :: digits => digits
    | digits => digits
  (natural? digits).filter fun n ↦ n < 0x10000000000000000

/-! ### Writing -/

/-- The shortest text of an integer: digits without leading zeros, after a minus sign if the
integer is negative. -/
def text : Int → String
  | .ofNat n => n.repr
  | .negSucc n => "-" ++ (n + 1).repr

/-- A natural number is written with digits alone. -/
theorem isDigit_of_mem_repr {n : Nat} {c : Char} (hc : c ∈ n.repr.toList) : c.isDigit := by
  rw [Nat.toList_repr] at hc
  exact Nat.isDigit_of_mem_toDigits (by decide) (by decide) hc

/-! ### The round trip -/

/-- The digits of a number are read back as that number. -/
theorem natural?_toDigits (n : Nat) : natural? (Nat.toDigits 10 n) = some n := by
  have h : ∀ c ∈ Nat.toDigits 10 n, c.isDigit = true := fun c hc ↦
    Nat.isDigit_of_mem_toDigits (by decide) (by decide) hc
  rw [natural?, if_pos ⟨Nat.toDigits_ne_nil, List.all_eq_true.2 h⟩, Nat.ofDigitChars_ten_toDigits]

/-- A list that starts with a digit carries no sign. -/
theorem signed?_of_isDigit {c : Char} (hc : c.isDigit) (cs : List Char) :
    signed? (c :: cs) = (natural? (c :: cs)).map fun n ↦ (n : Int) := by
  have hm : c ≠ '-' := by rintro rfl; simp at hc
  have hp : c ≠ '+' := by rintro rfl; simp at hc
  rw [signed?]
  · rintro _ h; exact hm (List.cons.inj h).1
  · rintro _ h; exact hp (List.cons.inj h).1

/-- Every integer is read back from its own text. -/
theorem signed?_toList_text (v : Int) : signed? (text v).toList = some v := by
  cases v with
  | ofNat n =>
    rw [text, Nat.toList_repr]
    have h := natural?_toDigits n
    cases hd : Nat.toDigits 10 n with
    | nil => exact absurd hd Nat.toDigits_ne_nil
    | cons c cs =>
      have hc : c.isDigit := Nat.isDigit_of_mem_toDigits (b := 10) (n := n) (by decide)
        (by decide) (hd ▸ List.mem_cons_self)
      rw [signed?_of_isDigit hc, ← hd, h]
      rfl
  | negSucc n =>
    rw [text, String.toList_append, Nat.toList_repr]
    change (natural? (Nat.toDigits 10 (n + 1))).map (fun m ↦ -(m : Int)) = _
    rw [natural?_toDigits]
    rfl

/-- An integer that fits into 64 bits is read back as one that does. -/
theorem int64?_toList_text {v : Int} (hlow : -0x8000000000000000 ≤ v)
    (hhigh : v < 0x8000000000000000) : int64? (text v).toList = some v := by
  rw [int64?, signed?_toList_text, Option.filter_some, if_pos (decide_eq_true ⟨hlow, hhigh⟩)]

/-- A positive integer that fits into 64 bits is read back as a positive numeral. -/
theorem positive?_toList_text {v : Int} (hv : 0 < v) (hb : v < 0x8000000000000000) :
    positive? (text v).toList = some v := by
  rw [positive?, int64?_toList_text (by omega) hb, Option.filter_some,
    if_pos (decide_eq_true hv)]

end Numeral

end TableShell
