import TableShell.Proofs.Reading

/-!
# What a token is, and what it is worth

Two things that the readers of arguments compute are said here without computing. `Token.Pieces`
describes how a text is made up of its maximal pieces without separators, one gap of separators
after the other, and `Token.pieces_iff` says that there is exactly one such description, the one
that splitting comes to. `Numeral.Denotes` is the grammar of the numerals that a token may be:
digits, perhaps behind a plus sign, with a value between one and the greatest signed 64-bit integer.
Leading zeros are allowed in any number, so the bound is one on the value and not on the length.
-/

namespace TableShell

/-! ### Numerals -/

namespace Numeral

/-- A numeral of digits, perhaps with a plus sign in front of them, writes a number that is
positive and fits into 64 bits. -/
def Denotes (token : List Char) (n : Int) : Prop :=
  ∃ sign digits, token = sign ++ digits ∧ (sign = [] ∨ sign = ['+']) ∧
    (∀ c ∈ digits, c.isDigit) ∧ (Nat.ofDigitChars 10 digits 0 : Int) = n ∧
    1 ≤ n ∧ n ≤ 0x7FFFFFFFFFFFFFFF

theorem natural?_eq_some_iff {digits : List Char} {m : Nat} :
    natural? digits = some m ↔
      digits ≠ [] ∧ (∀ c ∈ digits, c.isDigit) ∧ Nat.ofDigitChars 10 digits 0 = m := by
  rw [natural?, Option.ite_none_right_eq_some, List.all_eq_true, Option.some.injEq, and_assoc]

/-- What can be read with a sign is an optional sign and at least one digit behind it. -/
theorem signed?_eq_some_iff {token : List Char} {n : Int} :
    signed? token = some n ↔
      ∃ sign digits m, token = sign ++ digits ∧ natural? digits = some m ∧
        (sign = ['-'] ∧ n = -(m : Int) ∨ (sign = [] ∨ sign = ['+']) ∧ n = (m : Int)) := by
  constructor
  · intro h
    unfold signed? at h
    split at h <;> obtain ⟨k, hk, rfl⟩ := Option.map_eq_some_iff.1 h <;>
      obtain ⟨m, hm, hvalue⟩ := Option.bind_eq_some_iff.1 hk <;>
      obtain rfl : (m : Int) = k := Option.some.inj hvalue
    · exact ⟨['-'], _, m, rfl, hm, .inl ⟨rfl, rfl⟩⟩
    · exact ⟨['+'], _, m, rfl, hm, .inr ⟨.inr rfl, rfl⟩⟩
    · exact ⟨[], _, m, rfl, hm, .inr ⟨.inl rfl, rfl⟩⟩
  · rintro ⟨sign, digits, m, rfl, hm, ⟨rfl, rfl⟩ | ⟨rfl | rfl, rfl⟩⟩
    · rw [List.singleton_append, signed?, hm]
      rfl
    · -- without a sign the first character is a digit
      obtain ⟨hne, hdigits, -⟩ := natural?_eq_some_iff.1 hm
      obtain ⟨c, rest, rfl⟩ := List.exists_cons_of_ne_nil hne
      rw [List.nil_append, signed?_of_isDigit (hdigits c List.mem_cons_self), hm]
      rfl
    · rw [List.singleton_append, signed?, hm]
      rfl

/-- The positive numerals are those of the grammar. -/
theorem positive?_eq_some_iff {token : List Char} {n : Int} :
    positive? token = some n ↔ Denotes token n := by
  rw [positive?, int64?, Option.filter_eq_some_iff, Option.filter_eq_some_iff, signed?_eq_some_iff,
    decide_eq_true_iff, decide_eq_true_iff]
  constructor
  · rintro ⟨⟨⟨sign, digits, m, rfl, hm, ⟨-, rfl⟩ | ⟨hsign, rfl⟩⟩, -, hlt⟩, hpos⟩
    · -- behind a minus sign there is no positive number
      exact absurd hpos (by omega)
    · obtain ⟨-, hdigits, hvalue⟩ := natural?_eq_some_iff.1 hm
      exact ⟨sign, digits, rfl, hsign, hdigits, congrArg Nat.cast hvalue, by omega, by omega⟩
  · rintro ⟨sign, digits, rfl, hsign, hdigits, hvalue, hpos, hle⟩
    have hne : digits ≠ [] := by
      rintro rfl
      rw [← hvalue] at hpos
      exact absurd hpos (by decide)
    have hm := natural?_eq_some_iff.2 ⟨hne, hdigits, rfl⟩
    exact ⟨⟨⟨sign, digits, _, rfl, hm, .inr ⟨hsign, hvalue.symm⟩⟩, by omega, by omega⟩, by omega⟩

theorem Denotes.ne_nil {token : List Char} {n : Int} (h : Denotes token n) : token ≠ [] := by
  obtain ⟨sign, digits, rfl, -, -, hvalue, hpos, -⟩ := h
  intro hnil
  rw [(List.append_eq_nil_iff.1 hnil).2] at hvalue
  rw [← hvalue] at hpos
  exact absurd hpos (by decide)

theorem Denotes.nonneg {token : List Char} {n : Int} (h : Denotes token n) : 0 ≤ n := by
  obtain ⟨-, -, -, -, -, -, hpos, -⟩ := h
  omega

/-- A numeral has a digit in each place, or a plus sign. -/
theorem Denotes.forall_mem {token : List Char} {n : Int} (h : Denotes token n) :
    ∀ c ∈ token, c.isDigit ∨ c = '+' := by
  obtain ⟨sign, digits, rfl, hsign, hdigits, -⟩ := h
  intro c hc
  rcases List.mem_append.1 hc with hc | hc
  · rcases hsign with rfl | rfl
    · cases hc
    · exact .inr (List.mem_singleton.1 hc)
  · exact .inl (hdigits c hc)

/-- The text of a cell denotes it. -/
theorem denotes_text {n : Int} (hpos : 1 ≤ n) (hle : n ≤ 0x7FFFFFFFFFFFFFFF) :
    Denotes (text n).toList n :=
  positive?_eq_some_iff.1 (positive?_toList_text (by omega) (by omega))

/-- It has no sign. -/
theorem isDigit_of_mem_text {n : Int} {c : Char} (hpos : 1 ≤ n) (hc : c ∈ (text n).toList) :
    c.isDigit := by
  rcases n with n | n
  · exact isDigit_of_mem_repr hc
  · exact absurd hpos (by omega)

end Numeral

/-! ### Tokens -/

namespace Token

/-- A text made up of its maximal pieces without separators: a gap of separators, a piece that is
not empty, and behind it either the end of the text or a separator. -/
inductive Pieces (IsSeparator : Char → Prop) : List Char → List (List Char) → Prop
  | gap {gap : List Char} (hgap : ∀ c ∈ gap, IsSeparator c) : Pieces IsSeparator gap []
  | piece {gap piece rest : List Char} {pieces : List (List Char)}
      (hgap : ∀ c ∈ gap, IsSeparator c) (hne : piece ≠ []) (hfree : ∀ c ∈ piece, ¬ IsSeparator c)
      (hmaximal : ∀ c ∈ rest.head?, IsSeparator c) (hrest : Pieces IsSeparator rest pieces) :
      Pieces IsSeparator (gap ++ piece ++ rest) (piece :: pieces)

variable {isSeparator : Char → Bool} {IsSeparator : Char → Prop} {text : List Char}
  {pieces : List (List Char)}

/-! ### Splitting -/

@[simp]
theorem split_nil : split isSeparator [] = [] :=
  rfl

theorem split_cons_of_separator {c : Char} (hc : isSeparator c) (rest : List Char) :
    split isSeparator (c :: rest) = split isSeparator rest :=
  split_append_cons hc [] rest

/-- Separators in front belong to no token. -/
theorem split_gap_append {gap : List Char} (hgap : ∀ c ∈ gap, isSeparator c) (rest : List Char) :
    split isSeparator (gap ++ rest) = split isSeparator rest := by
  induction gap with
  | nil => rfl
  | cons c gap ih =>
    obtain ⟨hc, hgap⟩ := List.forall_mem_cons.1 hgap
    rw [List.cons_append, split_cons_of_separator hc, ih hgap]

/-- A piece up to a separator or to the end of the text is the first token. -/
theorem split_piece_append {piece rest : List Char} (hne : piece ≠ [])
    (hfree : ∀ c ∈ piece, isSeparator c = false) (hmaximal : ∀ c ∈ rest.head?, isSeparator c) :
    split isSeparator (piece ++ rest) = piece :: split isSeparator rest := by
  rcases rest with - | ⟨c, rest⟩
  · rw [List.append_nil, split_of_forall hne hfree, split_nil]
  · have hc : isSeparator c := hmaximal c rfl
    rw [split_append_cons hc, split_of_forall hne hfree, split_cons_of_separator hc]
    rfl

/-! ### The only division into pieces -/

/-- A separator in front of a text widens its first gap. -/
theorem Pieces.cons_of_separator {c : Char} (hc : IsSeparator c)
    (h : Pieces IsSeparator text pieces) : Pieces IsSeparator (c :: text) pieces := by
  rcases h with hgap | ⟨hgap, hne, hfree, hmaximal, hrest⟩
  · exact .gap (List.forall_mem_cons.2 ⟨hc, hgap⟩)
  · exact .piece (List.forall_mem_cons.2 ⟨hc, hgap⟩) hne hfree hmaximal hrest

/-- A piece may stand at the beginning of a text. -/
theorem Pieces.of_piece {piece rest : List Char} (hne : piece ≠ [])
    (hfree : ∀ c ∈ piece, ¬ IsSeparator c) (hmaximal : ∀ c ∈ rest.head?, IsSeparator c)
    (hrest : Pieces IsSeparator rest pieces) :
    Pieces IsSeparator (piece ++ rest) (piece :: pieces) := by
  show Pieces IsSeparator ([] ++ piece ++ rest) (piece :: pieces)
  exact .piece nofun hne hfree hmaximal hrest

/-- Any other character in front of a text is a piece or belongs to the first one. -/
theorem Pieces.cons_of_not_separator {c : Char} (hc : ¬ IsSeparator c)
    (h : Pieces IsSeparator text pieces) : ∃ pieces, Pieces IsSeparator (c :: text) pieces := by
  have halone : (∀ d ∈ text.head?, IsSeparator d) →
      Pieces IsSeparator (c :: text) ([c] :: pieces) := fun hmaximal ↦
    .of_piece (List.cons_ne_nil c []) (List.forall_mem_singleton.2 hc) hmaximal h
  rcases h with hgap | @⟨gap, piece, rest, later, hgap, hne, hfree, hmaximal, hrest⟩
  · exact ⟨_, halone fun d hd ↦ hgap d (List.mem_of_mem_head? hd)⟩
  · rcases gap with - | ⟨d, gap⟩
    · have hlonger : ∀ d ∈ c :: piece, ¬ IsSeparator d := List.forall_mem_cons.2 ⟨hc, hfree⟩
      exact ⟨_, .of_piece (List.cons_ne_nil c piece) hlonger hmaximal hrest⟩
    · refine ⟨_, halone fun e he ↦ ?_⟩
      obtain rfl : d = e := Option.some.inj he
      exact hgap d List.mem_cons_self

/-- Every text is made up of pieces. -/
theorem exists_pieces (IsSeparator : Char → Prop) (text : List Char) :
    ∃ pieces, Pieces IsSeparator text pieces := by
  induction text with
  | nil => exact ⟨[], .gap nofun⟩
  | cons c rest ih =>
    obtain ⟨pieces, h⟩ := ih
    by_cases hc : IsSeparator c
    · exact ⟨pieces, h.cons_of_separator hc⟩
    · exact h.cons_of_not_separator hc

/-- Pieces are the tokens that splitting comes to. -/
theorem Pieces.eq_split (hseparator : ∀ c, isSeparator c ↔ IsSeparator c)
    (h : Pieces IsSeparator text pieces) : pieces = split isSeparator text := by
  induction h with
  | @gap gap hgap =>
    have hsplit := split_gap_append (fun c hc ↦ (hseparator c).2 (hgap c hc)) []
    rw [List.append_nil] at hsplit
    exact hsplit.symm
  | piece hgap hne hfree hmaximal hrest ih =>
    rw [List.append_assoc, split_gap_append fun c hc ↦ (hseparator c).2 (hgap c hc),
      split_piece_append hne (fun c hc ↦ Bool.eq_false_iff.2 (mt (hseparator c).1 (hfree c hc)))
        fun c hc ↦ (hseparator c).2 (hmaximal c hc), ← ih]

/-- The tokens of a text are its maximal pieces without separators, and there is no other way to
divide it into such. -/
theorem pieces_iff (hseparator : ∀ c, isSeparator c ↔ IsSeparator c) :
    Pieces IsSeparator text pieces ↔ pieces = split isSeparator text := by
  refine ⟨fun h ↦ h.eq_split hseparator, ?_⟩
  rintro rfl
  obtain ⟨pieces, h⟩ := exists_pieces IsSeparator text
  rwa [h.eq_split hseparator] at h

/-! ### Their values -/

/-- The tokens of a text have values exactly if each of them denotes one. -/
theorem values_eq_ok_iff_denotes {values : List Int} :
    Token.values isSeparator text = .ok values ↔
      List.Forall₂ Numeral.Denotes (split isSeparator text) values := by
  rw [values_eq_ok_iff]
  induction split isSeparator text generalizing values with
  | nil =>
    rcases values with - | ⟨n, values⟩
    · exact iff_of_true rfl .nil
    · exact ⟨nofun, nofun⟩
  | cons token rest ih =>
    rcases values with - | ⟨n, values⟩
    · exact ⟨nofun, nofun⟩
    · rw [List.map_cons, List.map_cons, List.cons.injEq, List.forall₂_cons, ih,
        Numeral.positive?_eq_some_iff]

theorem value_eq_error_iff {token : List Char} {cause : ArgumentError} :
    value token = .error cause ↔
      (¬ ∃ n, Numeral.Denotes token n) ∧ cause = .badToken (String.ofList token) := by
  simp only [← Numeral.positive?_eq_some_iff]
  rw [value]
  rcases Numeral.positive? token with - | n <;> simp [eq_comm]

/-- If they do not, the first one that denotes nothing is to blame. -/
theorem values_eq_error_iff {cause : ArgumentError} :
    Token.values isSeparator text = .error cause ↔
      ∃ before token after, split isSeparator text = before ++ token :: after ∧
        (∀ t ∈ before, ∃ n, Numeral.Denotes t n) ∧ (¬ ∃ n, Numeral.Denotes token n) ∧
        cause = .badToken (String.ofList token) := by
  rw [Token.values, Sequence.mapM_eq_error_iff]
  simp only [value_eq_error_iff, value_eq_ok_iff, Numeral.positive?_eq_some_iff]

/-- All tokens have values exactly if each of them denotes a number. -/
theorem exists_values_iff : (∃ values, Token.values isSeparator text = .ok values) ↔
    ∀ token ∈ split isSeparator text, ∃ n, Numeral.Denotes token n := by
  constructor
  · rintro ⟨values, hvalues⟩ token htoken
    have hmem : Numeral.positive? token ∈ values.map some :=
      values_eq_ok_iff.1 hvalues ▸ List.mem_map_of_mem htoken
    obtain ⟨n, -, hn⟩ := List.mem_map.1 hmem
    exact ⟨n, Numeral.positive?_eq_some_iff.1 hn.symm⟩
  · intro h
    rcases hvalues : Token.values isSeparator text with cause | values
    · obtain ⟨before, token, after, htokens, -, hbad, -⟩ := values_eq_error_iff.1 hvalues
      have hmem : token ∈ split isSeparator text :=
        htokens ▸ List.mem_append_right before List.mem_cons_self
      exact absurd (h token hmem) hbad
    · exact ⟨values, rfl⟩

end Token

end TableShell
