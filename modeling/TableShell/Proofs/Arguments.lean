import Mathlib.Data.List.Forall2
import TableShell.Proofs.Tokens

/-!
# What arguments are

The two readers of arguments against the grammars that they are for. A list is its tokens, however
many of them are kept (`IntegerList.list_exact`); a condition is two tokens with signs between them
and perhaps around them (`Condition.condition_exact`). Every text is settled: it is in the grammar
and has the value that the grammar gives it, or it is not and the error says why.

The reader of conditions looks for signs twice, once to divide the text and once more for the
relation. That both find the same signs is what `Condition.Division.findSome?_eq` is about; it
leaves no text with two tokens and no relation.
-/

namespace TableShell

/-! ### Lists -/

namespace Token

/-- Tokens that are put together with separators between them are found again. -/
theorem split_intercalate {separator : Char} {tokens : List (List Char)} (hne : tokens ≠ [])
    (h : ∀ token ∈ tokens, token ≠ [] ∧ separator ∉ token) :
    split (· == separator) ([separator].intercalate tokens) = tokens := by
  have hpieces : ([separator].intercalate tokens).splitOnP (· == separator) = tokens := by
    rw [← List.splitOn_eq_splitOnP]
    exact List.splitOn_intercalate separator (fun token htoken ↦ (h token htoken).2) hne
  rw [split, hpieces]
  exact List.filter_eq_self.2 fun token htoken ↦ by simpa using (h token htoken).1

end Token

namespace IntegerList

variable {separator : Char} {cap : Nat} {text : List Char}

/-- If all tokens have values, and there are any, the list is made of them. -/
theorem read_of_values {values : List Int} (hne : values ≠ [])
    (hvalues : Token.values (· == separator) text = .ok values) :
    read separator cap text = .ok ⟨values.take cap, values.length⟩ := by
  rw [read, hvalues]
  exact if_neg (by simpa using hne)

/-- A list fails to be read if a token has no value, or else if there are no tokens. -/
theorem read_eq_error_iff {cause : ArgumentError} :
    read separator cap text = .error cause ↔
      Token.values (· == separator) text = .error cause ∨
        Token.values (· == separator) text = .ok [] ∧ cause = .noValues := by
  rw [read, Sequence.bind_eq_error_iff]
  refine or_congr_right ⟨?_, ?_⟩
  · rintro ⟨values, hvalues, h⟩
    rcases values with - | ⟨n, values⟩
    · exact ⟨hvalues, (Except.error.inj h).symm⟩
    · cases h
  · rintro ⟨hvalues, rfl⟩
    exact ⟨[], hvalues, rfl⟩

/-- Cells that are written one after the other, with separators between them that are no digits,
are the values of that text. -/
theorem values_text {values : List Int} (hne : values ≠ [])
    (hcells : ∀ n ∈ values, 1 ≤ n ∧ n ≤ 0x7FFFFFFFFFFFFFFF) (hseparator : ¬ separator.isDigit) :
    Token.values (· == separator)
      (separator.toString.intercalate (values.map Numeral.text)).toList = .ok values := by
  have hdenotes : ∀ n ∈ values, Numeral.Denotes (Numeral.text n).toList n := fun n hn ↦
    Numeral.denotes_text (hcells n hn).1 (hcells n hn).2
  have htext : (separator.toString.intercalate (values.map Numeral.text)).toList =
      [separator].intercalate (values.map fun n ↦ (Numeral.text n).toList) := by
    rw [String.toList_intercalate, List.map_map, Char.toString, String.toList_singleton]
    rfl
  have hsplit : Token.split (· == separator)
      ([separator].intercalate (values.map fun n ↦ (Numeral.text n).toList)) =
        values.map fun n ↦ (Numeral.text n).toList := by
    refine Token.split_intercalate (mt List.map_eq_nil_iff.1 hne) fun token htoken ↦ ?_
    obtain ⟨n, hn, rfl⟩ := List.mem_map.1 htoken
    refine ⟨(hdenotes n hn).ne_nil, fun hmem ↦ ?_⟩
    exact hseparator (Numeral.isDigit_of_mem_text (hcells n hn).1 hmem)
  rw [htext, Token.values_eq_ok_iff_denotes, hsplit, List.forall₂_map_left_iff]
  exact List.forall₂_same.2 hdenotes

/-- Reading a list comes out in one of three ways, and the tokens decide which. Without tokens there
are no values; the first token that denotes nothing is an error, wherever it stands; and if each of
them denotes a number, these are the values, of which the first ones up to the cap are kept and all
are counted. The text of a list of cells, with separators that are no digits, is read as that
list. -/
theorem list_exact (separator : Char) (cap : Nat) (text : List Char) :
    (∃ tokens, (∀ others, Token.Pieces (· = separator) text others ↔ others = tokens) ∧
      (tokens = [] → read separator cap text = .error .noValues) ∧
      (∀ before token after, tokens = before ++ token :: after →
        (∀ t ∈ before, ∃ n, Numeral.Denotes t n) → (¬ ∃ n, Numeral.Denotes token n) →
        read separator cap text = .error (.badToken (String.ofList token))) ∧
      (tokens ≠ [] → (∀ t ∈ tokens, ∃ n, Numeral.Denotes t n) →
        ∃ values list, List.Forall₂ Numeral.Denotes tokens values ∧
          read separator cap text = .ok list ∧ list.total = tokens.length ∧
          list.values = values.take (min tokens.length cap) ∧
          (list.isCut ↔ cap < tokens.length))) ∧
    ∀ values : List Int, values ≠ [] → (∀ n ∈ values, 1 ≤ n ∧ n ≤ 0x7FFFFFFFFFFFFFFF) →
      ¬ separator.isDigit →
      read separator cap (separator.toString.intercalate (values.map Numeral.text)).toList =
        .ok ⟨values.take cap, values.length⟩ := by
  refine ⟨⟨Token.split (· == separator) text, fun others ↦ Token.pieces_iff fun c ↦ beq_iff_eq,
    fun hnil ↦ ?_, fun before token after htokens hbefore hbad ↦ ?_, fun hne hgood ↦ ?_⟩,
    fun values hne hcells hseparator ↦ read_of_values hne (values_text hne hcells hseparator)⟩
  · refine read_eq_error_iff.2 (.inr ⟨Token.values_eq_ok_iff_denotes.2 ?_, rfl⟩)
    rw [hnil]
    exact .nil
  · exact read_eq_error_iff.2
      (.inl (Token.values_eq_error_iff.2 ⟨before, token, after, htokens, hbefore, hbad, rfl⟩))
  · obtain ⟨values, hread⟩ := Token.exists_values_iff.2 hgood
    have hvalues := Token.values_eq_ok_iff_denotes.1 hread
    have hlength := hvalues.length_eq
    have hvaluesNe : values ≠ [] := by
      rintro rfl
      exact hne (List.length_eq_zero_iff.1 hlength)
    refine ⟨values, _, hvalues, read_of_values hvaluesNe hread, hlength.symm, ?_, ?_⟩
    · rw [hlength, Nat.min_comm, ← List.take_take, List.take_length]
    · rw [isCut, decide_eq_true_iff, List.length_take, hlength]
      show min cap values.length < values.length ↔ _
      omega

/-- Cells with plus signs between them, and a number that is one too great behind a first token and
before a second bad one. -/
theorem list_exact_first_bad_token :
    read '+' 2 "7+9223372036854775807+5".toList = .ok ⟨[7, 9223372036854775807], 3⟩ ∧
      read ',' 1 ",+007,,9223372036854775808,x".toList =
        .error (.badToken "9223372036854775808") := by
  constructor
  · have hread := (list_exact '+' 2 []).2 [7, 9223372036854775807, 5] (by decide) (by decide)
      (by decide)
    have htext : ('+'.toString.intercalate
        (([7, 9223372036854775807, 5] : List Int).map Numeral.text)).toList =
          "7+9223372036854775807+5".toList := by
      decide +kernel
    rwa [htext] at hread
  · obtain ⟨⟨tokens, hpieces, -, hbad, -⟩, -⟩ :=
      list_exact ',' 1 ",+007,,9223372036854775808,x".toList
    have htokens : ["+007".toList, "9223372036854775808".toList, "x".toList] = tokens :=
      (hpieces _).1 ((Token.pieces_iff fun c ↦ beq_iff_eq).2 (by decide +kernel))
    refine hbad ["+007".toList] "9223372036854775808".toList ["x".toList] htokens.symm ?_ ?_
    · exact List.forall_mem_singleton.2 ⟨7, Numeral.positive?_eq_some_iff.1 (by decide +kernel)⟩
    · rintro ⟨n, hn⟩
      have hnone : Numeral.positive? "9223372036854775808".toList = none := by decide +kernel
      rw [Numeral.positive?_eq_some_iff.2 hn] at hnone
      cases hnone

end IntegerList

/-! ### Conditions -/

/-- The signs of relations. -/
def IsSign (c : Char) : Prop :=
  c ∈ ['<', '>', '=']

instance : DecidablePred IsSign :=
  fun c ↦ inferInstanceAs (Decidable (c ∈ ['<', '>', '=']))

namespace Relation

/-- The signs of relations are those that are listed. -/
theorem isSome_ofSign?_iff {c : Char} : (ofSign? c).isSome ↔ IsSign c := by
  rw [Option.isSome_iff_exists]
  constructor
  · rintro ⟨relation, h⟩
    rw [ofSign?_eq_some_iff.1 h]
    rcases relation <;> decide
  · intro h
    rcases List.mem_cons.1 h with rfl | h
    · exact ⟨.less, rfl⟩
    · rcases List.mem_cons.1 h with rfl | h
      · exact ⟨.greater, rfl⟩
      · obtain rfl := List.mem_singleton.1 h
        exact ⟨.equal, rfl⟩

/-- A sign is read as the relation that it stands for. -/
theorem exists_of_isSign {c : Char} (h : IsSign c) :
    ∃ relation : Relation, c = relation.sign ∧ ofSign? c = some relation := by
  obtain ⟨relation, hrelation⟩ := Option.isSome_iff_exists.1 (isSome_ofSign?_iff.2 h)
  exact ⟨relation, ofSign?_eq_some_iff.1 hrelation, hrelation⟩

end Relation

/-- There is no sign in a numeral. -/
theorem Numeral.Denotes.not_isSign {token : List Char} {n : Int} (h : Denotes token n) :
    ∀ c ∈ token, ¬ IsSign c := by
  intro c hc hsign
  obtain ⟨relation, rfl, -⟩ := Relation.exists_of_isSign hsign
  have hplace := h.forall_mem _ hc
  rcases relation <;> exact absurd hplace (by decide)

namespace Condition

/-- A text in the form of a condition: two numerals with signs between them, and perhaps signs
before them and after them. -/
structure Division (text before left between right after : List Char) (column value : Int) :
    Prop where
  text_eq : text = before ++ left ++ between ++ right ++ after
  signs : ∀ c ∈ before ++ between ++ after, IsSign c
  between_ne_nil : between ≠ []
  left_denotes : Numeral.Denotes left column
  right_denotes : Numeral.Denotes right value

variable {text before left between right after : List Char} {column value : Int}

/-! ### Divisions -/

namespace Division

/-- The numerals of a division are the tokens of the text. -/
theorem split_eq (h : Division text before left between right after column value) :
    Token.split (fun c ↦ (Relation.ofSign? c).isSome) text = [left, right] := by
  obtain ⟨rfl, hsigns, hbetween, hleft, hright⟩ := h
  simp only [List.mem_append, or_imp, forall_and] at hsigns
  obtain ⟨⟨hbefore, hmiddle⟩, hafter⟩ := hsigns
  have hlast : Token.Pieces IsSign (between ++ right ++ after) [right] :=
    .piece hmiddle hright.ne_nil hright.not_isSign
      (fun c hc ↦ hafter c (List.mem_of_mem_head? hc)) (.gap hafter)
  have hboth : Token.Pieces IsSign (before ++ left ++ (between ++ right ++ after))
      [left, right] := by
    refine .piece hbefore hleft.ne_nil hleft.not_isSign (fun c hc ↦ ?_) hlast
    obtain ⟨d, between, rfl⟩ := List.exists_cons_of_ne_nil hbetween
    obtain rfl : d = c := Option.some.inj hc
    exact hmiddle d List.mem_cons_self
  have hsplit := hboth.eq_split fun c ↦ Relation.isSome_ofSign?_iff
  rw [hsplit]
  simp only [List.append_assoc]

/-- The first sign is the one with which the first gap begins, or else the second one. -/
theorem findSome?_eq (h : Division text before left between right after column value) :
    ∃ relation : Relation, (before ++ between).head? = some relation.sign ∧
      text.findSome? Relation.ofSign? = some relation := by
  obtain ⟨rfl, hsigns, hbetween, hleft, -⟩ := h
  have hfirst : ∀ c rest, IsSign c → ∃ relation : Relation, c = relation.sign ∧
      (c :: rest).findSome? Relation.ofSign? = some relation := by
    intro c rest hc
    obtain ⟨relation, hsign, hrelation⟩ := Relation.exists_of_isSign hc
    exact ⟨relation, hsign, by rw [List.findSome?_cons, hrelation]⟩
  rcases before with - | ⟨c, before⟩
  · -- there is no sign in the first numeral
    obtain ⟨c, between, rfl⟩ := List.exists_cons_of_ne_nil hbetween
    obtain ⟨relation, rfl, hfound⟩ := hfirst c (between ++ right ++ after) (hsigns c (by simp))
    refine ⟨relation, rfl, ?_⟩
    have hnone : left.findSome? Relation.ofSign? = none :=
      List.findSome?_eq_none_iff.2 fun c hc ↦ Option.not_isSome_iff_eq_none.1 fun hsome ↦
        hleft.not_isSign c hc (Relation.isSome_ofSign?_iff.1 hsome)
    rw [List.nil_append, List.append_assoc, List.append_assoc, List.findSome?_append, hnone,
      Option.none_or]
    simpa using hfound
  · obtain ⟨relation, rfl, hfound⟩ :=
      hfirst c (before ++ left ++ between ++ right ++ after) (hsigns c (by simp))
    exact ⟨relation, rfl, hfound⟩

end Division

/-- A text with two tokens that denote numbers is divided by them. -/
theorem exists_division
    (h : Token.values (fun c ↦ (Relation.ofSign? c).isSome) text = .ok [column, value]) :
    ∃ before left between right after,
      Division text before left between right after column value := by
  have hdenotes := Token.values_eq_ok_iff_denotes.1 h
  generalize htokens : Token.split (fun c ↦ (Relation.ofSign? c).isSome) text = tokens at hdenotes
  obtain ⟨left, right, rfl, hleft, hright⟩ : ∃ left right, tokens = [left, right] ∧
      Numeral.Denotes left column ∧ Numeral.Denotes right value := by
    rcases hdenotes with - | ⟨hleft, - | ⟨hright, ⟨⟩⟩⟩
    exact ⟨_, _, rfl, hleft, hright⟩
  have hpieces : Token.Pieces IsSign text [left, right] :=
    (Token.pieces_iff fun c ↦ Relation.isSome_ofSign?_iff).2 htokens.symm
  rcases hpieces with - | @⟨before, _, rest, _, hbefore, -, -, hmaximal, hrest⟩
  rcases hrest with - | @⟨between, _, after, _, hbetween, -, -, -, hend⟩
  obtain ⟨hafter⟩ := hend
  refine ⟨before, left, between, right, after, ?_, ?_, ?_, hleft, hright⟩
  · simp only [List.append_assoc]
  · simp only [List.mem_append, or_imp, forall_and]
    exact ⟨⟨hbefore, hbetween⟩, hafter⟩
  · -- behind the first token there is a sign, and with it the second one cannot begin
    rintro rfl
    obtain ⟨c, right, rfl⟩ := List.exists_cons_of_ne_nil hright.ne_nil
    exact hright.not_isSign c List.mem_cons_self (hmaximal c rfl)

/-! ### Reading -/

/-- Two tokens with values and a sign make a condition. -/
theorem read_of_values {relation : Relation}
    (hvalues : Token.values (fun c ↦ (Relation.ofSign? c).isSome) text = .ok [column, value])
    (hfound : text.findSome? Relation.ofSign? = some relation) :
    read text = .ok ⟨column.toNat, relation, value⟩ := by
  rw [read, hvalues]
  dsimp only [bind, Except.bind]
  rw [hfound]

/-- A text in the form of a condition is read as the condition that it writes. -/
theorem Division.read_eq (h : Division text before left between right after column value) :
    ∃ relation : Relation, (before ++ between).head? = some relation.sign ∧
      read text = .ok ⟨column.toNat, relation, value⟩ := by
  obtain ⟨relation, hhead, hfound⟩ := h.findSome?_eq
  have hvalues : Token.values (fun c ↦ (Relation.ofSign? c).isSome) text =
      .ok [column, value] := by
    rw [Token.values_eq_ok_iff_denotes, h.split_eq]
    exact .cons h.left_denotes (.cons h.right_denotes .nil)
  exact ⟨relation, hhead, read_of_values hvalues hfound⟩

/-- What can be read is in the form of a condition. -/
theorem exists_division_of_read {condition : Condition} (h : read text = .ok condition) :
    ∃ before left between right after column value,
      Division text before left between right after column value := by
  obtain ⟨values, hvalues, h⟩ := Sequence.bind_eq_ok_iff.1 h
  split at h
  · obtain ⟨before, left, between, right, after, hdivision⟩ := exists_division hvalues
    exact ⟨_, _, _, _, _, _, _, hdivision⟩
  · cases h

/-- A condition fails to be read if a token has no value, or else if there are not two of them. -/
theorem read_eq_error_iff {cause : ArgumentError} :
    read text = .error cause ↔
      Token.values (fun c ↦ (Relation.ofSign? c).isSome) text = .error cause ∨
        ∃ values, Token.values (fun c ↦ (Relation.ofSign? c).isSome) text = .ok values ∧
          values.length ≠ 2 ∧ cause = .wrongCount values.length := by
  constructor
  · intro h
    refine (Sequence.bind_eq_error_iff.1 h).imp_right ?_
    rintro ⟨values, hvalues, hrest⟩
    refine ⟨values, hvalues, ?_⟩
    split at hrest
    · -- two tokens with values have a sign between them
      obtain ⟨before, left, between, right, after, hdivision⟩ := exists_division hvalues
      obtain ⟨relation, -, hread⟩ := hdivision.read_eq
      exact absurd (hread.symm.trans h) nofun
    · rename_i hpair
      refine ⟨fun hlength ↦ ?_, (Except.error.inj hrest).symm⟩
      obtain ⟨column, value, rfl⟩ := List.length_eq_two.1 hlength
      exact hpair column value rfl
  · rintro (h | ⟨values, hvalues, hlength, rfl⟩)
    · exact Sequence.bind_eq_error_iff.2 (.inl h)
    · refine Sequence.bind_eq_error_iff.2 (.inr ⟨values, hvalues, ?_⟩)
      split
      · exact absurd rfl hlength
      · rfl

/-- A text can be read exactly if it is in the form of a condition. The column and the value are
then those of its two numerals, and the relation is that of its first sign. Any other text has an
error: the first of its tokens that denotes no number, however many tokens there are, or else their
number, which is not two. -/
theorem condition_exact (text : List Char) :
    ((∃ condition, read text = .ok condition) ↔
      ∃ before left between right after column value,
        Division text before left between right after column value) ∧
    (∀ before left between right after column value,
      Division text before left between right after column value →
        ∃ condition, read text = .ok condition ∧ (condition.column : Int) = column ∧
          condition.value = value ∧ (before ++ between).head? = some condition.relation.sign) ∧
    ∃ tokens, (∀ others, Token.Pieces IsSign text others ↔ others = tokens) ∧
      ∀ cause, read text = .error cause ↔
        (∃ before token after, tokens = before ++ token :: after ∧
          (∀ t ∈ before, ∃ n, Numeral.Denotes t n) ∧ (¬ ∃ n, Numeral.Denotes token n) ∧
          cause = .badToken (String.ofList token)) ∨
        (∀ t ∈ tokens, ∃ n, Numeral.Denotes t n) ∧ tokens.length ≠ 2 ∧
          cause = .wrongCount tokens.length := by
  refine ⟨⟨fun ⟨condition, h⟩ ↦ exists_division_of_read h, ?_⟩, ?_,
    Token.split (fun c ↦ (Relation.ofSign? c).isSome) text,
    fun others ↦ Token.pieces_iff fun c ↦ Relation.isSome_ofSign?_iff, fun cause ↦ ?_⟩
  · rintro ⟨before, left, between, right, after, column, value, h⟩
    obtain ⟨relation, -, hread⟩ := h.read_eq
    exact ⟨_, hread⟩
  · intro before left between right after column value h
    obtain ⟨relation, hhead, hread⟩ := h.read_eq
    obtain ⟨-, -, -, -, -, -, hpos, -⟩ := h.left_denotes
    exact ⟨_, hread, Int.toNat_of_nonneg (by omega), rfl, hhead⟩
  · rw [read_eq_error_iff, Token.values_eq_error_iff]
    refine or_congr_right ⟨?_, ?_⟩
    · rintro ⟨values, hvalues, hlength, rfl⟩
      have hsame := (Token.values_eq_ok_iff_denotes.1 hvalues).length_eq
      exact ⟨Token.exists_values_iff.1 ⟨values, hvalues⟩, hsame ▸ hlength, by rw [hsame]⟩
    · rintro ⟨hgood, hlength, rfl⟩
      obtain ⟨values, hvalues⟩ := Token.exists_values_iff.2 hgood
      have hsame := (Token.values_eq_ok_iff_denotes.1 hvalues).length_eq
      exact ⟨values, hvalues, hsame ▸ hlength, by rw [hsame]⟩

/-- Signs before, between and after two numerals; the relation is that of the first of them. -/
theorem condition_exact_many_signs :
    Division "<2>=007>".toList ['<'] ['2'] ['>', '='] ['0', '0', '7'] ['>'] 2 7 ∧
      ∃ condition, read "<2>=007>".toList = .ok condition ∧ condition = ⟨2, .less, 7⟩ := by
  have hdivision :
      Division "<2>=007>".toList ['<'] ['2'] ['>', '='] ['0', '0', '7'] ['>'] 2 7 :=
    ⟨by decide +kernel, by simp [IsSign], List.cons_ne_nil _ _,
      Numeral.positive?_eq_some_iff.1 (by decide +kernel),
      Numeral.positive?_eq_some_iff.1 (by decide +kernel)⟩
  obtain ⟨⟨column, relation, value⟩, hread, hcolumn, rfl, hhead⟩ :=
    (condition_exact "<2>=007>".toList).2.1 _ _ _ _ _ _ _ hdivision
  obtain rfl : column = 2 := by
    dsimp only at hcolumn
    omega
  refine ⟨hdivision, _, hread, ?_⟩
  rcases relation
  · rfl
  · exact absurd hhead (by decide)
  · exact absurd hhead (by decide)

end Condition

end TableShell
