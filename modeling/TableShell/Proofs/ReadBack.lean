import TableShell.Proofs.Excess
import TableShell.Proofs.Reading
import TableShell.Proofs.Shown

/-!
# Reading a row back

The text of a row, typed in behind an `a`, is read as that row. On the way the blanks are taken out
of it, which leaves the values with commas between them (`Row.split_solid_text`), and each value is
read back from its own text.

A length limit costs nothing as long as it leaves room for the characters that are no blanks, and
no blank stands at the end (`Entry.strip_of_fits`): once there is no more room every character is in
excess, so it matters that the last one takes the last place.
-/

namespace TableShell

/-- A digit is no blank. -/
theorem Text.isBlank_of_isDigit {c : Char} (h : c.isDigit) : isBlank c = false := by
  simp only [Char.isDigit, Bool.and_eq_true, decide_eq_true_eq, ge_iff_le,
    UInt32.le_iff_toNat_le] at h
  have hrange : 48 ≤ c.toNat ∧ c.toNat ≤ 57 := h
  simp only [isBlank, blankRanges, List.any_cons, List.any_nil, Bool.or_false, Bool.or_eq_false_iff,
    Bool.and_eq_false_iff, decide_eq_false_iff_not]
  omega

/-! ### The text of a row -/

namespace Numeral

/-- The text of an integer has neither blanks nor commas in it. -/
theorem solid_of_mem_text {n : Int} {c : Char} (hc : c ∈ (text n).toList) :
    Text.isBlank c = false ∧ (c == ',') = false := by
  rcases forall_mem_text n c hc with hdigit | rfl
  · refine ⟨Text.isBlank_of_isDigit hdigit, ?_⟩
    rw [beq_eq_false_iff_ne]
    rintro rfl
    exact absurd hdigit (by decide)
  · decide

theorem toList_text_ne_nil (n : Int) : (text n).toList ≠ [] := by
  intro h
  have hread := signed?_toList_text n
  rw [h] at hread
  cases hread

end Numeral

namespace Row

variable {row : Row}

/-- The text of a row with further values behind the first. -/
theorem toList_text_cons (n : Int) (hne : row ≠ []) :
    (Row.text (n :: row)).toList = (Numeral.text n).toList ++ ',' :: ' ' :: row.text.toList := by
  have hrest : row.map Numeral.text ≠ [] := mt List.map_eq_nil_iff.1 hne
  rw [text, List.map_cons, String.intercalate_cons_of_ne_nil hrest, String.toList_append,
    String.toList_append, List.append_assoc]
  rfl

theorem toList_text_singleton (n : Int) : (Row.text [n]).toList = (Numeral.text n).toList := by
  rw [text, List.map_singleton, String.intercalate_singleton]

theorem toList_text_ne_nil (hne : row ≠ []) : row.text.toList ≠ [] := by
  cases row with
  | nil => exact absurd rfl hne
  | cons n rest =>
    by_cases hrest : rest = []
    · rw [hrest, toList_text_singleton]
      exact Numeral.toList_text_ne_nil n
    · rw [toList_text_cons n hrest]
      exact List.append_ne_nil_of_right_ne_nil _ (List.cons_ne_nil _ _)

/-- Without blanks, the text of a row has the texts of its values for tokens. -/
theorem split_solid_text (row : Row) :
    Token.split (· == ',') (Text.solid row.text.toList) =
      row.map fun n ↦ (Numeral.text n).toList := by
  have hvalue : ∀ n : Int, Text.solid (Numeral.text n).toList = (Numeral.text n).toList ∧
      Token.split (· == ',') (Numeral.text n).toList = [(Numeral.text n).toList] := fun n ↦
    ⟨Text.solid_eq_self fun c hc ↦ (Numeral.solid_of_mem_text hc).1,
      Token.split_of_forall (Numeral.toList_text_ne_nil n) fun c hc ↦
        (Numeral.solid_of_mem_text hc).2⟩
  induction row with
  | nil => rfl
  | cons n rest ih =>
    obtain ⟨hsolid, hsplit⟩ := hvalue n
    by_cases hrest : rest = []
    · rw [hrest, toList_text_singleton, hsolid, hsplit]
      rfl
    · have hcomma : Text.solid (',' :: ' ' :: (Row.text rest).toList) =
          ',' :: Text.solid (Row.text rest).toList := by
        rw [Text.solid_cons_of_not_isBlank (by decide), Text.solid_cons_of_isBlank (by decide)]
      rw [toList_text_cons n hrest, Text.solid_append, hsolid, hcomma,
        Token.split_append_cons (by decide), hsplit, ih]
      rfl

/-- There is no blank at the end of the text of a row. -/
theorem isBlank_of_mem_getLast?_text {c : Char} (hc : c ∈ row.text.toList.getLast?) :
    Text.isBlank c = false := by
  induction row with
  | nil => cases hc
  | cons n rest ih =>
    by_cases hrest : rest = []
    · rw [hrest, toList_text_singleton] at hc
      exact (Numeral.solid_of_mem_text (List.mem_of_getLast? hc)).1
    · -- the end of the text is that of the text of the rest, which is not empty
      obtain ⟨d, hd⟩ := Option.isSome_iff_exists.1
        (List.getLast?_isSome.2 (toList_text_ne_nil hrest))
      rw [toList_text_cons n hrest, List.getLast?_append, List.getLast?_cons, List.getLast?_cons,
        hd] at hc
      exact ih (hd.trans hc)

end Row

/-! ### Reading it back -/

/-- The text of a row, typed in behind an `a`, comes through a length limit that leaves room for
it without its blanks. -/
theorem Entry.strip_row {row : Row} {limit : Nat}
    (hfits : (Text.solid ('a' :: row.text.toList)).length ≤ limit) :
    Entry.strip limit ('a' :: row.text.toList) =
      ⟨String.ofList ('a' :: Text.solid row.text.toList), 0⟩ := by
  have hlast : ∀ c ∈ ('a' :: row.text.toList).getLast?, Text.isBlank c = false := by
    intro c hc
    cases hend : row.text.toList.getLast? with
    | none =>
      rw [List.getLast?_cons, hend] at hc
      obtain rfl := Option.some.inj hc
      decide
    | some d =>
      rw [List.getLast?_cons, hend] at hc
      obtain rfl := Option.some.inj hc
      exact Row.isBlank_of_mem_getLast?_text hend
  rw [Entry.strip_of_fits hfits hlast, Text.solid_cons_of_not_isBlank (by decide)]

/-- Without its blanks, and behind an `a`, the text of a row that has values is read as that row to
add. -/
theorem Command.readLine_row {row : Row} (hne : row ≠ [])
    (hcells : ∀ n ∈ row, 1 ≤ n ∧ n ≤ 0x7FFFFFFFFFFFFFFF) (caps : Caps) :
    readLine caps ('a' :: Text.solid row.text.toList) =
      .ok [.add ⟨row.take caps.row, row.length⟩] := by
  refine readLine_eq_add_iff.2 ⟨_, row, rfl, fun hpipe ↦ ?_, hne, ?_, rfl⟩
  · have hmem := Row.forall_mem_text row '|' (List.mem_filter.1 hpipe).1
    exact absurd hmem (by decide)
  · rw [Row.split_solid_text, List.map_map]
    refine List.map_congr_left fun n hn ↦ ?_
    obtain ⟨hpos, hle⟩ := hcells n hn
    exact Numeral.positive?_toList_text (by omega) (by omega)

end TableShell
