/-!
# Splitting at a separator

Texts that are put together with a separator between them are found again by splitting at it, if
none of them has the first character of the separator in it (`split_intercalate`). The separator may
have further characters behind that one.

Splitting goes from position to position: from the beginning of a piece to its end nothing is found,
and there the separator is, or else the end of the text. So what is found from a position on
(`piecesFrom`) depends only on the text behind it, and the induction is on the pieces.
-/

namespace TableShell

namespace Text

open String.Slice String.Slice.Pattern String.Slice.Pattern.Model

variable {separator : String} {mark : Char} {text : String.Slice} {before piece after : String}

/-! ### Single pieces -/

/-- Within a piece that lacks the first character of the separator, the separator is not found. -/
theorem not_matchesAt_of_not_mem (hmark : separator.toList.head? = some mark)
    (hfree : mark ∉ piece.toList) {start stop pos : text.Pos}
    (hstart : start.Splits before (piece ++ after)) (hstop : stop.Splits (before ++ piece) after)
    (hle : start ≤ pos) (hlt : pos < stop) : ¬ MatchesAt separator pos := by
  intro hmatch
  obtain ⟨front, back, hpos⟩ := ForwardStringSearcher.matchesAt_iff_splits.1 hmatch
  obtain ⟨skipped, rfl, -⟩ := (hstart.le_iff_exists_eq_append hpos).1 hle
  obtain ⟨left, hne, hpiece, hback⟩ := (hpos.lt_iff_exists_eq_append hstop).1 hlt
  rw [String.append_assoc, String.append_right_inj] at hpiece
  -- what is left of the piece begins as the separator does
  obtain ⟨c, rest, hleft⟩ := List.exists_cons_of_ne_nil (mt String.toList_eq_nil_iff.1 hne)
  have hhead : some mark = some c := by
    have h := congrArg (List.head? ∘ String.toList) hback
    simpa [hmark, hleft] using h
  refine hfree ?_
  rw [hpiece, String.toList_append, hleft, Option.some.inj hhead]
  exact List.mem_append_right _ List.mem_cons_self

/-- The text between the beginning and the end of a piece is the piece. -/
theorem copy_subslice {start stop : text.Pos} (hstart : start.Splits before (piece ++ after))
    (hstop : stop.Splits (before ++ piece) after) (hle : start ≤ stop) :
    (text.subslice start stop hle).toSlice.copy = piece := by
  obtain ⟨_, hcopy⟩ := String.Slice.copy_slice_eq_iff_splits.2 ⟨before, after, hstart, hstop⟩
  exact hcopy

section Strict

variable [StrictPatternModel separator]

/-- The pieces between the separators from a position on. -/
noncomputable def piecesFrom (separator : String) [StrictPatternModel separator]
    (start : text.Pos) : List String :=
  (Pattern.Model.split separator start start (Std.le_refl start)).map fun piece ↦ piece.toSlice.copy

/-- With no separator left, what is left is one piece. -/
theorem piecesFrom_last (hmark : separator.toList.head? = some mark) (hfree : mark ∉ piece.toList)
    {start : text.Pos} (hstart : start.Splits before piece) :
    piecesFrom separator start = [piece] := by
  have hend : text.endPos.Splits (before ++ piece) "" :=
    String.Slice.splits_endPos_iff.2 ⟨hstart.eq_append.symm, rfl⟩
  have hstart : start.Splits before (piece ++ "") := by rwa [String.append_empty]
  rw [piecesFrom, split_eq_of_not_matchesAt text.endPos (String.Slice.Pos.le_endPos start)
    fun pos hle hlt ↦ not_matchesAt_of_not_mem hmark hfree hstart hend hle hlt, split_endPos]
  exact congrArg (fun piece ↦ [piece]) (copy_subslice hstart hend _)

/-- Otherwise the piece up to the separator comes first, and the others are those behind it. -/
theorem exists_piecesFrom_next (hmark : separator.toList.head? = some mark)
    (hfree : mark ∉ piece.toList) {start : text.Pos}
    (hstart : start.Splits before (piece ++ (separator ++ after))) :
    ∃ next : text.Pos, next.Splits (before ++ piece ++ separator) after ∧
      piecesFrom separator start = piece :: piecesFrom separator next := by
  have hstop := hstart.splits_rotateRight
  have hnext := hstop.splits_rotateRight
  have hle : start ≤ hstart.rotateRight :=
    (hstart.le_iff_exists_eq_append hstop).2 ⟨piece, rfl, rfl⟩
  have hmatch : IsLongestMatchAt separator hstart.rotateRight hstop.rotateRight :=
    ForwardStringSearcher.isLongestMatchAt_iff_splits.2 ⟨_, _, hstop, hnext⟩
  refine ⟨_, hnext, ?_⟩
  rw [piecesFrom, split_eq_of_not_matchesAt hstart.rotateRight hle fun pos hle hlt ↦
    not_matchesAt_of_not_mem hmark hfree hstart hstop hle hlt,
    split_eq_of_isLongestMatchAt hmatch, List.map_cons]
  exact congrArg (· :: piecesFrom separator _) (copy_subslice hstart hstop _)

/-! ### Any number of pieces -/

theorem piecesFrom_intercalate (hmark : separator.toList.head? = some mark) {pieces : List String}
    (hne : pieces ≠ []) (hfree : ∀ piece ∈ pieces, mark ∉ piece.toList) {start : text.Pos}
    (hstart : start.Splits before (separator.intercalate pieces)) :
    piecesFrom separator start = pieces := by
  induction pieces generalizing before start with
  | nil => exact absurd rfl hne
  | cons piece rest ih =>
    obtain ⟨hpiece, hrest⟩ := List.forall_mem_cons.1 hfree
    cases rest with
    | nil =>
      rw [String.intercalate_singleton] at hstart
      exact piecesFrom_last hmark hpiece hstart
    | cons other rest =>
      rw [String.intercalate_cons_cons, String.append_assoc] at hstart
      obtain ⟨next, hnext, hpieces⟩ := exists_piecesFrom_next hmark hpiece hstart
      rw [hpieces, ih (List.cons_ne_nil other rest) hrest hnext]

end Strict

/-- Texts that are put together with a separator between them are found again. -/
theorem split_intercalate (hmark : separator.toList.head? = some mark) {pieces : List String}
    (hne : pieces ≠ []) (hfree : ∀ piece ∈ pieces, mark ∉ piece.toList) :
    ((separator.intercalate pieces).split separator).toList.map String.Slice.copy = pieces := by
  have hseparator : separator ≠ "" := by
    rintro rfl
    cases hmark
  have hstrict := ForwardStringSearcher.strictPatternModel hseparator
  have hlawful := ForwardStringSearcher.lawfulToForwardSearcherModel hseparator
  rw [String.split_eq_split_toSlice, toList_split_eq_splitToSubslice, List.map_map,
    toList_splitToSubslice_eq_modelSplit]
  refine piecesFrom_intercalate hmark hne hfree (String.Slice.splits_startPos_iff.2 ⟨rfl, ?_⟩)
  exact String.copy_toSlice.symm

end Text

end TableShell
