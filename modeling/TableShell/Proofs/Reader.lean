import TableShell.Proofs.Text.Utf8
import TableShell.Reader

/-!
# Lines one after the other

A reader takes from the input the lines that the whole input is cut into: nothing is left to read
exactly if there is no line, and else what it takes is the first line, and the lines of what is left
are the others (`next?_eq_some`). What is left gets shorter each time, so a reader comes to an end,
and what holds of it can be shown entry by entry (`entries_induction`).

A reader finds the line feed among the bytes, but drops it from the characters. That these are the
same line feed is a matter of the encoding (`Utf8.decode_append_lineFeed`).
-/

namespace TableShell

namespace Entry

variable {c : Char} {chars kept : List Char} {input line : List UInt8}

/-! ### What is dropped from the end -/

theorem dropEnd_append_singleton (c : Char) (chars : List Char) :
    dropEnd c (chars ++ [c]) = chars := by
  rw [dropEnd, List.getLast?_append, List.dropLast_concat]
  exact if_pos rfl

theorem dropEnd_of_forall_ne (h : ∀ front, chars ≠ front ++ [c]) : dropEnd c chars = chars :=
  if_neg fun hlast ↦
    have ⟨front, hfront⟩ := List.getLast?_eq_some_iff.1 hlast
    h front hfront

theorem dropEnd_of_not_mem (h : c ∉ chars) : dropEnd c chars = chars :=
  dropEnd_of_forall_ne fun _ hfront ↦ h (hfront ▸ List.mem_concat_self)

/-- What ends with the character loses that one, and nothing else changes. -/
theorem dropEnd_eq_iff :
    dropEnd c chars = kept ↔
      chars = kept ++ [c] ∨ kept = chars ∧ ∀ front, chars ≠ front ++ [c] := by
  by_cases hends : ∃ front, chars = front ++ [c]
  · obtain ⟨front, rfl⟩ := hends
    rw [dropEnd_append_singleton, List.append_left_inj]
    exact ⟨.inl, fun h ↦ h.resolve_right fun hnot ↦ hnot.2 front rfl⟩
  · have hnot : ∀ front, chars ≠ front ++ [c] := not_exists.1 hends
    rw [dropEnd_of_forall_ne hnot]
    exact ⟨fun h ↦ .inr ⟨h.symm, hnot⟩, fun h ↦ (h.resolve_left (hnot kept)).1.symm⟩

/-- One carriage return is dropped, if a line ends with it. -/
theorem dropReturn_eq_iff :
    dropReturn chars = kept ↔
      chars = kept ++ ['\r'] ∨ kept = chars ∧ ∀ front, chars ≠ front ++ ['\r'] :=
  dropEnd_eq_iff

/-! ### The lines of the input -/

/-- Input without a line feed is a line, unless it is empty. -/
theorem pieces_of_not_mem (hne : line ≠ []) (h : lineFeed ∉ line) : pieces line = [line] := by
  rw [pieces, List.splitOn_eq_singleton h]
  exact if_neg fun hlast ↦ hne (Option.some.inj hlast)

/-- A line feed divides a line from those behind it. -/
theorem pieces_append_cons (h : lineFeed ∉ line) (rest : List UInt8) :
    pieces (line ++ lineFeed :: rest) = line :: pieces rest := by
  have hne : rest.splitOn lineFeed ≠ [] := List.splitOnP_ne_nil _ rest
  rw [pieces, pieces, List.splitOn_append_cons_self_of_not_mem h, List.getLast?_cons_of_ne_nil hne]
  split
  · rw [List.dropLast_cons_of_ne_nil hne]
  · rfl

/-- What stands in front of other input and ends with a line feed has the lines it has alone. -/
theorem pieces_append (h : input = [] ∨ input.getLast? = some lineFeed) (more : List UInt8) :
    pieces (input ++ more) = pieces input ++ pieces more := by
  induction input using Text.Utf8.lines_induction with
  | last line hline =>
    rcases h with rfl | hlast
    · rfl
    · exact absurd (List.mem_of_getLast? hlast) hline
  | cons line rest hline ih =>
    have hrest : rest = [] ∨ rest.getLast? = some lineFeed := by
      rcases h with hnil | hlast
      · exact absurd hnil (List.append_ne_nil_of_right_ne_nil _ (List.cons_ne_nil _ _))
      · rcases rest with - | ⟨byte, rest⟩
        · exact .inl rfl
        · rw [List.getLast?_append_cons] at hlast
          exact .inr hlast
    rw [List.append_assoc, List.cons_append, pieces_append_cons hline, pieces_append_cons hline,
      ih hrest, List.cons_append]

end Entry

namespace Reader

variable {input line : List UInt8} {limit : Nat}

/-! ### One line -/

theorem takeLine_of_not_mem (h : Entry.lineFeed ∉ line) : takeLine line = (line, []) := by
  induction line with
  | nil => rfl
  | cons byte rest ih =>
    obtain ⟨hbyte, hrest⟩ := not_or.1 (mt List.mem_cons.2 h)
    rw [takeLine, if_neg (Ne.symm hbyte), ih hrest]

theorem takeLine_append_cons (h : Entry.lineFeed ∉ line) (rest : List UInt8) :
    takeLine (line ++ Entry.lineFeed :: rest) = (line ++ [Entry.lineFeed], rest) := by
  induction line with
  | nil => rfl
  | cons byte more ih =>
    obtain ⟨hbyte, hmore⟩ := not_or.1 (mt List.mem_cons.2 h)
    rw [List.cons_append, takeLine, if_neg (Ne.symm hbyte), ih hmore]
    rfl

theorem next?_nil (limit : Nat) : next? ⟨[], limit⟩ = none :=
  rfl

theorem next?_of_takeLine {rest : List UInt8} (hne : line ≠ [])
    (h : takeLine input = (line, rest)) :
    next? ⟨input, limit⟩ = some (Entry.strip limit
      (Entry.dropReturn (Entry.dropEnd '\n' (Text.Utf8.decode line))), ⟨rest, limit⟩) := by
  rw [next?, h]
  rcases line with - | ⟨byte, more⟩
  · exact absurd rfl hne
  · rfl

/-- As long as there is input, the next line is the first of its lines, and the others are left. -/
theorem next?_eq_some (limit : Nat) (hne : input ≠ []) :
    ∃ piece rest, Entry.pieces input = piece :: Entry.pieces rest ∧ rest.length < input.length ∧
      next? ⟨input, limit⟩ = some (Entry.ofBytes limit piece, ⟨rest, limit⟩) := by
  by_cases hfeed : Entry.lineFeed ∈ input
  · obtain ⟨piece, rest, rfl, hpiece⟩ := List.eq_append_cons_of_mem hfeed
    have hchars : Entry.dropEnd '\n' (Text.Utf8.decode (piece ++ [Entry.lineFeed])) =
        Text.Utf8.decode piece := by
      rw [Text.Utf8.decode_append_lineFeed]
      exact Entry.dropEnd_append_singleton '\n' _
    refine ⟨piece, rest, Entry.pieces_append_cons hpiece rest, ?_, ?_⟩
    · rw [List.length_append, List.length_cons]
      omega
    · rw [next?_of_takeLine (by simp) (takeLine_append_cons hpiece rest), hchars, Entry.ofBytes]
  · have hchars := Entry.dropEnd_of_not_mem (Text.Utf8.lineFeed_not_mem_decode hfeed)
    refine ⟨input, [], Entry.pieces_of_not_mem hne hfeed, List.length_pos_iff.2 hne, ?_⟩
    rw [next?_of_takeLine hne (takeLine_of_not_mem hfeed), hchars, Entry.ofBytes]

/-- Induction over the entries of input: there is no input, or a reader takes the first of its
entries and leaves the others. -/
@[elab_as_elim]
theorem entries_induction (limit : Nat) {motive : List UInt8 → Prop} (nil : motive [])
    (next : ∀ input entry rest, Entry.readAll limit input = entry :: Entry.readAll limit rest →
      next? ⟨input, limit⟩ = some (entry, ⟨rest, limit⟩) → motive rest → motive input)
    (input : List UInt8) : motive input := by
  induction hn : input.length using Nat.strongRecOn generalizing input with
  | ind n ih =>
    by_cases hne : input = []
    · exact hne ▸ nil
    · obtain ⟨piece, rest, hpieces, hlength, hnext⟩ := next?_eq_some limit hne
      have hentries : Entry.readAll limit input =
          Entry.ofBytes limit piece :: Entry.readAll limit rest := by
        rw [Entry.readAll, Entry.readAll, hpieces, List.map_cons]
      exact next input _ rest hentries hnext (ih _ (hn ▸ hlength) rest rfl)

end Reader

end TableShell
