import Mathlib.Data.List.Forall2
import TableShell.Proofs.Reader
import TableShell.Proofs.Text.Lossy

/-!
# Reading to the end

A reader from which lines are taken until there is no further one has given the lines of the whole
input, as if all of it had been read as characters first and divided at the line feeds afterwards
(`Reader.drains_iff_linesOf`). Bytes that are no characters make no difference to that: each line is
read by the rule of `Text.Utf8.ReadAs` from the bytes between two line feeds, as the whole text is
from the whole input.

A line keeps what stands before one carriage return at its end, or all of it if there is none
(`Entry.dropReturn_eq_iff`).

Among the bytes the division is `Entry.pieces`, among the characters `Text.linesOf`. The last part
is dropped from both if it is empty, and a part of one is empty exactly if that of the other is
(`Text.Utf8.decode_eq_nil_iff`).
-/

namespace TableShell

/-- The lines of a text: what line feeds divide it into, without the last part if that is empty. -/
def Text.linesOf (text : List Char) : List (List Char) :=
  let parts := text.splitOn '\n'
  if parts.getLast? = some [] then parts.dropLast else parts

/-- A reader gives entries until it has no further line. -/
inductive Reader.Drains : Reader → List Entry → Prop
  | done {reader : Reader} (h : reader.next? = none) : Drains reader []
  | next {reader rest : Reader} {entry : Entry} {entries : List Entry}
      (h : reader.next? = some (entry, rest)) (hrest : Drains rest entries) :
      Drains reader (entry :: entries)

/-! ### Lines of bytes and lines of characters -/

namespace Text.Utf8

variable {bytes : List UInt8}

/-- Nothing is read only of nothing. -/
theorem decode_eq_nil_iff : decode bytes = [] ↔ bytes = [] := by
  constructor
  · intro h
    have hread : ReadAs bytes [] := readAs_iff.2 h.symm
    cases hread
    rfl
  · rintro rfl
    rfl

theorem linesOf_decode (input : List UInt8) :
    linesOf (decode input) = (Entry.pieces input).map decode := by
  have hlast : ((input.splitOn Entry.lineFeed).map decode).getLast? = some [] ↔
      (input.splitOn Entry.lineFeed).getLast? = some [] := by
    rw [List.getLast?_map, Option.map_eq_some_iff]
    simp [decode_eq_nil_iff]
  rw [linesOf, Entry.pieces, splitOn_decode]
  simp only [hlast]
  split
  · rw [List.map_dropLast]
  · rfl

end Text.Utf8

/-- The entries of the input are those of the lines that it is read as. -/
theorem Entry.readAll_eq_linesOf (limit : Nat) (input : List UInt8) :
    readAll limit input =
      (Text.linesOf (Text.Utf8.decode input)).map fun line ↦ strip limit (dropReturn line) := by
  rw [Text.Utf8.linesOf_decode, List.map_map, readAll]
  rfl

namespace Reader

variable {input : List UInt8} {limit : Nat} {entries : List Entry}

/-! ### Readers -/

theorem drains_iff_of_next? {reader rest : Reader} {entry : Entry}
    (h : reader.next? = some (entry, rest)) :
    Drains reader entries ↔ ∃ others, entries = entry :: others ∧ Drains rest others := by
  constructor
  · rintro (hnone | ⟨hnext, hrest⟩)
    · rw [h] at hnone
      cases hnone
    · obtain ⟨rfl, rfl⟩ := Prod.mk.inj (Option.some.inj (h.symm.trans hnext))
      exact ⟨_, rfl, hrest⟩
  · rintro ⟨others, rfl, hrest⟩
    exact .next h hrest

/-- A reader comes to an end, and has given the entries of its input. -/
theorem drains_iff : Drains ⟨input, limit⟩ entries ↔ entries = Entry.readAll limit input := by
  induction input using entries_induction limit generalizing entries with
  | nil =>
    constructor
    · rintro (- | ⟨hnext, -⟩)
      · rfl
      · rw [next?_nil] at hnext
        cases hnext
    · rintro rfl
      exact .done (next?_nil limit)
  | next input entry rest hentries hnext ih =>
    rw [drains_iff_of_next? hnext, hentries]
    constructor
    · rintro ⟨others, rfl, hrest⟩
      rw [ih.1 hrest]
    · rintro rfl
      exact ⟨_, rfl, ih.2 rfl⟩

/-- A reader comes to an end, with exactly one list of entries: the whole input is read as
characters, in the only way there is, the text is divided at its line feeds, each line loses one
carriage return if it ends with one, and what is kept of it comes to an entry. The bytes between two
line feeds are read as the line that stands in their place, whether they are characters or not. And
input that is empty or ends with a line feed gives the entries that it has alone when there is more
input behind it, and those of the other input follow. -/
theorem drains_iff_linesOf (limit : Nat) (input : List UInt8) :
    (∀ entries, Drains ⟨input, limit⟩ entries ↔
      entries = (Text.linesOf (Text.Utf8.decode input)).map fun line ↦
        Entry.strip limit (Entry.dropReturn line)) ∧
    (∀ line kept, Entry.dropReturn line = kept ↔
      line = kept ++ ['\r'] ∨ kept = line ∧ ∀ front, line ≠ front ++ ['\r']) ∧
    (∀ text, Text.Utf8.ReadAs input text ↔ text = Text.Utf8.decode input) ∧
    List.Forall₂ Text.Utf8.ReadAs (input.splitOn Entry.lineFeed)
      ((Text.Utf8.decode input).splitOn '\n') ∧
    ∀ more first others, (input = [] ∨ input.getLast? = some Entry.lineFeed) →
      Drains ⟨input, limit⟩ first → Drains ⟨more, limit⟩ others →
        Drains ⟨input ++ more, limit⟩ (first ++ others) := by
  refine ⟨fun entries ↦ ?_, fun line kept ↦ Entry.dropReturn_eq_iff,
    fun text ↦ Text.Utf8.readAs_iff, ?_, fun more first others hend hfirst hothers ↦ ?_⟩
  · rw [drains_iff, Entry.readAll_eq_linesOf]
  · rw [Text.Utf8.splitOn_decode, List.forall₂_map_right_iff]
    exact List.forall₂_same.2 fun line _ ↦ Text.Utf8.readAs_decode line
  · rw [drains_iff] at hfirst hothers ⊢
    rw [hfirst, hothers, Entry.readAll, Entry.readAll, Entry.readAll, Entry.pieces_append hend,
      List.map_append]

/-- Of the lines, one breaks off inside a character, one has a byte of no character, and two have
carriage returns right behind the last character that can be kept: of these one is dropped, and a
second one is in excess. The line behind them is not ended. -/
theorem drains_iff_linesOf_return_at_limit :
    let input : List UInt8 :=
      [0x61, 0xE2, 0x82, 0x0A, 0xFF, 0x62, 0x0D, 0x0A, 0x61, 0x62, 0x0D, 0x0D, 0x0A]
    let more : List UInt8 := [0x20, 0x70, 0x31]
    input.getLast? = some Entry.lineFeed ∧
      Entry.dropReturn ['a', 'b', '\r', '\r'] = ['a', 'b', '\r'] ∧
      Drains ⟨input, 2⟩ [⟨"a\uFFFD", 0⟩, ⟨"\uFFFDb", 0⟩, ⟨"ab", 1⟩] ∧
      Drains ⟨more, 2⟩ [⟨"p1", 0⟩] ∧
      Drains ⟨input ++ more, 2⟩ [⟨"a\uFFFD", 0⟩, ⟨"\uFFFDb", 0⟩, ⟨"ab", 1⟩, ⟨"p1", 0⟩] := by
  intro input more
  have hend : input.getLast? = some Entry.lineFeed := rfl
  obtain ⟨hentries, hreturn, -, -, happend⟩ := drains_iff_linesOf 2 input
  have hlines := (hentries [⟨"a\uFFFD", 0⟩, ⟨"\uFFFDb", 0⟩, ⟨"ab", 1⟩]).2 (by decide +kernel)
  have hothers := ((drains_iff_linesOf 2 more).1 [⟨"p1", 0⟩]).2 (by decide +kernel)
  exact ⟨hend, (hreturn _ _).2 (.inl rfl), hlines, hothers,
    happend _ _ _ (.inr hend) hlines hothers⟩

end Reader

end TableShell
