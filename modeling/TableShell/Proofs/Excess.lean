import TableShell.Entry

/-!
# What is in excess

The characters of a line that are no blanks are kept as long as there is room for them, and blanks
cost nothing up to then. `Entry.Reaches` marks the place where the room is used up: right behind the
character that takes the last place. From there on every character is in excess, also a blank
(`Entry.exists_reaches`). So what is kept depends on the characters alone that are no blanks,
but what is in excess does not: with blanks behind that place it is more than the number of
characters for which there was no room (`Entry.excess_exact`), and a line that fits can have an
excess as well (`Entry.excess_of_trailing_blank`).
-/

namespace TableShell

/-! ### Blanks -/

namespace Text

/-- The characters of a text that are no blanks. -/
def solid (text : List Char) : List Char :=
  text.filter (!isBlank ·)

@[simp]
theorem solid_append (text more : List Char) : solid (text ++ more) = solid text ++ solid more :=
  List.filter_append text more

theorem solid_cons_of_not_isBlank {c : Char} (hc : isBlank c = false) (rest : List Char) :
    solid (c :: rest) = c :: solid rest := by
  rw [solid, List.filter_cons_of_pos (by rw [hc]; rfl)]
  rfl

theorem solid_cons_of_isBlank {c : Char} (hc : isBlank c = true) (rest : List Char) :
    solid (c :: rest) = solid rest := by
  rw [solid, List.filter_cons_of_neg (by rw [hc]; exact Bool.noConfusion)]
  rfl

/-- A text without blanks keeps all of its characters. -/
theorem solid_eq_self {text : List Char} (h : ∀ c ∈ text, isBlank c = false) : solid text = text :=
  List.filter_eq_self.2 fun c hc ↦ by rw [h c hc]; rfl

/-- A text with no blank at its end is empty or has a character that is none. -/
theorem solid_ne_nil {text : List Char} (hne : text ≠ [])
    (hlast : ∀ c ∈ text.getLast?, isBlank c = false) : solid text ≠ [] := by
  have hmem : text.getLast hne ∈ solid text :=
    List.mem_filter.2 ⟨List.getLast_mem hne, by
      rw [hlast _ (List.getLast?_eq_some_getLast hne)]
      rfl⟩
  exact List.ne_nil_of_mem hmem

/-- If there is no blank at the end of a text, nothing but blanks at its end is nothing at all. -/
theorem eq_nil_of_solid_eq_nil {text rest : List Char}
    (hlast : ∀ c ∈ (text ++ rest).getLast?, isBlank c = false) (h : solid rest = []) :
    rest = [] := by
  refine Classical.byContradiction fun hne ↦ solid_ne_nil hne (fun c hc ↦ hlast c ?_) h
  rw [List.getLast?_append, Option.mem_def.1 hc, Option.some_or]
  rfl

@[simp]
theorem solid_nil : solid [] = [] :=
  rfl

/-- Each character of a text is a blank or is none. -/
theorem length_eq_solid_add_countP (text : List Char) :
    text.length = (solid text).length + text.countP isBlank := by
  rw [solid, ← List.countP_eq_length_filter, Nat.add_comm,
    List.length_eq_countP_add_countP isBlank]
  simp

end Text

/-! ### Where the limit is reached -/

namespace Entry

variable {limit room : Nat} {raw before after : List Char} {c : Char}

/-- A line in two parts. The first one has as many characters that are no blanks as may be kept, one
of them at its end; or it has fewer, and there is no second part. -/
def Reaches (limit : Nat) (before after : List Char) : Prop :=
  (Text.solid before).length < limit ∧ after = [] ∨
    (Text.solid before).length = limit ∧ ∀ c ∈ before.getLast?, Text.isBlank c = false

namespace Reaches

/-- A blank in front takes no place. -/
theorem cons_of_isBlank (hc : Text.isBlank c = true) (h : Reaches (room + 1) before after) :
    Reaches (room + 1) (c :: before) after := by
  rw [Reaches, Text.solid_cons_of_isBlank hc]
  refine h.imp_right fun ⟨hlength, hlast⟩ ↦ ⟨hlength, fun d hd ↦ ?_⟩
  rw [List.getLast?_cons] at hd
  rcases hend : before.getLast? with - | e
  · rw [List.getLast?_eq_none_iff.1 hend] at hlength
    cases hlength
  · rw [hend] at hd hlast
    exact hlast d hd

/-- Any other character in front takes one. -/
theorem cons_of_not_isBlank (hc : Text.isBlank c = false) (h : Reaches room before after) :
    Reaches (room + 1) (c :: before) after := by
  rw [Reaches, Text.solid_cons_of_not_isBlank hc, List.length_cons]
  refine h.imp (fun ⟨hlength, hnil⟩ ↦ ⟨Nat.succ_lt_succ hlength, hnil⟩)
    fun ⟨hlength, hlast⟩ ↦ ⟨congrArg (· + 1) hlength, fun d hd ↦ ?_⟩
  rw [List.getLast?_cons] at hd
  obtain rfl : before.getLast?.getD c = d := Option.some.inj hd
  rcases hend : before.getLast? with - | e
  · exact hc
  · exact hlast e hend

end Reaches

/-- Every line comes to an end or to the place where the limit is reached. The part up to there is
kept without its blanks, and what follows is in excess. -/
theorem exists_reaches (kept : String) (room : Nat) (raw : List Char) :
    ∃ before after, raw = before ++ after ∧ Reaches room before after ∧
      stripOnto kept room raw = ⟨kept ++ String.ofList (Text.solid before), after.length⟩ := by
  induction raw generalizing kept room with
  | nil =>
    refine ⟨[], [], rfl, ?_, by simp [stripOnto]⟩
    rcases room with - | room
    · exact .inr ⟨rfl, nofun⟩
    · exact .inl ⟨room.succ_pos, rfl⟩
  | cons c rest ih =>
    rcases room with - | room
    · exact ⟨[], c :: rest, rfl, .inr ⟨rfl, nofun⟩, by simp [stripOnto]⟩
    · rcases hc : Text.isBlank c with - | -
      · obtain ⟨before, after, rfl, hreaches, hstrip⟩ := ih (kept.push c) room
        refine ⟨c :: before, after, rfl, hreaches.cons_of_not_isBlank hc, ?_⟩
        have hpush : kept.push c ++ String.ofList (Text.solid before) =
            kept ++ String.ofList (c :: Text.solid before) := by
          rw [← String.toList_inj]
          simp
        rw [stripOnto, if_neg (by rw [hc]; exact Bool.noConfusion), hstrip, hpush,
          Text.solid_cons_of_not_isBlank hc]
      · obtain ⟨before, after, rfl, hreaches, hstrip⟩ := ih kept (room + 1)
        refine ⟨c :: before, after, rfl, hreaches.cons_of_isBlank hc, ?_⟩
        rw [stripOnto, if_pos hc, hstrip, Text.solid_cons_of_isBlank hc]

/-- If there is room for the characters that are no blanks, and none stands at the end, they are
kept and nothing is in excess. -/
theorem strip_of_fits (hfits : (Text.solid raw).length ≤ limit)
    (hlast : ∀ c ∈ raw.getLast?, Text.isBlank c = false) :
    strip limit raw = ⟨String.ofList (Text.solid raw), 0⟩ := by
  obtain ⟨before, after, rfl, hreaches, hstrip⟩ := exists_reaches "" limit raw
  have hnil : after = [] := by
    rcases hreaches with ⟨-, hnil⟩ | ⟨hlimit, -⟩
    · exact hnil
    · rw [Text.solid_append, List.length_append, hlimit] at hfits
      -- the last character needs a place
      exact Text.eq_nil_of_solid_eq_nil hlast (List.length_eq_zero_iff.1 (by omega))
  subst hnil
  rw [strip, hstrip, String.empty_append, List.append_nil]
  rfl

/-! ### The excess -/

/-- A line is divided at the place where the limit is reached. Of the characters that are no blanks
the first ones up to the limit are kept. The excess is the number of characters behind that place,
blanks included: by as many blanks as there are it is greater than the number of characters for
which there was no room, and the two agree exactly if there is no blank. -/
theorem excess_exact (limit : Nat) (raw : List Char) :
    ∃ before after, raw = before ++ after ∧ Reaches limit before after ∧
      strip limit raw = ⟨String.ofList ((Text.solid raw).take limit), after.length⟩ ∧
      ((strip limit raw).isCut ↔ after ≠ []) ∧
      (strip limit raw).excess =
        (Text.solid raw).length - limit + after.countP Text.isBlank ∧
      ((strip limit raw).excess = (Text.solid raw).length - limit ↔
        ∀ c ∈ after, Text.isBlank c = false) := by
  obtain ⟨before, after, rfl, hreaches, hstrip⟩ := exists_reaches "" limit raw
  have hkept : (Text.solid (before ++ after)).take limit = Text.solid before := by
    rw [Text.solid_append]
    rcases hreaches with ⟨hlt, rfl⟩ | ⟨heq, -⟩
    · rw [Text.solid_nil, List.append_nil, List.take_of_length_le (Nat.le_of_lt hlt)]
    · rw [← heq, List.take_left]
  have hlength : after.length =
      (Text.solid (before ++ after)).length - limit + after.countP Text.isBlank := by
    rw [Text.solid_append, List.length_append, Text.length_eq_solid_add_countP after]
    rcases hreaches with ⟨hlt, rfl⟩ | ⟨heq, -⟩
    · rw [Text.solid_nil, List.length_nil, List.countP_nil]
      omega
    · omega
  have hwhole : strip limit (before ++ after) =
      ⟨String.ofList ((Text.solid (before ++ after)).take limit), after.length⟩ := by
    rw [strip, hstrip, String.empty_append, hkept]
  refine ⟨before, after, rfl, hreaches, hwhole, ?_, ?_, ?_⟩
  · rw [hwhole, isCut, decide_eq_true_iff]
    exact List.length_pos_iff
  · rw [hwhole]
    exact hlength
  · have hnone : after.countP Text.isBlank = 0 ↔ ∀ c ∈ after, Text.isBlank c = false := by
      simp only [List.countP_eq_zero, Bool.not_eq_true]
    rw [hwhole, ← hnone]
    dsimp only
    omega

/-- Two lines that differ in a blank at the end, and that both fit. Only one of them is without
excess. -/
theorem excess_of_trailing_blank :
    Text.solid "ab ".toList = Text.solid "ab".toList ∧
      (Text.solid "ab ".toList).length - 2 = 0 ∧
      strip 2 "ab".toList = ⟨"ab", 0⟩ ∧ strip 2 "ab ".toList = ⟨"ab", 1⟩ := by
  decide +kernel

end Entry

end TableShell
