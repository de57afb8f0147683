import TableShell.Proofs.Excess

/-!
# What is kept of a line

What is kept of a line and what is in excess, each told without the other. The characters that are
no blanks are kept in their order, up to the limit. In excess is what stands behind the front of the
line, its shortest prefix that has all the characters that may be kept (`Entry.IsFront`). A line has
only one front, and so this fixes the excess as well (`Entry.strip_exact`).

It follows that nothing is lost from a line without excess, that a line as it is kept is not changed
any further, and that a greater limit only adds characters at the end.
-/

namespace TableShell

namespace Entry

variable {limit : Nat} {raw front other before after : List Char}

/-! ### The front of a line -/

/-- The front of a line is the shortest of its prefixes that have as many characters that are no
blanks as may be kept, and the whole line if it has no such prefix. -/
def IsFront (limit : Nat) (raw front : List Char) : Prop :=
  (front <+: raw ∧ limit ≤ (Text.solid front).length ∧
    ∀ other, other <+: raw → limit ≤ (Text.solid other).length → front <+: other) ∨
  (∀ other, other <+: raw → (Text.solid other).length < limit) ∧ front = raw

/-- A line has at most one front. -/
theorem IsFront.unique (h : IsFront limit raw front) (hother : IsFront limit raw other) :
    front = other := by
  rcases h with ⟨hbegins, hlimit, hleast⟩ | ⟨hnone, rfl⟩ <;>
    rcases hother with ⟨hbegins', hlimit', hleast'⟩ | ⟨hnone', rfl⟩
  · exact (hleast other hbegins' hlimit').eq_of_length_le (hleast' front hbegins hlimit).length_le
  · exact absurd (hnone' front hbegins) (Nat.not_lt.2 hlimit)
  · exact absurd (hnone other hbegins') (Nat.not_lt.2 hlimit')
  · rfl

namespace Reaches

/-- A part that is as long as the limit allows, and that ends where it is reached, is the front. -/
theorem isFront (h : Reaches limit before after) : IsFront limit (before ++ after) before := by
  rcases h with ⟨hlt, rfl⟩ | ⟨hlimit, hlast⟩
  · rw [List.append_nil]
    refine .inr ⟨fun other hother ↦ ?_, rfl⟩
    have hle := (hother.filter (!Text.isBlank ·)).length_le
    exact Nat.lt_of_le_of_lt hle hlt
  · have hbefore := List.prefix_append before after
    refine .inl ⟨hbefore, Nat.le_of_eq hlimit.symm, fun other hother hle ↦ ?_⟩
    rcases List.prefix_or_prefix_of_prefix hbefore hother with hshorter | ⟨rest, rfl⟩
    · exact hshorter
    · -- there is no room for what comes behind `other`, whose last character would need some
      rw [Text.solid_append, List.length_append] at hlimit
      obtain rfl : rest = [] :=
        Text.eq_nil_of_solid_eq_nil hlast (List.length_eq_zero_iff.1 (by omega))
      exact ⟨[], by rw [List.append_nil, List.append_nil]⟩

/-- The characters of the front that are no blanks are those that may be kept. -/
theorem take_solid (h : Reaches limit before after) :
    (Text.solid (before ++ after)).take limit = Text.solid before := by
  rw [Text.solid_append]
  rcases h with ⟨hlt, rfl⟩ | ⟨hlimit, -⟩
  · rw [Text.solid_nil, List.append_nil, List.take_of_length_le (Nat.le_of_lt hlt)]
  · rw [← hlimit, List.take_left]

end Reaches

/-! ### What is kept -/

/-- The first characters that are no blanks are kept. -/
theorem toList_text_strip (limit : Nat) (raw : List Char) :
    (strip limit raw).text.toList = (Text.solid raw).take limit := by
  obtain ⟨before, after, rfl, hreaches, hstrip⟩ := exists_reaches "" limit raw
  rw [strip, hstrip, String.empty_append, String.toList_ofList, hreaches.take_solid]

/-- No blank is kept. -/
theorem isBlank_of_mem_strip {c : Char} (hc : c ∈ (strip limit raw).text.toList) :
    Text.isBlank c = false := by
  rw [toList_text_strip] at hc
  have hsolid := (List.mem_filter.1 (List.mem_of_mem_take hc)).2
  rwa [Bool.not_eq_true'] at hsolid

/-- What is kept is kept again. -/
theorem strip_text_strip (limit : Nat) (raw : List Char) :
    strip limit (strip limit raw).text.toList = ⟨(strip limit raw).text, 0⟩ := by
  have hself : Text.solid (strip limit raw).text.toList = (strip limit raw).text.toList :=
    Text.solid_eq_self fun _ ↦ isBlank_of_mem_strip
  have hlength : (strip limit raw).text.toList.length ≤ limit := by
    rw [toList_text_strip]
    exact List.length_take_le _ _
  have hlast : ∀ c ∈ (strip limit raw).text.toList.getLast?, Text.isBlank c = false :=
    fun _ hc ↦ isBlank_of_mem_strip (List.mem_of_getLast? hc)
  rw [strip_of_fits (by rwa [hself]) hlast, hself, String.ofList_toList]

/-- The characters that are no blanks are kept in their order, up to the limit. The excess is the
number of characters behind the front of the line, which is unique. Without excess, all characters
that are no blanks are kept. What is kept is kept again, with nothing in excess, and it is the
beginning of what is kept under a greater limit. -/
theorem strip_exact (limit : Nat) (raw : List Char) :
    (strip limit raw).text.toList = (Text.solid raw).take limit ∧
    (∃ before after, raw = before ++ after ∧ (∀ front, IsFront limit raw front ↔ front = before) ∧
      (strip limit raw).excess = after.length) ∧
    ((strip limit raw).excess = 0 → (strip limit raw).text.toList = Text.solid raw) ∧
    strip limit (strip limit raw).text.toList = ⟨(strip limit raw).text, 0⟩ ∧
    ∀ greater, limit ≤ greater →
      (strip limit raw).text.toList <+: (strip greater raw).text.toList := by
  obtain ⟨before, after, hraw, hreaches, hstrip⟩ := exists_reaches "" limit raw
  have hexcess : (strip limit raw).excess = after.length := congrArg excess hstrip
  subst hraw
  refine ⟨toList_text_strip limit _, ⟨before, after, rfl, fun front ↦ ?_, hexcess⟩,
    fun hnone ↦ ?_, strip_text_strip limit _, fun greater hle ↦ ?_⟩
  · refine ⟨fun hfront ↦ hfront.unique hreaches.isFront, ?_⟩
    rintro rfl
    exact hreaches.isFront
  · obtain rfl := List.length_eq_zero_iff.1 (hexcess.symm.trans hnone)
    rw [toList_text_strip, hreaches.take_solid, List.append_nil]
  · rw [toList_text_strip, toList_text_strip]
    exact List.take_prefix_take_left hle

/-- A line of two letters, cut behind the first one, and under a limit that it does not reach. -/
theorem strip_exact_two_letters :
    let raw := " a b ".toList
    (strip 1 raw).text = "a" ∧ (strip 1 raw).excess = " b ".toList.length ∧
      (∀ front, IsFront 1 raw front ↔ front = " a".toList) ∧ strip 1 "a".toList = ⟨"a", 0⟩ ∧
      (strip 3 raw).excess = 0 ∧ (strip 3 raw).text.toList = Text.solid raw ∧
      (strip 1 raw).text.toList <+: (strip 3 raw).text.toList := by
  intro raw
  obtain ⟨hkept, ⟨before, after, hraw, hfront, hexcess⟩, -, hagain, hgreater⟩ := strip_exact 1 raw
  obtain ⟨-, -, hall, -⟩ := strip_exact 3 raw
  have htext : (strip 1 raw).text = "a" := String.toList_inj.1 (hkept.trans (by decide +kernel))
  have hthree : (strip 1 raw).excess = " b ".toList.length := by decide +kernel
  have hbefore : before = " a".toList :=
    (List.append_inj' (hraw.symm.trans (by decide +kernel : raw = " a".toList ++ " b ".toList))
      (hexcess.symm.trans hthree)).1
  have hnone : (strip 3 raw).excess = 0 := by decide +kernel
  rw [htext] at hagain
  exact ⟨htext, hthree, hbefore ▸ hfront, hagain, hnone, hall hnone, hgreater 3 (by decide)⟩

end Entry

end TableShell
