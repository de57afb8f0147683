import Mathlib.Data.List.Basic
import TableShell.Entry

/-!
# Line feeds in UTF-8

No byte of a longer character is a line feed, so a line feed is read as itself wherever it stands,
and what was left unfinished before it is replaced (`decode_append_lineFeed`). Nor is a line feed
read where none stands (`lineFeed_not_mem_decode`). Input is therefore read line by line as it is
read as a whole (`splitOn_decode`).

What carries the inductions over the bytes is `Pending.Regular`: an unfinished character goes on
with a byte of at least `80`, and it already has a bit, or the next byte brings one.
-/

namespace TableShell

namespace Text

namespace Utf8

open Entry (lineFeed)

variable {byte : UInt8} {pending : Pending}

/-! ### Unfinished characters -/

/-- What unfinished characters have in common: they do not go on with an ASCII byte, and what comes
of them is no ASCII character, since a bit above the last six is there or comes with the next
byte. -/
structure Pending.Regular (pending : Pending) : Prop where
  low_le : 0x80 ≤ pending.low
  bits_pos : 0 < pending.bits ∨ 0x90 ≤ pending.low ∧ pending.high ≤ 0xBF ∧ 0 < pending.later

/-- With a bit and without ASCII bytes to come, an unfinished character is regular. -/
theorem Pending.Regular.of_bits {bits later : Nat} {low high : UInt8} (hbits : 0 < bits)
    (hlow : 0x80 ≤ low) : Pending.Regular ⟨bits, later, low, high⟩ :=
  ⟨hlow, .inl hbits⟩

/-- Without a bit, it is regular if the next byte brings one. -/
theorem Pending.Regular.of_low {bits later : Nat} {low high : UInt8} (hlow : 0x90 ≤ low)
    (hhigh : high ≤ 0xBF) (hlater : 0 < later) : Pending.Regular ⟨bits, later, low, high⟩ :=
  ⟨UInt8.le_trans (by decide) hlow, .inr ⟨hlow, hhigh, hlater⟩⟩

/-- A first byte leaves a regular character unfinished. -/
theorem regular_of_lead (h : (lead byte).2 = some pending) : pending.Regular := by
  simp only [lead, UInt8.le_iff_toNat_le, UInt8.lt_iff_toNat_lt, ← UInt8.toNat_inj,
    UInt8.reduceToNat] at h
  -- the first bytes that leave a character unfinished, in the order in which they are told apart
  split_ifs at h <;> cases h
  · exact .of_bits (by omega) (by decide)
  · exact .of_low (by decide) (by decide) (by decide)
  · exact .of_bits (by omega) (by decide)
  · exact .of_bits (by omega) (by decide)
  · exact .of_low (by decide) (by decide) (by decide)
  · exact .of_bits (by omega) (by decide)
  · exact .of_bits (by omega) (by decide)

/-- With a byte that it can go on with, a regular character has a bit above the last six. -/
theorem Pending.Regular.le_bits (h : pending.Regular) (hlow : pending.low ≤ byte)
    (hhigh : byte ≤ pending.high) : 0 < pending.bits ∨
      0 < pending.later ∧ 0 < pending.bits * 0x40 + byte.toNat % 0x40 := by
  rcases h.bits_pos with hbits | ⟨hsecond, hlast, hlater⟩
  · exact .inl hbits
  · have hrange : 0x90 ≤ byte.toNat ∧ byte.toNat ≤ 0xBF :=
      ⟨UInt8.le_iff_toNat_le.1 (UInt8.le_trans hsecond hlow),
        UInt8.le_iff_toNat_le.1 (UInt8.le_trans hhigh hlast)⟩
    exact .inr ⟨hlater, by omega⟩

/-- A byte after a regular character leaves a regular character unfinished. -/
theorem Pending.Regular.resume {next : Pending} (h : pending.Regular)
    (hnext : (Utf8.resume pending byte).2 = some next) : next.Regular := by
  unfold Utf8.resume at hnext
  split_ifs at hnext with hrange
  · have hbits := h.le_bits hrange.1 hrange.2
    rcases hlater : pending.later with - | later
    · rw [hlater] at hnext
      cases hnext
    · rw [hlater] at hnext
      cases hnext
      exact .of_bits (by omega) (by decide)
  · exact regular_of_lead hnext

/-! ### Line feeds -/

theorem lead_lineFeed : lead lineFeed = (['\n'], none) := by
  decide

/-- A regular character does not go on with a line feed. It is replaced. -/
theorem Pending.Regular.resume_lineFeed (h : pending.Regular) :
    Utf8.resume pending lineFeed = ([replacement, '\n'], none) := by
  have hlow : ¬ pending.low ≤ lineFeed := fun hle ↦
    absurd (UInt8.le_trans h.low_le hle) (by decide)
  rw [Utf8.resume, if_neg fun hrange ↦ hlow hrange.1, lead_lineFeed]

/-- The only number that is a line feed is ten. -/
theorem eq_ten_of_ofNat {n : Nat} (h : Char.ofNat n = '\n') : n = 10 := by
  by_cases hvalid : n.isValidChar
  · rw [Char.ofNat, dif_pos hvalid] at h
    exact congrArg Char.toNat h
  · rw [Char.ofNat, dif_neg hvalid] at h
    cases h

theorem lineFeed_not_mem_lead (hbyte : byte ≠ lineFeed) : '\n' ∉ (lead byte).1 := by
  have hreplacement : '\n' ∉ [replacement] := by decide
  unfold lead
  split_ifs
  · intro hmem
    have hvalue : byte.toNat = 10 := eq_ten_of_ofNat (List.mem_singleton.1 hmem).symm
    exact hbyte (UInt8.toNat_inj.1 hvalue)
  any_goals exact List.not_mem_nil
  all_goals exact hreplacement

/-- No line feed comes of a regular character and another byte. -/
theorem Pending.Regular.lineFeed_not_mem_resume (h : pending.Regular) (hbyte : byte ≠ lineFeed) :
    '\n' ∉ (Utf8.resume pending byte).1 := by
  unfold Utf8.resume
  split_ifs with hrange
  · have hbits := h.le_bits hrange.1 hrange.2
    rcases hlater : pending.later with - | later
    · intro hmem
      have hten := eq_ten_of_ofNat (List.mem_singleton.1 hmem).symm
      omega
    · exact List.not_mem_nil
  · exact List.not_mem_cons_of_ne_of_not_mem (by decide) (lineFeed_not_mem_lead hbyte)

/-! ### Decoders -/

namespace Decoder

variable {decoder : Decoder} {bytes : List UInt8}

/-- What is unfinished is regular. -/
def Regular (decoder : Decoder) : Prop :=
  ∀ pending, decoder.pending = some pending → pending.Regular

theorem regular_start : start.Regular := nofun

theorem Regular.push (h : decoder.Regular) (byte : UInt8) : (decoder.push byte).Regular := by
  intro next hnext
  rcases hpending : decoder.pending with - | pending
  · rw [Decoder.push, hpending] at hnext
    exact regular_of_lead hnext
  · rw [Decoder.push, hpending] at hnext
    exact (h pending hpending).resume hnext

theorem Regular.foldl_push (h : decoder.Regular) (bytes : List UInt8) :
    (bytes.foldl Decoder.push decoder).Regular := by
  induction bytes generalizing decoder with
  | nil => exact h
  | cons byte rest ih => exact ih (h.push byte)

/-- With a line feed, what was unfinished is finished. -/
theorem Regular.push_lineFeed (h : decoder.Regular) :
    decoder.push lineFeed = ⟨(decoder.finish ++ ['\n']).toArray, none⟩ := by
  rcases hpending : decoder.pending with - | pending
  · rw [Decoder.push, finish, hpending, read, lead_lineFeed]
    simp [← Array.toList_inj]
  · rw [Decoder.push, finish, hpending, read, (h pending hpending).resume_lineFeed]
    simp [← Array.toList_inj]

/-- What is read does not depend on what was read before. -/
theorem finish_foldl_push (chars : Array Char) (pending : Option Pending) (bytes : List UInt8) :
    (bytes.foldl push ⟨chars, pending⟩).finish =
      chars.toList ++ (bytes.foldl push ⟨#[], pending⟩).finish := by
  induction bytes generalizing chars pending with
  | nil => rcases pending with - | pending <;> simp [finish]
  | cons byte rest ih =>
    rw [List.foldl_cons, List.foldl_cons, push, push, ih, ih (#[] ++ _)]
    simp

/-- No line feed is read but where one stands. -/
theorem Regular.lineFeed_not_mem (h : decoder.Regular) (hchars : '\n' ∉ decoder.chars)
    (hbytes : lineFeed ∉ bytes) : '\n' ∉ (bytes.foldl Decoder.push decoder).chars := by
  induction bytes generalizing decoder with
  | nil => exact hchars
  | cons byte rest ih =>
    obtain ⟨hbyte, hrest⟩ := not_or.1 (mt List.mem_cons.2 hbytes)
    refine ih (h.push byte) (fun hmem ↦ ?_) hrest
    have hmem : '\n' ∈ decoder.chars ++ (read decoder.pending byte).1 := hmem
    rw [← Array.mem_toList_iff, Array.toList_appendList, List.mem_append] at hmem
    rcases hmem with hmem | hmem
    · exact hchars (Array.mem_toList_iff.1 hmem)
    · rcases hpending : decoder.pending with - | pending
      · rw [hpending] at hmem
        exact lineFeed_not_mem_lead (Ne.symm hbyte) hmem
      · rw [hpending] at hmem
        exact (h pending hpending).lineFeed_not_mem_resume (Ne.symm hbyte) hmem

end Decoder

/-! ### Input -/

/-- What stands before a line feed and what stands behind it are read apart. -/
theorem decode_append_lineFeed (bytes more : List UInt8) :
    decode (bytes ++ lineFeed :: more) = decode bytes ++ '\n' :: decode more := by
  have hregular := Decoder.regular_start.foldl_push bytes
  rw [decode, List.foldl_append, List.foldl_cons, hregular.push_lineFeed,
    Decoder.finish_foldl_push]
  simp [decode, Decoder.start]

/-- No line feed is read where none stands. -/
theorem lineFeed_not_mem_decode {bytes : List UInt8} (h : lineFeed ∉ bytes) :
    '\n' ∉ decode bytes := by
  have hchars : '\n' ∉ (bytes.foldl Decoder.push Decoder.start).chars :=
    Decoder.regular_start.lineFeed_not_mem (by simp [Decoder.start]) h
  rw [decode, Decoder.finish]
  rcases (bytes.foldl Decoder.push Decoder.start).pending with - | pending
  · simpa using hchars
  · simpa [replacement] using hchars

/-- Induction over the lines of bytes: the last one, which has no line feed behind it, and a line in
front of others. -/
@[elab_as_elim]
theorem lines_induction {motive : List UInt8 → Prop}
    (last : ∀ line, lineFeed ∉ line → motive line)
    (cons : ∀ line rest, lineFeed ∉ line → motive rest → motive (line ++ lineFeed :: rest))
    (bytes : List UInt8) : motive bytes := by
  induction hn : bytes.length using Nat.strongRecOn generalizing bytes with
  | ind n ih =>
    by_cases hfeed : lineFeed ∈ bytes
    · obtain ⟨line, rest, rfl, hline⟩ := List.eq_append_cons_of_mem hfeed
      have hlength : rest.length < n := by
        rw [← hn, List.length_append, List.length_cons]
        omega
      exact cons line rest hline (ih _ hlength rest rfl)
    · exact last bytes hfeed

/-- The lines of what is read are what is read of the lines. -/
theorem splitOn_decode (bytes : List UInt8) :
    (decode bytes).splitOn '\n' = (bytes.splitOn lineFeed).map decode := by
  induction bytes using lines_induction with
  | last line hline =>
    rw [List.splitOn_eq_singleton hline,
      List.splitOn_eq_singleton (lineFeed_not_mem_decode hline), List.map_singleton]
  | cons line rest hline ih =>
    rw [decode_append_lineFeed,
      List.splitOn_append_cons_self_of_not_mem (lineFeed_not_mem_decode hline),
      List.splitOn_append_cons_self_of_not_mem hline, List.map_cons, ih]

end Utf8

end Text

end TableShell
