import TableShell.Proofs.Text.Utf8

/-!
# What bytes are read as

The rule for bytes that may or may not be characters, and that the decoder follows it. What a
character is as bytes is taken from the library, `String.utf8EncodeChar`, and so is what bytes it
may begin with. Where a character stands in front it is read. Where none does, there is a longest
part in front that a character could have begun with, or else a single byte that begins none; it is
replaced as a whole (`Malformed`), and reading goes on behind it. Every input is read in exactly one
way by this rule, which is what the decoder makes of it (`readAs_iff`).

The decoder knows nothing of the bytes behind the one that it reads. It can do without because an
unfinished character has exactly the bytes ahead of it that make a character of it: as first bytes
in `exists_completes_of_encode` and `encode_of_completes`, and byte by byte in
`Completes.exists_leads`. The arithmetic is in these two and the lemmas in front of them; the rest is
about prefixes.
-/

namespace TableShell

namespace Text

namespace Utf8

open String (utf8EncodeChar)

variable {byte : UInt8} {pending : Pending} {bytes part rest tail : List UInt8} {c : Char}
  {bits later : Nat} {low high : UInt8}

/-! ### The rule -/

/-- Bytes that some character begins with. They may be all of its bytes. -/
def Begins (part : List UInt8) : Prop :=
  ∃ c, part <+: utf8EncodeChar c

/-- Bytes in front of others that are replaced as a whole. No character stands there. The bytes
begin one, and with any more of them they would not; or they are a single byte. -/
structure Malformed (part rest : List UInt8) : Prop where
  ne_nil : part ≠ []
  no_character : ∀ c, ¬ utf8EncodeChar c <+: part ++ rest
  begins : part.length = 1 ∨ Begins part
  longest : ∀ more, more ≠ [] → more <+: rest → ¬ Begins (part ++ more)

/-- What bytes are read as: characters one after the other, and one replacement for each malformed
part. -/
inductive ReadAs : List UInt8 → List Char → Prop
  | nil : ReadAs [] []
  | character (c : Char) {rest : List UInt8} {chars : List Char} (hrest : ReadAs rest chars) :
      ReadAs (utf8EncodeChar c ++ rest) (c :: chars)
  | malformed {part rest : List UInt8} {chars : List Char} (hpart : Malformed part rest)
      (hrest : ReadAs rest chars) : ReadAs (part ++ rest) (replacement :: chars)

/-! ### Finishing a character -/

/-- The bytes that make a character of an unfinished one. -/
inductive Completes : Pending → List UInt8 → Char → Prop
  | last {pending : Pending} {byte : UInt8} {c : Char} (h : resume pending byte = ([c], none)) :
      Completes pending [byte] c
  | next {pending next : Pending} {byte : UInt8} {rest : List UInt8} {c : Char}
      (h : resume pending byte = ([], some next)) (hrest : Completes next rest c) :
      Completes pending (byte :: rest) c

/-- Between characters a byte makes a character or begins one, and not both. -/
theorem lead_fst_eq_nil_iff (byte : UInt8) : (lead byte).1 = [] ↔ (lead byte).2 ≠ none := by
  unfold lead
  split_ifs <;> simp

theorem resume_last (h : low ≤ byte ∧ byte ≤ high) :
    resume ⟨bits, 0, low, high⟩ byte = ([Char.ofNat (bits * 0x40 + byte.toNat % 0x40)], none) :=
  if_pos h

theorem resume_next (h : low ≤ byte ∧ byte ≤ high) :
    resume ⟨bits, later + 1, low, high⟩ byte =
      ([], some { bits := bits * 0x40 + byte.toNat % 0x40, later }) :=
  if_pos h

theorem resume_of_not_range (h : ¬ (pending.low ≤ byte ∧ byte ≤ pending.high)) :
    resume pending byte = (replacement :: (lead byte).1, (lead byte).2) :=
  if_neg h

/-- A byte that finishes a character or goes on with it is one that it can go on with. -/
theorem range_of_resume {chars : List Char} {next : Option Pending}
    (h : resume pending byte = (chars, next))
    (hquiet : chars = [] ∨ chars.length = 1 ∧ next = none) :
    pending.low ≤ byte ∧ byte ≤ pending.high := by
  refine Classical.byContradiction fun hout ↦ ?_
  rw [resume_of_not_range hout] at h
  obtain ⟨rfl, rfl⟩ := Prod.mk.inj h
  rcases hquiet with hchars | ⟨hlength, hnext⟩
  · cases hchars
  · have hlead : (lead byte).1 = [] := List.length_eq_zero_iff.1 (Nat.succ.inj hlength)
    exact (lead_fst_eq_nil_iff byte).1 hlead hnext

theorem completes_last_iff :
    Completes ⟨bits, 0, low, high⟩ tail c ↔
      ∃ byte, tail = [byte] ∧ (low ≤ byte ∧ byte ≤ high) ∧
        Char.ofNat (bits * 0x40 + byte.toNat % 0x40) = c := by
  constructor
  · rintro (h | ⟨h, hrest⟩)
    · have hrange := range_of_resume h (.inr ⟨rfl, rfl⟩)
      rw [resume_last hrange] at h
      exact ⟨_, rfl, hrange, List.singleton_inj.1 (Prod.mk.inj h).1⟩
    · rw [resume_last (range_of_resume h (.inl rfl))] at h
      cases h
  · rintro ⟨byte, rfl, hrange, rfl⟩
    exact .last (resume_last hrange)

theorem completes_next_iff :
    Completes ⟨bits, later + 1, low, high⟩ tail c ↔
      ∃ byte rest, tail = byte :: rest ∧ (low ≤ byte ∧ byte ≤ high) ∧
        Completes { bits := bits * 0x40 + byte.toNat % 0x40, later } rest c := by
  constructor
  · rintro (h | ⟨h, hrest⟩)
    · rw [resume_next (range_of_resume h (.inr ⟨rfl, rfl⟩))] at h
      cases h
    · have hrange := range_of_resume h (.inl rfl)
      rw [resume_next hrange] at h
      cases h
      exact ⟨_, _, rfl, hrange, hrest⟩
  · rintro ⟨byte, rest, rfl, hrange, hrest⟩
    exact .next (resume_next hrange) hrest

/-- Whichever byte in range comes next, there are bytes behind it that finish the character. -/
theorem exists_completes (hrange : pending.low ≤ byte ∧ byte ≤ pending.high) :
    ∃ rest c, Completes pending (byte :: rest) c := by
  obtain ⟨bits, later, low, high⟩ := pending
  induction later generalizing bits low high byte with
  | zero => exact ⟨[], _, completes_last_iff.2 ⟨byte, rfl, hrange, rfl⟩⟩
  | succ later ih =>
    have hnext : (0x80 : UInt8) ≤ 0x80 ∧ (0x80 : UInt8) ≤ 0xBF := by decide
    obtain ⟨rest, c, h⟩ := ih (bits * 0x40 + byte.toNat % 0x40) 0x80 0xBF hnext
    exact ⟨0x80 :: rest, c, completes_next_iff.2 ⟨byte, _, rfl, hrange, h⟩⟩

theorem push_of_next {next : Pending} (h : resume pending byte = ([], some next))
    (chars : Array Char) : Decoder.push ⟨chars, some pending⟩ byte = ⟨chars, some next⟩ := by
  rw [Decoder.push, read, h]
  simp

/-- Bytes with which an unfinished character goes on, and what is then unfinished. The decoder makes
no character of them, and whatever finishes the second character finishes the first one behind
them. -/
structure Leads (pending : Pending) (part : List UInt8) (next : Pending) : Prop where
  foldl_push : ∀ chars,
    part.foldl Decoder.push ⟨chars, some pending⟩ = ⟨chars, some next⟩
  completes : ∀ tail c, Completes next tail c → Completes pending (part ++ tail) c

namespace Leads

theorem nil (pending : Pending) : Leads pending [] pending :=
  ⟨fun _ ↦ rfl, fun _ _ h ↦ h⟩

theorem cons {middle next : Pending} (hbyte : resume pending byte = ([], some middle))
    (h : Leads middle part next) : Leads pending (byte :: part) next where
  foldl_push chars := by
    rw [List.foldl_cons, push_of_next hbyte]
    exact h.foldl_push chars
  completes tail c htail := .next hbyte (h.completes tail c htail)

end Leads

/-- Bytes that finish a character can be cut anywhere in front of the last one. -/
theorem Completes.exists_leads (h : Completes pending (part ++ tail) c) (hne : tail ≠ []) :
    ∃ next, Leads pending part next := by
  induction part generalizing pending with
  | nil => exact ⟨pending, .nil pending⟩
  | cons byte part ih =>
    rw [List.cons_append] at h
    generalize hall : part ++ tail = all at h
    rcases h with h | ⟨h, hrest⟩
    · exact absurd (List.append_eq_nil_iff.1 hall).2 hne
    · subst hall
      obtain ⟨next, hnext⟩ := ih hrest
      exact ⟨next, hnext.cons h⟩

/-- The decoder reads the character. -/
theorem Completes.foldl_push (h : Completes pending tail c) (chars : Array Char) :
    tail.foldl Decoder.push ⟨chars, some pending⟩ = ⟨chars.push c, none⟩ := by
  induction h with
  | last h =>
    rw [List.foldl_cons, Decoder.push, read, h]
    simp
  | next h hrest ih =>
    rw [List.foldl_cons, push_of_next h]
    exact ih

/-! ### First bytes -/

theorem lead_one (hmax : byte.toNat ≤ 0x7F) : lead byte = ([Char.ofNat byte.toNat], none) :=
  if_pos (UInt8.le_iff_toNat_le.2 hmax)

theorem lead_two (hmin : 0xC2 ≤ byte.toNat) (hmax : byte.toNat ≤ 0xDF) :
    lead byte = ([], some { bits := byte.toNat % 0x20, later := 0 }) := by
  simp only [lead, UInt8.le_iff_toNat_le, UInt8.lt_iff_toNat_lt, UInt8.reduceToNat]
  rw [if_neg (by omega), if_neg (by omega), if_pos hmax]

/-- The first of three bytes lets the second one be what it must, for a character that needs three
bytes and is no surrogate. -/
theorem lead_three (byte : UInt8) (hmin : 0xE0 ≤ byte.toNat) (hmax : byte.toNat ≤ 0xEF) :
    ∃ low high, lead byte = ([], some ⟨byte.toNat % 0x10, 1, low, high⟩) ∧
      ∀ second : UInt8, low ≤ second ∧ second ≤ high ↔
        (0x80 ≤ second.toNat ∧ second.toNat ≤ 0xBF) ∧
          0x20 ≤ byte.toNat % 0x10 * 0x40 + second.toNat % 0x40 ∧
          (byte.toNat % 0x10 * 0x40 + second.toNat % 0x40 < 0x360 ∨
            0x37F < byte.toNat % 0x10 * 0x40 + second.toNat % 0x40) := by
  simp only [lead, UInt8.le_iff_toNat_le, UInt8.lt_iff_toNat_lt, ← UInt8.toNat_inj,
    UInt8.reduceToNat]
  rw [if_neg (by omega), if_neg (by omega), if_neg (by omega)]
  split_ifs with hfirst hsurrogate
  all_goals
    refine ⟨_, _, rfl, fun second ↦ ?_⟩
    simp only [UInt8.reduceToNat]
    omega

/-- The first of four bytes lets the second one be what it must, for a character that needs four
bytes and is not above the last one. -/
theorem lead_four (byte : UInt8) (hmin : 0xF0 ≤ byte.toNat) (hmax : byte.toNat ≤ 0xF4) :
    ∃ low high, lead byte = ([], some ⟨byte.toNat % 0x08, 2, low, high⟩) ∧
      ∀ second : UInt8, low ≤ second ∧ second ≤ high ↔
        (0x80 ≤ second.toNat ∧ second.toNat ≤ 0xBF) ∧
          0x10 ≤ byte.toNat % 0x08 * 0x40 + second.toNat % 0x40 ∧
          byte.toNat % 0x08 * 0x40 + second.toNat % 0x40 < 0x110 := by
  simp only [lead, UInt8.le_iff_toNat_le, UInt8.lt_iff_toNat_lt, ← UInt8.toNat_inj,
    UInt8.reduceToNat]
  rw [if_neg (by omega), if_neg (by omega), if_neg (by omega), if_neg (by omega),
    if_neg (by omega), if_neg (by omega)]
  split_ifs with hfirst hmiddle hlast
  · refine ⟨_, _, rfl, fun second ↦ ?_⟩
    simp only [UInt8.reduceToNat]
    omega
  · refine ⟨_, _, rfl, fun second ↦ ?_⟩
    simp only [UInt8.reduceToNat]
    omega
  · refine ⟨_, _, rfl, fun second ↦ ?_⟩
    simp only [UInt8.reduceToNat]
    omega
  · omega

/-- A byte that is the first of none of these begins no character. -/
theorem lead_other (hone : 0x7F < byte.toNat) (hmore : byte.toNat < 0xC2 ∨ 0xF4 < byte.toNat) :
    lead byte = ([replacement], none) := by
  simp only [lead, UInt8.le_iff_toNat_le, UInt8.lt_iff_toNat_lt, ← UInt8.toNat_inj,
    UInt8.reduceToNat]
  split_ifs <;> first | rfl | omega

/-- Which of these a byte is. -/
theorem first_cases (byte : UInt8) :
    byte.toNat ≤ 0x7F ∨ 0x7F < byte.toNat ∧ (byte.toNat < 0xC2 ∨ 0xF4 < byte.toNat) ∨
      0xC2 ≤ byte.toNat ∧ byte.toNat ≤ 0xDF ∨ 0xE0 ≤ byte.toNat ∧ byte.toNat ≤ 0xEF ∨
      0xF0 ≤ byte.toNat ∧ byte.toNat ≤ 0xF4 := by
  omega

/-! ### Characters and their bytes -/

section Bytes

variable {n : Nat}

theorem ofNat_eq (byte : UInt8) (h : n = byte.toNat) : UInt8.ofNat n = byte := by
  rw [h]
  exact UInt8.ofNat_toNat

theorem val_ofNat (h : n.isValidChar) : (Char.ofNat n).val.toNat = n := by
  rw [Char.ofNat, dif_pos h]
  rfl

/-- A byte inside a character, other than the second one, has six bits to give. -/
theorem inner_iff :
    (0x80 : UInt8) ≤ byte ∧ byte ≤ 0xBF ↔ 0x80 ≤ byte.toNat ∧ byte.toNat ≤ 0xBF := by
  simp only [UInt8.le_iff_toNat_le, UInt8.reduceToNat]

theorem completes_two (hmin : 0x7F < n) (hmax : n ≤ 0x7FF) :
    ∃ pending, lead (UInt8.ofNat (n / 64 % 32 + 192)) = ([], some pending) ∧
      Completes pending [UInt8.ofNat (n % 64 + 128)] (Char.ofNat n) := by
  have hfirst := UInt8.toNat_ofNat' (n := n / 64 % 32 + 192)
  have hsecond := UInt8.toNat_ofNat' (n := n % 64 + 128)
  refine ⟨_, lead_two (by omega) (by omega), ?_⟩
  refine completes_last_iff.2 ⟨_, rfl, inner_iff.2 (by omega), ?_⟩
  congr 1
  omega

theorem completes_three (hmin : 0x7FF < n) (hmax : n ≤ 0xFFFF) (hvalid : n.isValidChar) :
    ∃ pending, lead (UInt8.ofNat (n / 4096 % 16 + 224)) = ([], some pending) ∧
      Completes pending [UInt8.ofNat (n / 64 % 64 + 128), UInt8.ofNat (n % 64 + 128)]
        (Char.ofNat n) := by
  have hfirst := UInt8.toNat_ofNat' (n := n / 4096 % 16 + 224)
  have hsecond := UInt8.toNat_ofNat' (n := n / 64 % 64 + 128)
  have hthird := UInt8.toNat_ofNat' (n := n % 64 + 128)
  obtain ⟨low, high, hlead, hrange⟩ :=
    lead_three (UInt8.ofNat (n / 4096 % 16 + 224)) (by omega) (by omega)
  have hsurrogate : n < 0xD800 ∨ 0xDFFF < n ∧ n < 0x110000 := hvalid
  refine ⟨_, hlead, completes_next_iff.2 ⟨_, _, rfl, (hrange _).2 (by omega), ?_⟩⟩
  refine completes_last_iff.2 ⟨_, rfl, inner_iff.2 (by omega), ?_⟩
  congr 1
  omega

theorem completes_four (hmin : 0xFFFF < n) (hvalid : n.isValidChar) :
    ∃ pending, lead (UInt8.ofNat (n / 262144 % 8 + 240)) = ([], some pending) ∧
      Completes pending [UInt8.ofNat (n / 4096 % 64 + 128), UInt8.ofNat (n / 64 % 64 + 128),
        UInt8.ofNat (n % 64 + 128)] (Char.ofNat n) := by
  have hmax : n < 0xD800 ∨ 0xDFFF < n ∧ n < 0x110000 := hvalid
  have hfirst := UInt8.toNat_ofNat' (n := n / 262144 % 8 + 240)
  have hsecond := UInt8.toNat_ofNat' (n := n / 4096 % 64 + 128)
  have hthird := UInt8.toNat_ofNat' (n := n / 64 % 64 + 128)
  have hfourth := UInt8.toNat_ofNat' (n := n % 64 + 128)
  obtain ⟨low, high, hlead, hrange⟩ :=
    lead_four (UInt8.ofNat (n / 262144 % 8 + 240)) (by omega) (by omega)
  refine ⟨_, hlead, completes_next_iff.2 ⟨_, _, rfl, (hrange _).2 (by omega), ?_⟩⟩
  refine completes_next_iff.2 ⟨_, _, rfl, inner_iff.2 (by omega), ?_⟩
  refine completes_last_iff.2 ⟨_, rfl, inner_iff.2 (by omega), ?_⟩
  congr 1
  omega

/-- The first byte of a character makes it, or leaves it for the other bytes to finish. -/
theorem exists_completes_of_encode (c : Char) :
    ∃ byte tail, utf8EncodeChar c = byte :: tail ∧
      (lead byte = ([c], none) ∧ tail = [] ∨
        ∃ pending, lead byte = ([], some pending) ∧ Completes pending tail c) := by
  have hvalid : c.val.toNat.isValidChar := c.valid
  have hvalue : Char.ofNat c.val.toNat = c := Char.ofNat_toNat c
  rw [utf8EncodeChar]
  generalize c.val.toNat = n at hvalid hvalue ⊢
  subst hvalue
  split_ifs with hone htwo hthree
  · have hbyte := UInt8.toNat_ofNat' (n := n)
    refine ⟨_, _, rfl, .inl ⟨?_, rfl⟩⟩
    rw [lead_one (by omega), hbyte, Nat.mod_eq_of_lt (by omega)]
  · exact ⟨_, _, rfl, .inr (completes_two (by omega) htwo)⟩
  · exact ⟨_, _, rfl, .inr (completes_three (by omega) hthree hvalid)⟩
  · exact ⟨_, _, rfl, .inr (completes_four (by omega) hvalid)⟩

theorem encode_two (hmin : 0xC2 ≤ byte.toNat) (hmax : byte.toNat ≤ 0xDF)
    (h : Completes { bits := byte.toNat % 0x20, later := 0 } tail c) :
    utf8EncodeChar c = byte :: tail := by
  obtain ⟨second, rfl, hsecond, rfl⟩ := completes_last_iff.1 h
  have hsecond := inner_iff.1 hsecond
  rw [utf8EncodeChar, val_ofNat (.inl (by omega))]
  rw [if_neg (by omega), if_pos (by omega), ofNat_eq byte (by omega),
    ofNat_eq second (by omega)]

theorem encode_three (hmin : 0xE0 ≤ byte.toNat) (hmax : byte.toNat ≤ 0xEF)
    (hlead : lead byte = ([], some pending)) (h : Completes pending tail c) :
    utf8EncodeChar c = byte :: tail := by
  obtain ⟨low, high, hlead', hrange⟩ := lead_three byte hmin hmax
  obtain rfl := Option.some.inj (Prod.mk.inj (hlead.symm.trans hlead')).2
  obtain ⟨second, tail, rfl, hsecond, h⟩ := completes_next_iff.1 h
  obtain ⟨third, rfl, hthird, rfl⟩ := completes_last_iff.1 h
  have hsecond := (hrange second).1 hsecond
  have hthird := inner_iff.1 hthird
  have hvalid : ((byte.toNat % 0x10 * 0x40 + second.toNat % 0x40) * 0x40 +
      third.toNat % 0x40).isValidChar := by
    rcases hsecond.2.2 with hbelow | habove
    · exact .inl (by omega)
    · exact .inr (by omega)
  rw [utf8EncodeChar, val_ofNat hvalid]
  rw [if_neg (by omega), if_neg (by omega), if_pos (by omega),
    ofNat_eq byte (by omega), ofNat_eq second (by omega),
    ofNat_eq third (by omega)]

theorem encode_four (hmin : 0xF0 ≤ byte.toNat) (hmax : byte.toNat ≤ 0xF4)
    (hlead : lead byte = ([], some pending)) (h : Completes pending tail c) :
    utf8EncodeChar c = byte :: tail := by
  obtain ⟨low, high, hlead', hrange⟩ := lead_four byte hmin hmax
  obtain rfl := Option.some.inj (Prod.mk.inj (hlead.symm.trans hlead')).2
  obtain ⟨second, tail, rfl, hsecond, h⟩ := completes_next_iff.1 h
  obtain ⟨third, tail, rfl, hthird, h⟩ := completes_next_iff.1 h
  obtain ⟨fourth, rfl, hfourth, rfl⟩ := completes_last_iff.1 h
  have hsecond := (hrange second).1 hsecond
  have hthird := inner_iff.1 hthird
  have hfourth := inner_iff.1 hfourth
  rw [utf8EncodeChar, val_ofNat (.inr (by omega))]
  rw [if_neg (by omega), if_neg (by omega), if_neg (by omega),
    ofNat_eq byte (by omega), ofNat_eq second (by omega),
    ofNat_eq third (by omega), ofNat_eq fourth (by omega)]

/-- What finishes the character that a first byte leaves are the other bytes of that character. -/
theorem encode_of_completes (hlead : lead byte = ([], some pending))
    (h : Completes pending tail c) : utf8EncodeChar c = byte :: tail := by
  rcases first_cases byte with
    hone | ⟨hone, hother⟩ | ⟨hmin, hmax⟩ | ⟨hmin, hmax⟩ | ⟨hmin, hmax⟩
  · rw [lead_one hone] at hlead
    cases hlead
  · rw [lead_other hone hother] at hlead
    cases hlead
  · rw [lead_two hmin hmax] at hlead
    cases hlead
    exact encode_two hmin hmax h
  · exact encode_three hmin hmax hlead h
  · exact encode_four hmin hmax hlead h

/-- So the other bytes of a character are what finishes the one that its first byte leaves. -/
theorem completes_of_encode (hlead : lead byte = ([], some pending))
    (hbytes : utf8EncodeChar c = byte :: tail) : Completes pending tail c := by
  obtain ⟨first, others, hfirst, ⟨hone, -⟩ | ⟨pending', hpending, hothers⟩⟩ :=
    exists_completes_of_encode c
  · obtain ⟨rfl, -⟩ := List.cons.inj (hbytes.symm.trans hfirst)
    rw [hlead] at hone
    cases hone
  · obtain ⟨rfl, rfl⟩ := List.cons.inj (hbytes.symm.trans hfirst)
    obtain rfl : pending = pending' :=
      Option.some.inj (Prod.mk.inj (hlead.symm.trans hpending)).2
    exact hothers

/-- A first byte that leaves no character unfinished is a character, or is replaced. -/
theorem encode_or_replaced (h : (lead byte).2 = none) :
    (∃ c, utf8EncodeChar c = [byte]) ∨ lead byte = ([replacement], none) := by
  rcases first_cases byte with
    hone | ⟨hone, hother⟩ | ⟨hmin, hmax⟩ | ⟨hmin, hmax⟩ | ⟨hmin, hmax⟩
  · refine .inl ⟨Char.ofNat byte.toNat, ?_⟩
    rw [utf8EncodeChar, val_ofNat (.inl (by omega)), if_pos hone, UInt8.ofNat_toNat]
  · exact .inr (lead_other hone hother)
  · rw [lead_two hmin hmax] at h
    cases h
  · obtain ⟨low, high, hlead, -⟩ := lead_three byte hmin hmax
    rw [hlead] at h
    cases h
  · obtain ⟨low, high, hlead, -⟩ := lead_four byte hmin hmax
    rw [hlead] at h
    cases h

end Bytes

/-! ### What the decoder does -/

theorem push_start (byte : UInt8) :
    Decoder.push Decoder.start byte = ⟨(lead byte).1.toArray, (lead byte).2⟩ := by
  rw [Decoder.start, Decoder.push, read]
  simp

/-- The decoder reads a character where one stands, and goes on behind it. -/
theorem decode_character (c : Char) (rest : List UInt8) :
    decode (utf8EncodeChar c ++ rest) = c :: decode rest := by
  have hread : (utf8EncodeChar c).foldl Decoder.push Decoder.start = ⟨#[c], none⟩ := by
    obtain ⟨byte, tail, hbytes, ⟨hlead, rfl⟩ | ⟨pending, hlead, htail⟩⟩ :=
      exists_completes_of_encode c
    · rw [hbytes, List.foldl_cons, push_start, hlead]
      rfl
    · rw [hbytes, List.foldl_cons, push_start, hlead]
      exact htail.foldl_push #[]
  rw [decode, List.foldl_append, hread, Decoder.finish_foldl_push]
  rfl

/-- An unfinished character that does not go on is replaced, and the next byte is read anew. -/
theorem finish_of_not_range {next : Pending}
    (h : ∀ byte ∈ rest.head?, ¬ (next.low ≤ byte ∧ byte ≤ next.high)) :
    (rest.foldl Decoder.push ⟨#[], some next⟩).finish = replacement :: decode rest := by
  rcases rest with - | ⟨byte, rest⟩
  · rfl
  · have hpush : Decoder.push ⟨#[], some next⟩ byte =
        ⟨#[replacement] ++ (lead byte).1, (lead byte).2⟩ := by
      rw [Decoder.push, read, resume_of_not_range (h byte rfl)]
      simp
    rw [decode, List.foldl_cons, List.foldl_cons, hpush, push_start, Decoder.finish_foldl_push,
      Decoder.finish_foldl_push (lead byte).1.toArray]
    simp

namespace Malformed

/-- A malformed part with a first byte that begins no character is that byte. -/
theorem eq_nil_of_replaced (h : Malformed (byte :: part) rest)
    (hlead : lead byte = ([replacement], none)) : part = [] := by
  rcases h.begins with hlength | ⟨c, hprefix⟩
  · exact List.length_eq_zero_iff.1 (Nat.succ.inj hlength)
  · obtain ⟨first, tail, hbytes, ⟨-, rfl⟩ | ⟨pending, hpending, -⟩⟩ := exists_completes_of_encode c
    · rw [hbytes] at hprefix
      exact List.prefix_nil.1 (List.cons_prefix_cons.1 hprefix).2
    · rw [hbytes] at hprefix
      obtain ⟨rfl, -⟩ := List.cons_prefix_cons.1 hprefix
      rw [hlead] at hpending
      cases hpending

/-- Any other leaves a character unfinished, and no byte that it could go on with is next. -/
theorem exists_leads (h : Malformed (byte :: part) rest)
    (hlead : lead byte = ([], some pending)) :
    ∃ next, Leads pending part next ∧
      ∀ byte ∈ rest.head?, ¬ (next.low ≤ byte ∧ byte ≤ next.high) := by
  obtain ⟨next, hnext⟩ : ∃ next, Leads pending part next := by
    rcases h.begins with hlength | ⟨c, tail, hbytes⟩
    · obtain rfl : part = [] := List.length_eq_zero_iff.1 (Nat.succ.inj hlength)
      exact ⟨pending, .nil pending⟩
    · have hne : tail ≠ [] := by
        rintro rfl
        rw [List.append_nil] at hbytes
        exact h.no_character c (hbytes ▸ List.prefix_append _ rest)
      exact (completes_of_encode hlead hbytes.symm).exists_leads hne
  refine ⟨next, hnext, fun second hsecond hrange ↦ ?_⟩
  obtain ⟨more, rfl⟩ : ∃ more, rest = second :: more := List.head?_eq_some_iff.1 hsecond
  obtain ⟨tail, c, hcompletes⟩ := exists_completes hrange
  have hbytes := encode_of_completes hlead (hnext.completes _ _ hcompletes)
  refine h.longest [second] (List.cons_ne_nil _ _) ⟨more, rfl⟩ ⟨c, tail, ?_⟩
  rw [hbytes, List.append_assoc]
  rfl

end Malformed

/-- The decoder replaces a malformed part as a whole, and goes on behind it. -/
theorem decode_malformed (h : Malformed part rest) :
    decode (part ++ rest) = replacement :: decode rest := by
  obtain ⟨byte, part, rfl⟩ := List.exists_cons_of_ne_nil h.ne_nil
  rw [decode, List.cons_append, List.foldl_cons, push_start, List.foldl_append]
  rcases hpending : (lead byte).2 with - | pending
  · rcases encode_or_replaced hpending with ⟨c, hbyte⟩ | hlead
    · exact absurd ⟨part ++ rest, by rw [hbyte]; rfl⟩ (h.no_character c)
    · obtain rfl := h.eq_nil_of_replaced hlead
      rw [hlead, List.foldl_nil, Decoder.finish_foldl_push]
      rfl
  · have hlead : lead byte = ([], some pending) :=
      Prod.ext ((lead_fst_eq_nil_iff byte).2 (by rw [hpending]; exact Option.some_ne_none _))
        hpending
    obtain ⟨next, hnext, hrange⟩ := h.exists_leads hlead
    rw [hlead]
    dsimp only
    rw [hnext.foldl_push]
    exact finish_of_not_range hrange

/-! ### Every input is read in one way -/

/-- Bytes with no character in front of them have a malformed part there. -/
theorem exists_malformed (hne : part ≠ []) (hbegins : part.length = 1 ∨ Begins part)
    (hnone : ∀ c, ¬ utf8EncodeChar c <+: part ++ rest) :
    ∃ whole others, part ++ rest = whole ++ others ∧ Malformed whole others := by
  induction rest generalizing part with
  | nil =>
    refine ⟨part, [], rfl, hne, hnone, hbegins, fun more hmore hprefix ↦ ?_⟩
    exact absurd (List.prefix_nil.1 hprefix) hmore
  | cons byte rest ih =>
    by_cases hnext : Begins (part ++ [byte])
    · -- with one more byte they still begin a character
      have happend : part ++ byte :: rest = part ++ [byte] ++ rest := by simp
      rw [happend] at hnone ⊢
      exact ih (List.append_ne_nil_of_right_ne_nil _ (List.cons_ne_nil _ _)) (.inr hnext) hnone
    · refine ⟨part, byte :: rest, rfl, hne, hnone, hbegins, fun more hmore hprefix hmany ↦ hnext ?_⟩
      obtain ⟨b, more, rfl⟩ := List.exists_cons_of_ne_nil hmore
      obtain ⟨rfl, -⟩ := List.cons_prefix_cons.1 hprefix
      obtain ⟨c, hc⟩ := hmany
      exact ⟨c, .trans ⟨more, by simp⟩ hc⟩

/-- The decoder follows the rule. -/
theorem readAs_decode (bytes : List UInt8) : ReadAs bytes (decode bytes) := by
  induction hn : bytes.length using Nat.strongRecOn generalizing bytes with
  | ind n ih =>
    subst hn
    rcases bytes with - | ⟨byte, rest⟩
    · exact .nil
    by_cases hfront : ∃ c, utf8EncodeChar c <+: byte :: rest
    · obtain ⟨c, others, hbytes⟩ := hfront
      have hne : (utf8EncodeChar c).length ≠ 0 :=
        fun h ↦ String.utf8EncodeChar_ne_nil (List.length_eq_zero_iff.1 h)
      rw [← hbytes, decode_character]
      refine .character c (ih _ ?_ others rfl)
      rw [← hbytes, List.length_append]
      omega
    · obtain ⟨whole, others, hbytes, hwhole⟩ : ∃ whole others,
          [byte] ++ rest = whole ++ others ∧ Malformed whole others :=
        exists_malformed (List.cons_ne_nil byte []) (.inl rfl) fun c hc ↦ hfront ⟨c, hc⟩
      have hne : whole.length ≠ 0 := fun h ↦ hwhole.ne_nil (List.length_eq_zero_iff.1 h)
      rw [List.singleton_append] at hbytes
      rw [hbytes, decode_malformed hwhole]
      refine .malformed hwhole (ih _ ?_ others rfl)
      rw [hbytes, List.length_append]
      omega

/-- Bytes are read by the rule in exactly one way, and that is how the decoder reads them. -/
theorem readAs_iff {chars : List Char} : ReadAs bytes chars ↔ chars = decode bytes := by
  refine ⟨fun h ↦ ?_, fun h ↦ h ▸ readAs_decode bytes⟩
  induction h with
  | nil => rfl
  | character c hrest ih => rw [decode_character, ih]
  | malformed hpart hrest ih => rw [decode_malformed hpart, ih]

end Utf8

end Text

end TableShell
