import Foregone.Proofs.Scanning
import Foregone.Proofs.TokenSpans

/-! # Bytes and characters

A text is encoded character by character, and its bytes are read back as the same
characters, each as wide as its encoding. Whatever the bytes, no glyph is read that is wider
than its character is where that is of seven bits, so that the tokens and the tree of any
source lie between its glyphs. -/

namespace Foregone

namespace Utf8

theorem toNat_char {n : Nat} (h : n.isValidChar) : (Char.ofNat n).toNat = n := by
  rw [Char.ofNat, dif_pos h]
  rfl

/-! ## How a character starts -/

/-- What a first byte says, by its value. -/
theorem lead?_eq (b : UInt8) : lead? b =
    if b.toNat < 0xc2 then none
    else if b.toNat ≤ 0xdf then some (1, b.toNat % 0x20, 0x80, 0xbf)
    else if b.toNat ≤ 0xef then some (2, b.toNat % 0x10,
      if b.toNat = 0xe0 then 0xa0 else 0x80, if b.toNat = 0xed then 0x9f else 0xbf)
    else if b.toNat ≤ 0xf4 then some (3, b.toNat % 0x08,
      if b.toNat = 0xf0 then 0x90 else 0x80, if b.toNat = 0xf4 then 0x8f else 0xbf)
    else none := by
  have hall : ∀ n < 256, lead? (UInt8.ofNat n) =
      if n < 0xc2 then none
      else if n ≤ 0xdf then some (1, n % 0x20, 0x80, 0xbf)
      else if n ≤ 0xef then some (2, n % 0x10,
        if n = 0xe0 then 0xa0 else 0x80, if n = 0xed then 0x9f else 0xbf)
      else if n ≤ 0xf4 then some (3, n % 0x08,
        if n = 0xf0 then 0x90 else 0x80, if n = 0xf4 then 0x8f else 0xbf)
      else none := by decide +kernel
  have hb := hall b.toNat b.toNat_lt
  rw [UInt8.ofNat_toNat] at hb
  exact hb

/-- The payload and the range of the second byte leave out what is too short, what stands
for no character and what is beyond the last one. -/
theorem lead?_range {b low high : UInt8} {tails bits : Nat}
    (h : lead? b = some (tails, bits, low, high)) :
    0x80 ≤ low.toNat ∧ high.toNat ≤ 0xbf ∧
      (tails = 1 ∧ 2 ≤ bits ∧ bits < 0x20 ∨
       tails = 2 ∧ bits < 0x10 ∧ (bits = 0 → 0xa0 ≤ low.toNat) ∧ (bits = 0xd → high.toNat ≤ 0x9f) ∨
       tails = 3 ∧ bits ≤ 4 ∧ (bits = 0 → 0x90 ≤ low.toNat) ∧ (bits = 4 → high.toNat ≤ 0x8f)) := by
  rw [lead?_eq] at h
  split_ifs at h
  all_goals
    cases h
    simp
    omega

theorem toNat_of_isTail {b : UInt8} (h : isTail b = true) : 0x80 ≤ b.toNat ∧ b.toNat ≤ 0xbf := by
  simpa [isTail, UInt8.le_iff_toNat_le] using h

theorem regular_wide {n width : Nat} (hvalid : n.isValidChar) (hn : 128 ≤ n) (hw : 0 < width) :
    (⟨Char.ofNat n, width⟩ : Glyph).Regular := by
  refine ⟨hw, fun hlt => ?_⟩
  rw [toNat_char hvalid] at hlt
  omega

/-- A glyph takes room, and one byte if its character is of seven bits. -/
theorem glyphAt_regular (b : UInt8) (rest : List UInt8) : (glyphAt b rest).Regular := by
  have hone (c : Char) : (⟨c, 1⟩ : Glyph).Regular := ⟨Nat.one_pos, fun _ => rfl⟩
  have hcut {width : Nat} (hw : 0 < width) : (⟨replacement, width⟩ : Glyph).Regular :=
    regular_wide (n := 0xfffd) (by decide) (by decide) hw
  unfold glyphAt
  split
  · exact hone _
  split
  · exact hone _
  rename_i tails bits low high hlead
  obtain ⟨hlow, hhigh, hrange⟩ := lead?_range hlead
  split
  · exact hone _
  rename_i b₁ rest₁
  split
  · exact hone _
  rename_i hb₁
  have hrange₁ : low.toNat ≤ b₁.toNat ∧ b₁.toNat ≤ high.toNat := by
    simpa [UInt8.le_iff_toNat_le] using hb₁
  split
  · refine regular_wide ?_ ?_ (by decide) <;> simp only [tailBits, Nat.isValidChar] <;> omega
  split
  · exact hcut (by decide)
  rename_i b₂ rest₂
  split
  · exact hcut (by decide)
  split
  · refine regular_wide ?_ ?_ (by decide) <;> simp only [tailBits, Nat.isValidChar] <;> omega
  split
  · exact hcut (by decide)
  split
  · exact hcut (by decide)
  · refine regular_wide ?_ ?_ (by decide) <;> simp only [tailBits, Nat.isValidChar] <;> omega

theorem glyphsFrom_regular (skip : Nat) (source : List UInt8) :
    ∀ g ∈ glyphsFrom skip source, g.Regular := by
  induction source generalizing skip with
  | nil =>
    intro g hg
    simp [glyphsFrom] at hg
  | cons b rest ih =>
    cases skip with
    | succ skip => exact ih skip
    | zero =>
      intro g hg
      rcases List.mem_cons.mp hg with rfl | hg
      · exact glyphAt_regular b rest
      · exact ih _ g hg

/-! ## Reading what was encoded -/

variable {b b₁ b₂ b₃ : UInt8}

theorem within {low high : UInt8} (hlow : low.toNat ≤ b.toNat) (hhigh : b.toNat ≤ high.toNat) :
    (decide (low ≤ b) && decide (b ≤ high)) = true := by
  simpa [UInt8.le_iff_toNat_le] using ⟨hlow, hhigh⟩

theorem not_narrow (h : 0x80 ≤ b.toNat) : ¬b < 0x80 := by
  rw [UInt8.lt_iff_toNat_lt]
  exact Nat.not_lt.mpr h

theorem glyphAt_two (rest : List UInt8) (hb : 0xc2 ≤ b.toNat) (hb' : b.toNat ≤ 0xdf)
    (h₁ : isTail b₁ = true) :
    glyphAt b (b₁ :: rest) = ⟨Char.ofNat (b.toNat % 0x20 * 0x40 + tailBits b₁), 2⟩ := by
  have hlead : lead? b = some (1, b.toNat % 0x20, 0x80, 0xbf) := by
    rw [lead?_eq, if_neg (by omega), if_pos hb']
  have h₁' : (decide (0x80 ≤ b₁) && decide (b₁ ≤ 0xbf)) = true := h₁
  rw [glyphAt, if_neg (not_narrow (by omega)), hlead]
  simp only [h₁', Bool.not_true, Bool.false_eq_true, if_false, if_true]

theorem glyphAt_three (rest : List UInt8) (hb : 0xe0 ≤ b.toNat) (hb' : b.toNat ≤ 0xef)
    (h₁ : isTail b₁ = true) (h₂ : isTail b₂ = true) (hlow : b.toNat = 0xe0 → 0xa0 ≤ b₁.toNat)
    (hhigh : b.toNat = 0xed → b₁.toNat ≤ 0x9f) :
    glyphAt b (b₁ :: b₂ :: rest) =
      ⟨Char.ofNat ((b.toNat % 0x10 * 0x40 + tailBits b₁) * 0x40 + tailBits b₂), 3⟩ := by
  obtain ⟨low, high, hlead, hrange⟩ : ∃ low high, lead? b = some (2, b.toNat % 0x10, low, high) ∧
      (decide (low ≤ b₁) && decide (b₁ ≤ high)) = true := by
    have htail := toNat_of_isTail h₁
    refine ⟨_, _, by rw [lead?_eq, if_neg (by omega), if_neg (by omega), if_pos hb'], within ?_ ?_⟩
    · split
      · exact hlow ‹_›
      · exact htail.1
    · split
      · exact hhigh ‹_›
      · exact htail.2
  rw [glyphAt, if_neg (not_narrow (by omega)), hlead]
  simp only [hrange, h₂, Bool.not_true, Bool.false_eq_true, if_false, if_true]
  rfl

theorem glyphAt_four (rest : List UInt8) (hb : 0xf0 ≤ b.toNat) (hb' : b.toNat ≤ 0xf4)
    (h₁ : isTail b₁ = true) (h₂ : isTail b₂ = true) (h₃ : isTail b₃ = true)
    (hlow : b.toNat = 0xf0 → 0x90 ≤ b₁.toNat) (hhigh : b.toNat = 0xf4 → b₁.toNat ≤ 0x8f) :
    glyphAt b (b₁ :: b₂ :: b₃ :: rest) =
      ⟨Char.ofNat (((b.toNat % 0x08 * 0x40 + tailBits b₁) * 0x40 + tailBits b₂) * 0x40 +
        tailBits b₃), 4⟩ := by
  obtain ⟨low, high, hlead, hrange⟩ : ∃ low high, lead? b = some (3, b.toNat % 0x08, low, high) ∧
      (decide (low ≤ b₁) && decide (b₁ ≤ high)) = true := by
    have htail := toNat_of_isTail h₁
    refine ⟨_, _, by rw [lead?_eq, if_neg (by omega), if_neg (by omega), if_neg (by omega),
      if_pos hb'], within ?_ ?_⟩
    · split
      · exact hlow ‹_›
      · exact htail.1
    · split
      · exact hhigh ‹_›
      · exact htail.2
  rw [glyphAt, if_neg (not_narrow (by omega)), hlead]
  simp only [hrange, h₂, h₃, Bool.not_true, Bool.false_eq_true, if_false]
  rfl

theorem toNat_byte {n : Nat} (h : n < 256) : (UInt8.ofNat n).toNat = n :=
  UInt8.toNat_ofNat_of_lt' h

theorem toNat_tail (n : Nat) : (UInt8.ofNat (n % 0x40 + 0x80)).toNat = n % 0x40 + 0x80 :=
  toNat_byte (by omega)

theorem isTail_tail (n : Nat) : isTail (UInt8.ofNat (n % 0x40 + 0x80)) = true := by
  refine within ?_ ?_
  · rw [toNat_tail]
    exact Nat.le_add_left _ _
  · rw [toNat_tail]
    exact Nat.add_le_add_right (Nat.le_of_lt_succ (Nat.mod_lt n (by decide))) 0x80

theorem tailBits_tail (n : Nat) : tailBits (UInt8.ofNat (n % 0x40 + 0x80)) = n % 0x40 := by
  rw [tailBits, toNat_tail]
  omega

theorem glyph_eq {n width : Nat} {c : Char} (h : n = c.toNat) :
    (⟨Char.ofNat n, width⟩ : Glyph) = ⟨c, width⟩ := by
  rw [h, Char.ofNat_toNat]

/-- The bytes of a character are read as that character, whatever follows. -/
theorem glyphAt_encodeChar (c : Char) : ∃ b bs, String.utf8EncodeChar c = b :: bs ∧
    ∀ rest, glyphAt b (bs ++ rest) = ⟨c, bs.length + 1⟩ := by
  have hvalid : c.toNat < 0xd800 ∨ 0xdfff < c.toNat ∧ c.toNat < 0x110000 := c.valid
  rw [String.utf8EncodeChar, Char.toNat_val]
  split
  · refine ⟨_, _, rfl, fun rest => ?_⟩
    have hc : c.toNat < 128 := by omega
    have hbyte : UInt8.ofNat c.toNat = c.val.toUInt8 := UInt8.ofNat_uInt32ToNat c.val
    rw [hbyte]
    exact glyphAt_narrow hc _
  split
  · refine ⟨_, _, rfl, fun rest => ?_⟩
    have hb : (UInt8.ofNat (c.toNat / 64 % 0x20 + 0xc0)).toNat = c.toNat / 64 % 0x20 + 0xc0 :=
      toNat_byte (by omega)
    refine (glyphAt_two rest ?_ ?_ (isTail_tail _)).trans (glyph_eq ?_)
    all_goals
      simp only [hb, tailBits_tail]
      omega
  split
  · refine ⟨_, _, rfl, fun rest => ?_⟩
    have hb : (UInt8.ofNat (c.toNat / 4096 % 0x10 + 0xe0)).toNat = c.toNat / 4096 % 0x10 + 0xe0 :=
      toNat_byte (by omega)
    refine (glyphAt_three rest ?_ ?_ (isTail_tail _) (isTail_tail _) ?_ ?_).trans (glyph_eq ?_)
    all_goals
      simp only [hb, tailBits_tail, toNat_tail]
      omega
  · refine ⟨_, _, rfl, fun rest => ?_⟩
    have hb : (UInt8.ofNat (c.toNat / 262144 % 0x08 + 0xf0)).toNat =
        c.toNat / 262144 % 0x08 + 0xf0 := toNat_byte (by omega)
    refine (glyphAt_four rest ?_ ?_ (isTail_tail _) (isTail_tail _) (isTail_tail _) ?_ ?_).trans
      (glyph_eq ?_)
    all_goals
      simp only [hb, tailBits_tail, toNat_tail]
      omega

theorem glyphsFrom_eq (skip : Nat) (source : List UInt8) :
    glyphsFrom skip source = glyphs (source.drop skip) := by
  induction source generalizing skip with
  | nil => simp [glyphs, glyphsFrom]
  | cons b rest ih =>
    cases skip with
    | zero => rfl
    | succ skip => exact ih skip

end Utf8

/-- A character, as wide as its encoding. -/
def Glyph.ofChar (c : Char) : Glyph := ⟨c, c.utf8Size⟩

namespace Utf8

/-- The bytes of characters. -/
def bytes (cs : List Char) : List UInt8 := cs.flatMap String.utf8EncodeChar

@[simp] theorem bytes_nil : bytes [] = [] := rfl

@[simp] theorem bytes_cons (c : Char) (cs : List Char) :
    bytes (c :: cs) = String.utf8EncodeChar c ++ bytes cs := rfl

@[simp] theorem bytes_append (as bs : List Char) : bytes (as ++ bs) = bytes as ++ bytes bs :=
  List.flatMap_append

theorem glyphs_bytes (cs : List Char) : glyphs (bytes cs) = cs.map Glyph.ofChar := by
  induction cs with
  | nil => rfl
  | cons c cs ih =>
    obtain ⟨b, bs, hbytes, hglyph⟩ := glyphAt_encodeChar c
    have hwidth : bs.length + 1 = c.utf8Size := by
      rw [← String.length_utf8EncodeChar, hbytes, List.length_cons]
    rw [bytes_cons, hbytes, List.cons_append, glyphs, glyphsFrom, hglyph, glyphsFrom_eq,
      Nat.add_sub_cancel, List.drop_left, ih, hwidth]
    rfl

theorem decode_bytes (cs : List Char) : decode (bytes cs) = String.ofList cs := by
  have hchar : Glyph.char ∘ Glyph.ofChar = id := rfl
  rw [decode, glyphs_bytes, List.map_map, hchar, List.map_id]

/-- The first glyphs of a text take the bytes of its first characters. -/
theorem bytesOf_ofChar (n : Nat) (cs : List Char) :
    Lexer.bytesOf n (cs.map Glyph.ofChar) = (bytes (cs.take n)).length := by
  induction cs generalizing n with
  | nil => simp
  | cons c cs ih =>
    cases n with
    | zero => rfl
    | succ n => simp [ih, Glyph.ofChar]

end Utf8

/-! ## The tree of a source -/

/-- The tree of a source lies between its glyphs. -/
theorem Node.isModule_ofSource? {source : List UInt8} {tree : Node}
    (h : Node.ofSource? source = some tree) :
    tree.IsModule (Glyph.Between (Utf8.glyphs source)) := by
  obtain ⟨tokens, htokens, htree⟩ := Option.bind_eq_some_iff.mp h
  have hfollow := Token.follow_ofGlyphs? (Utf8.glyphsFrom_regular 0 source) htokens
  split at htree
  · cases htree
    rename_i hreads
    obtain ⟨q, hq, -⟩ := Rule.keeps_fullText _ trivial hfollow hreads
    exact hq
  · cases htree

end Foregone
