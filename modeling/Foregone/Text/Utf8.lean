/-! # Text as bytes

A source is a list of bytes. It is read as UTF-8, one glyph after the other; bytes
that are no text are read as the replacement character, one for each stretch that
begins like a character and is cut short. Each glyph keeps the number of bytes it
was read from, so positions can be given in bytes and in characters. -/

namespace Foregone

/-- A character together with the number of bytes it was read from. -/
structure Glyph where
  char : Char
  width : Nat
  deriving DecidableEq, Repr, Inhabited

namespace Utf8

/-- A byte that continues a character. -/
def isTail (b : UInt8) : Bool := 0x80 ≤ b && b ≤ 0xbf

/-- The payload of a byte that continues a character. -/
def tailBits (b : UInt8) : Nat := b.toNat % 0x40

/-- How a character starts: the number of bytes that follow, the payload of the
first byte, and the range of the second byte. The range leaves out overlong forms,
surrogates and code points beyond the last one. -/
def lead? (b : UInt8) : Option (Nat × Nat × UInt8 × UInt8) :=
  if 0xc2 ≤ b && b ≤ 0xdf then some (1, b.toNat % 0x20, 0x80, 0xbf)
  else if b == 0xe0 then some (2, 0, 0xa0, 0xbf)
  else if b == 0xed then some (2, b.toNat % 0x10, 0x80, 0x9f)
  else if 0xe1 ≤ b && b ≤ 0xef then some (2, b.toNat % 0x10, 0x80, 0xbf)
  else if b == 0xf0 then some (3, 0, 0x90, 0xbf)
  else if b == 0xf4 then some (3, 4, 0x80, 0x8f)
  else if 0xf1 ≤ b && b ≤ 0xf3 then some (3, b.toNat % 0x08, 0x80, 0xbf)
  else none

/-- The character that replaces what is no text. -/
def replacement : Char := '\uFFFD'

/-- The glyph at the head of a nonempty source. -/
def glyphAt (b : UInt8) (rest : List UInt8) : Glyph :=
  if b < 0x80 then ⟨Char.ofNat b.toNat, 1⟩
  else match lead? b with
    | none => ⟨replacement, 1⟩
    | some (tails, bits, low, high) =>
      match rest with
      | [] => ⟨replacement, 1⟩
      | b₁ :: rest₁ =>
        if !(low ≤ b₁ && b₁ ≤ high) then ⟨replacement, 1⟩
        else if tails = 1 then ⟨Char.ofNat (bits * 0x40 + tailBits b₁), 2⟩
        else match rest₁ with
          | [] => ⟨replacement, 2⟩
          | b₂ :: rest₂ =>
            if !isTail b₂ then ⟨replacement, 2⟩
            else if tails = 2 then
              ⟨Char.ofNat ((bits * 0x40 + tailBits b₁) * 0x40 + tailBits b₂), 3⟩
            else match rest₂ with
              | [] => ⟨replacement, 3⟩
              | b₃ :: _ =>
                if !isTail b₃ then ⟨replacement, 3⟩
                else ⟨Char.ofNat (((bits * 0x40 + tailBits b₁) * 0x40 + tailBits b₂) * 0x40
                  + tailBits b₃), 4⟩

/-- Read glyph after glyph, passing over the first `skip` bytes, which belong to the
glyph before. -/
def glyphsFrom : Nat → List UInt8 → List Glyph
  | _, [] => []
  | skip + 1, _ :: rest => glyphsFrom skip rest
  | 0, b :: rest => glyphAt b rest :: glyphsFrom ((glyphAt b rest).width - 1) rest

/-- The glyphs of a source. -/
def glyphs (source : List UInt8) : List Glyph := glyphsFrom 0 source

/-- The characters of a source. -/
def decode (source : List UInt8) : String := String.ofList ((glyphs source).map Glyph.char)

/-- The bytes of a text. -/
def encode (text : String) : List UInt8 := text.toUTF8.toList

end Utf8
end Foregone
