import Foregone.Text.Ranges

/-! # Blank characters -/

namespace Foregone.Text

/-- Blank characters beyond the seven-bit range. -/
def wideBlankRanges : List (Nat × Nat) := [
  (0x85, 0x85), (0xa0, 0xa0), (0x1680, 0x1680), (0x2000, 0x200a), (0x2028, 0x2029),
  (0x202f, 0x202f), (0x205f, 0x205f), (0x3000, 0x3000)]

/-- Tab, line ends, form feed and the blank, and their relatives beyond the
seven-bit range. -/
def isBlank (c : Char) : Bool :=
  if c.toNat < 128 then c == ' ' || (9 ≤ c.toNat && c.toNat ≤ 13)
  else inRanges wideBlankRanges c

end Foregone.Text
