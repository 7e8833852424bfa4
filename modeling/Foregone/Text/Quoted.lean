import Foregone.Text.Printable

/-! # Quoted text

A text between quotes, in one line. Single quotes are used unless the text holds
one and no double quote. The quote, the backslash and what cannot be shown are
escaped; control characters with a name use it, all others are written as
hexadecimal code points of two, four or eight digits. -/

namespace Foregone.Text

/-- `n` in base sixteen with at least `width` digits. -/
def hex (width n : Nat) : String :=
  let digits := Nat.toDigits 16 n
  String.ofList (List.replicate (width - digits.length) '0' ++ digits)

/-- One character inside the quotes. -/
def quotedChar (quote c : Char) : String :=
  if c == quote || c == '\\' then "\\" ++ c.toString
  else if c == '\n' then "\\n"
  else if c == '\r' then "\\r"
  else if c == '\t' then "\\t"
  else if isPrintable c then c.toString
  else if c.toNat < 0x100 then "\\x" ++ hex 2 c.toNat
  else if c.toNat < 0x10000 then "\\u" ++ hex 4 c.toNat
  else "\\U" ++ hex 8 c.toNat

def quoted (s : String) : String :=
  let cs := s.toList
  let quote := if cs.contains '\'' && !cs.contains '"' then '"' else '\''
  quote.toString ++ "".intercalate (cs.map (quotedChar quote)) ++ quote.toString

end Foregone.Text
