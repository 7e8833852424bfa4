import Foregone.Text.Quoted

/-! # JSON strings

Only printable seven-bit characters stand for themselves. All others are escaped,
those beyond the first 65536 as two halves. -/

namespace Foregone.Text

/-- One sixteen-bit unit as an escape. -/
def jsonUnit (n : Nat) : String := "\\u" ++ hex 4 n

/-- One character inside a JSON string. -/
def jsonChar (c : Char) : String :=
  if c == '"' then "\\\""
  else if c == '\\' then "\\\\"
  else if c == '\n' then "\\n"
  else if c == '\r' then "\\r"
  else if c == '\t' then "\\t"
  else if c == '\x08' then "\\b"
  else if c == '\x0c' then "\\f"
  else if 32 ≤ c.toNat && c.toNat < 127 then c.toString
  else if c.toNat < 0x10000 then jsonUnit c.toNat
  else
    let n := c.toNat - 0x10000
    jsonUnit (0xd800 + n / 0x400) ++ jsonUnit (0xdc00 + n % 0x400)

def jsonString (s : String) : String :=
  "\"" ++ "".intercalate (s.toList.map jsonChar) ++ "\""

end Foregone.Text
