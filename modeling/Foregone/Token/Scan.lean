import Foregone.Text.Blank
import Foregone.Text.Identifier
import Foregone.Text.Utf8

/-! # How far a token reaches

Each function looks at the glyphs at the head of a list and says how many of them
belong together. A token is always the longest stretch that fits. -/

namespace Foregone.Scan

/-- The first character of a list. -/
def headIs (p : Char → Bool) : List Glyph → Bool
  | g :: _ => p g.char
  | [] => false

/-- The number of glyphs at the head that satisfy `p`. -/
def run (p : Char → Bool) : List Glyph → Nat
  | g :: rest => if p g.char then run p rest + 1 else 0
  | [] => 0

/-- The text of the first `n` glyphs. -/
def textOf (n : Nat) (gs : List Glyph) : String := String.ofList ((gs.take n).map Glyph.char)

/-- Blanks between tokens; three that take no room on screen count too. -/
def isGap (c : Char) : Bool :=
  Text.isBlank c || c == '\uFEFF' || c == '\u2060' || c == '\u200B'

def isHexDigit (c : Char) : Bool :=
  c.isDigit || ('a' ≤ c && c ≤ 'f') || ('A' ≤ c && c ≤ 'F')

/-- Decimal digits; each may be followed by one underscore. -/
def decimalRun : List Glyph → Nat
  | d :: u :: rest =>
    if d.char.isDigit then
      if u.char == '_' then decimalRun rest + 2 else decimalRun (u :: rest) + 1
    else 0
  | [d] => if d.char.isDigit then 1 else 0
  | [] => 0

/-- Digits after the letter of a base; each may follow one underscore. -/
def basedRun (p : Char → Bool) : List Glyph → Nat
  | u :: d :: rest =>
    if u.char == '_' then if p d.char then basedRun p rest + 2 else 0
    else if p u.char then basedRun p (d :: rest) + 1 else 0
  | [d] => if p d.char then 1 else 0
  | [] => 0

/-- One optional character. -/
def optional (p : Char → Bool) (gs : List Glyph) : Nat := if headIs p gs then 1 else 0

/-- An exponent: the letter, a sign if there is one, and digits. -/
def exponent (gs : List Glyph) : Nat :=
  if headIs (fun c => c == 'e' || c == 'E') gs then
    let sign := optional (fun c => c == '+' || c == '-') (gs.drop 1)
    let digits := decimalRun (gs.drop (1 + sign))
    if digits = 0 then 0 else 1 + sign + digits
  else 0

/-- The length of a number, and whether it is an integer. -/
structure Number where
  length : Nat
  isInteger : Bool
  deriving DecidableEq, Repr

/-- An optional letter for imaginary numbers closes a number with a fraction. -/
def fraction (length : Nat) (gs : List Glyph) : Number :=
  ⟨length + optional (fun c => c == 'j' || c == 'J') (gs.drop length), false⟩

/-- A number in base ten: digits, then a fraction, an exponent or a letter. -/
def decimal (gs : List Glyph) : Number :=
  let whole := decimalRun gs
  let rest := gs.drop whole
  if headIs (· == '.') rest then
    let places := decimalRun (rest.drop 1)
    let length := whole + 1 + places
    fraction (length + exponent (gs.drop length)) gs
  else if exponent rest ≠ 0 then fraction (whole + exponent rest) gs
  else ⟨whole + optional (fun c => c == 'l' || c == 'L' || c == 'j' || c == 'J') rest, true⟩

/-- Digits of another base after its letter, or a decimal number if there are none. -/
def based (p : Char → Bool) (gs : List Glyph) : Number :=
  let digits := basedRun p (gs.drop 2)
  if digits = 0 then decimal gs
  else ⟨2 + digits + optional (fun c => c == 'l' || c == 'L') (gs.drop (2 + digits)), true⟩

/-- The number at the head of a list that starts with a digit, or with a point and a
digit. -/
def number (gs : List Glyph) : Number :=
  match gs with
  | zero :: letter :: _ =>
    if zero.char == '0' then
      match letter.char with
      | 'x' | 'X' => based isHexDigit gs
      | 'o' | 'O' => based (fun c => '0' ≤ c && c ≤ '7') gs
      | 'b' | 'B' => based (fun c => c == '0' || c == '1') gs
      | _ => decimal gs
    else decimal gs
  | _ => decimal gs

/-- A number starts here. -/
def startsNumber : List Glyph → Bool
  | g :: rest => g.char.isDigit || (g.char == '.' && headIs Char.isDigit rest)
  | [] => false

/-- Operators and punctuation, longer ones first. -/
def marks : List String := [
  "**=", "//=", ">>=", "<<=", "...",
  "**", "//", ">>", "<<", "<=", ">=", "==", "!=", "<>", "->", ":=",
  "+=", "-=", "*=", "/=", "%=", "@=", "&=", "|=", "^=",
  "+", "-", "*", "/", "%", "@", "&", "|", "^", "~", "<", ">", "(", ")", "[", "]",
  "\x7b", "\x7d", ",", ":", ".", ";", "="]

/-- The list starts with the given text. -/
def startsWith (gs : List Glyph) (text : String) : Bool :=
  (gs.take text.length).map Glyph.char == text.toList

/-- The longest operator or punctuation at the head. -/
def mark? (gs : List Glyph) : Option String := marks.find? (startsWith gs)

/-- How a string is written. -/
structure Delimiter where
  quote : Char
  /-- three quotes on each side, so that line ends may stand inside -/
  triple : Bool
  /-- backslashes are plain characters -/
  raw : Bool
  /-- bytes instead of text -/
  bytes : Bool
  /-- braces open replacement fields -/
  format : Bool
  deriving DecidableEq, Repr

def isFormatFlag (c : Char) : Bool := c == 'f' || c == 'F' || c == 't' || c == 'T'

def isRawFlag (c : Char) : Bool := c == 'r' || c == 'R'

def isBytesFlag (c : Char) : Bool := c == 'b' || c == 'B'

def isFlag (c : Char) : Bool :=
  isFormatFlag c || isRawFlag c || isBytesFlag c || c == 'u' || c == 'U'

def isQuote (c : Char) : Bool := c == '\'' || c == '"' || c == '\x60'

/-- A string starts here: the letters that say how it is written, then one quote or
three. Also the number of glyphs up to its content. -/
def delimiter? (gs : List Glyph) : Option (Delimiter × Nat) :=
  let flags := run isFlag gs
  match gs.drop flags with
  | q :: rest =>
    if isQuote q.char then
      let letters := (gs.take flags).map Glyph.char
      let triple := q.char != '\x60' && startsWith rest (String.ofList [q.char, q.char])
      some ({ quote := q.char, triple := triple, raw := letters.any isRawFlag,
              bytes := letters.any isBytesFlag, format := letters.any isFormatFlag },
        flags + (if triple then 3 else 1))
    else none
  | [] => none

/-- How many glyphs after a backslash belong to it. A line end, a quote and a
backslash are taken with it; so is a character given by its name in braces. -/
def escaped (d : Delimiter) (gs : List Glyph) : Nat :=
  if startsWith gs "\r\n" then 2
  else match gs with
    | [] => 0
    | g :: rest =>
      if g.char == d.quote || g.char == '\\' || g.char == '\n' then 1
      else if d.raw then 0
      else if g.char == '\'' || g.char == '"' then 1
      else if g.char == 'N' && !d.bytes && headIs (· == '\x7b') rest then
        let name := run (fun c => c != '\x7d') (rest.drop 1)
        if name ≠ 0 && headIs (· == '\x7d') (rest.drop (1 + name)) then name + 3 else 0
      else 0

/-- The indentation of the next line that holds more than a comment, counted from a
place where `width` columns are taken; a tab counts eight, and the end of the text
is not indented. -/
def indentAhead : Nat → Bool → List Glyph → Nat
  | _, _, [] => 0
  | width, true, g :: rest =>
    if g.char == '\n' then indentAhead 0 false rest else indentAhead width true rest
  | width, false, g :: rest =>
    if g.char == '\n' || g.char == '\r' || g.char == '\x0c' then indentAhead 0 false rest
    else if g.char == ' ' then indentAhead (width + 1) false rest
    else if g.char == '\t' then indentAhead (width + 8) false rest
    else if g.char == '#' then indentAhead width true rest
    else width

end Foregone.Scan
