import Foregone.Text.Blank
import Foregone.Text.Digit

/-! # Integer literals

An integer is written in base ten, or after `0x`, `0o` or `0b` in base sixteen,
eight or two. One underscore may stand between two digits and after the letter of
the base. In base ten a leading zero is only allowed in front of zeros, and no more
than `maxDigits` digits are read. Blanks around the text and one sign are accepted,
letters in either case, and the decimal digits of every script. -/

namespace Foregone.Literal

/-- The most digits of a decimal literal. -/
def maxDigits : Nat := 4300

/-- The plain form of a character: digits of any script as `0` to `9`, all blanks
alike, letters in lower case. -/
def plain (c : Char) : Char :=
  match Text.decimalDigit? c with
  | some d => Char.ofNat ('0'.toNat + d)
  | none => if Text.isBlank c then ' ' else c.toLower

/-- A digit of the given base. -/
def digitBelow? (base : Nat) (c : Char) : Option Nat :=
  match Text.digit? c with
  | some d => if d < base then some d else none
  | none => none

/-- The digits of a text in which an underscore may stand between two digits. -/
def digits? (base : Nat) : List Char → Option (List Nat)
  | [] => none
  | [c] => (digitBelow? base c).map fun d => [d]
  | c :: '_' :: rest =>
    match digitBelow? base c, digits? base rest with
    | some d, some ds => some (d :: ds)
    | _, _ => none
  | c :: rest =>
    match digitBelow? base c, digits? base rest with
    | some d, some ds => some (d :: ds)
    | _, _ => none

/-- The number with the given digits, highest first. -/
def ofDigits (base : Nat) (ds : List Nat) : Nat := ds.foldl (fun n d => n * base + d) 0

/-- The digits after the letter of a base; an underscore may come first. -/
def based? (base : Nat) (cs : List Char) : Option Nat :=
  let body := match cs with
    | '_' :: rest => rest
    | _ => cs
  (digits? base body).map (ofDigits base)

/-- A decimal number. -/
def decimal? (cs : List Char) : Option Nat :=
  match digits? 10 cs with
  | some ds =>
    if maxDigits < ds.length then none
    else if ds.head? = some 0 ∧ ofDigits 10 ds ≠ 0 then none
    else some (ofDigits 10 ds)
  | none => none

/-- A number without a sign. -/
def natural? : List Char → Option Nat
  | '0' :: 'x' :: rest => based? 16 rest
  | '0' :: 'o' :: rest => based? 8 rest
  | '0' :: 'b' :: rest => based? 2 rest
  | cs => decimal? cs

/-- A number with an optional sign. -/
def signed? : List Char → Option Int
  | '+' :: rest => (natural? rest).map Int.ofNat
  | '-' :: rest => (natural? rest).map fun n => -Int.ofNat n
  | cs => (natural? cs).map Int.ofNat

/-- The text without the blanks around it. -/
def trimmed (cs : List Char) : List Char :=
  ((cs.dropWhile (· == ' ')).reverse.dropWhile (· == ' ')).reverse

/-- The integer a text stands for. -/
def integer? (text : String) : Option Int := signed? (trimmed (text.toList.map plain))

end Foregone.Literal
