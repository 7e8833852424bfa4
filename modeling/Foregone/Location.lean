import Foregone.Text.Utf8
import Foregone.Tree

/-! # Places in a source

A place is given by line and column, both counted from one. Columns count
characters, so a place is the same whatever room the characters before it take. -/

namespace Foregone

/-- From the first character to the place right after the last one. -/
structure Location where
  line : Nat
  column : Nat
  endLine : Nat
  endColumn : Nat
  deriving DecidableEq, Repr, Inhabited

namespace Location

/-- The byte that ends a line. -/
def lineEnd : UInt8 := 0x0a

/-- The bytes of the line before an offset. -/
def lineBefore (source : List UInt8) (offset : Nat) : List UInt8 :=
  ((source.take offset).reverse.takeWhile (· != lineEnd)).reverse

/-- The line an offset is on. -/
def lineAt (source : List UInt8) (offset : Nat) : Nat := (source.take offset).count lineEnd + 1

/-- The column of an offset. -/
def columnAt (source : List UInt8) (offset : Nat) : Nat :=
  (Utf8.glyphs (lineBefore source offset)).length + 1

/-- The place of a stretch of bytes. -/
def ofBytes (source : List UInt8) (start stop : Nat) : Location :=
  ⟨lineAt source start, columnAt source start, lineAt source stop, columnAt source stop⟩

def ofNode (source : List UInt8) (n : Node) : Location := ofBytes source n.start n.stop

/-- Where it starts. -/
def text (l : Location) : String := toString l.line ++ ":" ++ toString l.column

end Location

/-- The text of a node in its source. -/
def Node.sourceText (source : List UInt8) (n : Node) : String :=
  Utf8.decode ((source.drop n.start).take (n.stop - n.start))

end Foregone
