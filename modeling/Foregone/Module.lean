import Foregone.Grammar.Statement
import Foregone.Token.Lexer

/-! # Source texts as trees -/

namespace Foregone

/-- The tree of a source text, if the text follows the grammar. -/
def Node.ofSource? (source : List UInt8) : Option Node := do
  let tokens ← Token.ofGlyphs? (Utf8.glyphs source)
  match (Rule.fullText tokens.length).run tokens with
  | some (tree, []) => some tree
  | _ => none

end Foregone
