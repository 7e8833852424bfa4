import Foregone.Tree

/-! # Tokens

The words a source is made of. The end of a statement and the beginning and end of
an indented block are tokens of their own that take no room. A string is given in
parts, because a formatted string holds replacement fields with tokens in them. -/

namespace Foregone

inductive TokenKind where
  | name (text : String)
  | integer (text : String)
  | float
  /-- an operator or punctuation -/
  | mark (text : String)
  | stringOpen
  | stringClose
  /-- the brace that opens a replacement field -/
  | fieldOpen
  /-- the letter of a conversion in a replacement field, with its exclamation mark -/
  | conversion
  /-- the colon in front of a format -/
  | fieldFormat
  | fieldClose
  /-- the end of a line that may end a statement -/
  | newline
  | indent
  | dedent
  | endOfText
  deriving DecidableEq, Repr, Inhabited

/-- A token, its stretch of bytes, and the comments and joined lines in front of it. -/
structure Token where
  kind : TokenKind
  start : Nat
  stop : Nat
  leading : List Node
  deriving Inhabited

/-- Words that are never plain names. -/
def reservedWords : List String := [
  "False", "None", "True", "and", "as", "assert", "async", "await", "break", "class", "continue",
  "def", "del", "elif", "else", "except", "finally", "for", "from", "global", "if", "import",
  "in", "is", "lambda", "nonlocal", "not", "or", "pass", "raise", "return", "try", "while",
  "with", "yield"]

/-- A word that is a name wherever a name is expected. -/
def isPlainName (text : String) : Bool := !reservedWords.contains text

/-- A word that is a name at the head of an expression, where `async` and `await` may
stand for themselves. -/
def isOperandName (text : String) : Bool :=
  isPlainName text || text == "async" || text == "await"

namespace Token

def isMark (t : Token) (text : String) : Bool := t.kind == .mark text

def isName (t : Token) (text : String) : Bool := t.kind == .name text

/-- The token as a leaf. -/
def leaf (t : Token) : Node :=
  match t.kind with
  | .name text => .leaf (.mark text) none t.start t.stop text
  | .integer text => .leaf .integer none t.start t.stop text
  | .float => .leaf .float none t.start t.stop ""
  | .mark text => .leaf (.mark text) none t.start t.stop text
  | _ => .leaf .layout none t.start t.stop ""

end Token
end Foregone
