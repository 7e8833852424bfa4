import Foregone.Token
import Foregone.Token.Scan

/-! # From glyphs to tokens

One pass over the glyphs. Outside all brackets the layout counts: a line end closes
a statement, a deeper line after a colon opens a block, and a shallower line closes
blocks. A comment on a line of its own belongs to the innermost block it is indented
for, if a block is closed after it at all. Strings are passed over up to their
closing quotes; the replacement fields of a formatted string are read like any other
code. -/

namespace Foregone

namespace Lexer

/-- What the next glyph stands in, besides plain code. -/
inductive Mode where
  /-- between brackets -/
  | bracket
  /-- in a string; `fresh` right after its start, an escape or a replacement field,
  where a line end is allowed even between single quotes -/
  | text (delimiter : Scan.Delimiter) (fresh : Bool)
  /-- in a replacement field, with the number of lambdas whose colon is to come -/
  | field (lambdas : Nat)
  /-- in the format of a replacement field -/
  | format
  deriving DecidableEq, Repr

/-- How far the current line has come. -/
inductive Line where
  /-- nothing but blanks and comments yet -/
  | fresh
  /-- in a statement -/
  | begun
  /-- right after a colon -/
  | colon
  deriving DecidableEq, Repr

structure State where
  /-- bytes passed over -/
  offset : Nat := 0
  /-- where the last token or extra ended -/
  last : Nat := 0
  /-- extras in front of the next token -/
  extras : List Node := []
  /-- tokens so far, latest first -/
  tokens : List Token := []
  /-- indentations of the open blocks, innermost first -/
  indents : List Nat := []
  modes : List Mode := []
  line : Line := .fresh
  /-- indentation of the current line so far -/
  column : Nat := 0
  deriving Inhabited

namespace State

/-- Indentation of the innermost block. -/
def block (st : State) : Nat := st.indents.headD 0

/-- Put out a token together with the extras in front of it. -/
def emit (st : State) (kind : TokenKind) (start stop : Nat) : State :=
  { st with tokens := ⟨kind, start, stop, st.extras⟩ :: st.tokens, extras := [], last := stop }

/-- Put out a token of the given number of bytes that starts here. -/
def emitHere (st : State) (kind : TokenKind) (bytes : Nat) : State :=
  st.emit kind st.offset (st.offset + bytes)

/-- Put out a token that takes no room. -/
def emitLayout (st : State) (kind : TokenKind) : State := st.emit kind st.last st.last

/-- Set an extra aside for the next token. -/
def addExtra (st : State) (kind : Kind) (bytes : Nat) : State :=
  { st with
    extras := st.extras ++ [.leaf kind none st.offset (st.offset + bytes) ""]
    last := st.offset + bytes }

/-- Close the blocks deeper than `width`. -/
def closeBlocks (st : State) (width : Nat) : State :=
  (st.indents.takeWhile (width < ·)).foldl
    (fun s _ => { s.emitLayout .dedent with indents := s.indents.drop 1 }) st

/-- The end of a line outside all brackets; `ahead` is the indentation of the next one. -/
def endLine (st : State) (ahead : Nat) : State :=
  match st.line with
  | .fresh => { st with column := 0 }
  | .begun => { st.emitLayout .newline with line := .fresh, column := 0 }
  | .colon =>
    if st.block < ahead then
      { st.emitLayout .indent with indents := ahead :: st.indents, line := .fresh, column := 0 }
    else { st.emitLayout .newline with line := .fresh, column := 0 }

/-- A blank: it counts as indentation at the beginning of a line. -/
def passBlank (st : State) (c : Char) : State :=
  if st.modes = [] ∧ st.line = .fresh then
    if c == ' ' then { st with column := st.column + 1 }
    else if c == '\t' then { st with column := st.column + 8 }
    else if c == '\r' || c == '\x0c' then { st with column := 0 }
    else st
  else st

/-- A token comes next: on a fresh line it first closes the deeper blocks. -/
def beginToken (st : State) : State :=
  if st.modes = [] then
    let st := if st.line = .fresh then st.closeBlocks st.column else st
    { st with line := .begun }
  else st

/-- A comment comes next: on a fresh line it first closes the blocks that it and the
next line are both too shallow for. -/
def beginComment (st : State) (ahead : Nat) : State :=
  if st.modes = [] ∧ st.line = .fresh then st.closeBlocks (max st.column ahead) else st

end State

/-- The bytes of the first `n` glyphs. -/
def bytesOf (n : Nat) (gs : List Glyph) : Nat :=
  (gs.take n).foldl (fun total g => total + g.width) 0

/-- What a step makes of the glyph at hand: the new state and how many of the glyphs
after it are passed over. -/
abbrev Step := Option (State × Nat)

/-- A name or keyword. -/
def nameStep (st : State) (gs : List Glyph) : Step :=
  let n := Scan.run Text.isIdentifierPart (gs.drop 1) + 1
  let text := Scan.textOf n gs
  let st := st.beginToken.emitHere (.name text) (bytesOf n gs)
  let modes := match text, st.modes with
    | "lambda", .field lambdas :: outer => .field (lambdas + 1) :: outer
    | _, modes => modes
  some ({ st with modes := modes }, n - 1)

def numberStep (st : State) (gs : List Glyph) : Step :=
  let number := Scan.number gs
  let kind := if number.isInteger then .integer (Scan.textOf number.length gs) else .float
  some (st.beginToken.emitHere kind (bytesOf number.length gs), number.length - 1)

/-- A token behind which a name may be the target of `:=`. -/
def precedesTarget : TokenKind → Bool
  | .fieldOpen => true
  | .mark text => [",", ":", "="].contains text
  | .name text => ["and", "or", "not", "if", "else", "as", "yield", "from"].contains text
  | _ => false

/-- In a replacement field a colon begins the format even if an equals sign is next,
unless a name stands alone in front of it. -/
def beginsFormat (st : State) (text : String) : Bool :=
  match st.modes, st.tokens with
  | .field 0 :: _, last :: before :: _ =>
    text == ":=" && !(match last.kind with
      | .name name => isOperandName name && precedesTarget before.kind
      | _ => false)
  | _, _ => false

/-- An operator or punctuation. Brackets open and close modes, and in a replacement
field the colon and the closing brace have a meaning of their own. -/
def markStep (st : State) (text : String) : Step :=
  let st := st.beginToken
  let text := if beginsFormat st text then ":" else text
  let n := text.length
  let plain := st.emitHere (.mark text) n
  match text, st.modes with
  | "(", modes | "[", modes | "\x7b", modes =>
    some ({ plain with modes := .bracket :: modes }, n - 1)
  | ")", .bracket :: outer | "]", .bracket :: outer | "\x7d", .bracket :: outer =>
    some ({ plain with modes := outer }, n - 1)
  | "\x7d", .field _ :: outer =>
    some ({ st.emitHere .fieldClose n with modes := outer }, n - 1)
  | ":", .field 0 :: outer =>
    some ({ st.emitHere .fieldFormat n with modes := .format :: outer }, n - 1)
  | ":", .field (lambdas + 1) :: outer =>
    some ({ plain with modes := .field lambdas :: outer }, n - 1)
  | ":", [] => some ({ plain with line := .colon }, n - 1)
  | _, _ => some (plain, n - 1)

/-- The conversion of a replacement field: an exclamation mark and a small letter. -/
def conversionStep (st : State) (gs : List Glyph) : Step :=
  match st.modes, gs with
  | .field _ :: _, bang :: letter :: _ =>
    if bang.char == '!' && 'a' ≤ letter.char && letter.char ≤ 'z' then
      some (st.emitHere .conversion 2, 1)
    else none
  | _, _ => none

/-- One step in code. -/
def codeStep (st : State) (g : Glyph) (rest : List Glyph) : Step :=
  let gs := g :: rest
  if g.char == '\n' && st.modes.isEmpty then
    some (st.endLine (Scan.indentAhead 0 false rest), 0)
  else if g.char == '\\' then
    if Scan.startsWith rest "\r\n" then some (st.addExtra .lineJoin 3, 2)
    else if Scan.startsWith rest "\n" then some (st.addExtra .lineJoin 2, 1)
    else if rest.isEmpty then some (st.addExtra .lineJoin 1, 0)
    else none
  else if Scan.isGap g.char then some (st.passBlank g.char, 0)
  else if g.char == '#' then
    let n := Scan.run (· != '\n') rest
    let st := st.beginComment (Scan.indentAhead st.column false gs)
    some (st.addExtra .comment (bytesOf (n + 1) gs), n)
  else match Scan.delimiter? gs with
    | some (d, n) =>
      let st := st.beginToken.emitHere .stringOpen (bytesOf n gs)
      some ({ st with modes := .text d true :: st.modes }, n - 1)
    | none =>
      if Scan.startsNumber gs then numberStep st gs
      else if Text.isIdentifierStart g.char then nameStep st gs
      else match Scan.mark? gs with
        | some text => markStep st text
        | none => conversionStep st gs

/-- One step in a string. -/
def textStep (st : State) (d : Scan.Delimiter) (fresh : Bool) (outer : List Mode) (g : Glyph)
    (rest : List Glyph) : Step :=
  let stay (fresh : Bool) : State := { st with modes := .text d fresh :: outer }
  if d.format && g.char == '\x7b' then
    if Scan.headIs (· == '\x7b') rest then some (stay true, 1)
    else
      let st := st.emitHere .fieldOpen 1
      some ({ st with modes := .field 0 :: .text d true :: outer }, 0)
  else if d.format && g.char == '\x7d' then
    if Scan.headIs (· == '\x7d') rest then some (stay true, 1) else none
  else if g.char == '\\' then some (stay (fresh || !d.raw), Scan.escaped d rest)
  else if g.char == d.quote then
    if !d.triple then some ({ st.emitHere .stringClose 1 with modes := outer }, 0)
    else if Scan.startsWith rest (String.ofList [d.quote, d.quote]) then
      some ({ st.emitHere .stringClose 3 with modes := outer }, 2)
    else some (stay false, 0)
  else if g.char == '\n' && !d.triple && !fresh then none
  else some (stay false, 0)

/-- One step in the format of a replacement field. -/
def formatStep (st : State) (outer : List Mode) (g : Glyph) : Step :=
  if g.char == '\x7b' then
    some ({ st.emitHere .fieldOpen 1 with modes := .field 0 :: .format :: outer }, 0)
  else if g.char == '\x7d' then some ({ st.emitHere .fieldClose 1 with modes := outer }, 0)
  else if g.char == '\n' then none
  else some (st, 0)

def step (st : State) (g : Glyph) (rest : List Glyph) : Step :=
  match st.modes with
  | .text d fresh :: outer => textStep st d fresh outer g rest
  | .format :: outer => formatStep st outer g
  | _ => codeStep st g rest

/-- The end of the text: all lines and blocks end here, and no bracket or string may
be open. -/
def finish (st : State) : Option (List Token) :=
  if st.modes = [] then
    let st := (st.endLine 0).closeBlocks 0
    some (st.emitLayout .endOfText).tokens.reverse
  else none

/-- Read glyph after glyph, passing over the first `skip`, which belong to the token
before. -/
def tokensFrom (st : State) : Nat → List Glyph → Option (List Token)
  | _, [] => finish st
  | skip + 1, g :: rest => tokensFrom { st with offset := st.offset + g.width } skip rest
  | 0, g :: rest =>
    match step st g rest with
    | some (st, skip) => tokensFrom { st with offset := st.offset + g.width } skip rest
    | none => none

end Lexer

/-- The tokens of a text, if it is made of tokens. -/
def Token.ofGlyphs? (gs : List Glyph) : Option (List Token) := Lexer.tokensFrom {} 0 gs

end Foregone
