import Foregone.Token

/-! # Rules of the grammar

A rule reads tokens from the head of a list and yields what it has read, or fails.
Children are collected with the extras in front of them, so that every comment and
every joined line ends up in the smallest node around it. A line end is read as a
token only where a statement may end; where anything has to follow it is passed over. -/

namespace Foregone

abbrev Rule (α : Type) := StateT (List Token) Option α

namespace Rule

/-- The next token, which stays. -/
def peek : Rule Token := do
  match ← get with
  | t :: _ => return t
  | [] => failure

/-- The token after the next. -/
def peekSecond? : Rule (Option Token) := do
  match ← get with
  | _ :: t :: _ => return some t
  | _ => return none

/-- Take the next token, with the extras in front of it. -/
def shift : Rule (List Node) := do
  match ← get with
  | t :: rest =>
    set rest
    return t.leading ++ [t.leaf]
  | [] => failure

/-- Take the next token as a leaf of the given kind. -/
def shiftAs (kind : Kind) (text : String) : Rule Node := do
  match ← get with
  | t :: rest =>
    set rest
    return .leaf kind none t.start t.stop text
  | [] => failure

/-- Take the next token as a labelled child. -/
def shiftLabelled (l : Label) : Rule (List Node) := do
  match ← get with
  | t :: rest =>
    set rest
    return t.leading ++ [t.leaf.labelled l]
  | [] => failure

def atMark (text : String) : Rule Bool := return (← peek).isMark text

def atName (text : String) : Rule Bool := return (← peek).isName text

def atKind (kind : TokenKind) : Rule Bool := return (← peek).kind == kind

/-- Pass over line ends where no statement can end. -/
def skipNewlines : Rule Unit := modify fun ts => ts.dropWhile fun t => t.kind == .newline

/-- Two stars are two marks where no operator can stand. -/
def splitStars : Rule Unit := modify fun ts =>
  match ts with
  | t :: rest =>
    if t.isMark "**" then
      { t with kind := .mark "*", stop := t.start + 1 } ::
        ⟨.mark "*", t.start + 1, t.stop, []⟩ :: rest
    else ts
  | [] => []

/-- A mark that has to follow. -/
def mark (text : String) : Rule (List Node) := do
  skipNewlines
  if ← atMark text then shift else failure

/-- A keyword that has to follow. -/
def keyword (text : String) : Rule (List Node) := do
  skipNewlines
  if ← atName text then shift else failure

def token (kind : TokenKind) : Rule (List Node) := do
  if ← atKind kind then shift else failure

/-- A rule that is tried only if the next token is the given mark. -/
def markThen (text : String) (r : Rule (List Node)) : Rule (List Node) := do
  if ← atMark text then
    let m ← shift
    return m ++ (← r)
  else return []

/-- The extras in front of the next token that is not a line end. -/
def leadingOf : List Token → List Node
  | [] => []
  | t :: rest => if t.kind = .newline then t.leading ++ leadingOf rest else t.leading

/-- A child, with the extras in front of it. -/
def child (r : Rule Node) : Rule (List Node) := do
  let extras := leadingOf (← get)
  let n ← r
  return extras ++ [n]

/-- A labelled child, with the extras in front of it. -/
def childAs (l : Label) (r : Rule Node) : Rule (List Node) := do
  let extras := leadingOf (← get)
  let n ← r
  return extras ++ [n.labelled l]

/-- A plain name. -/
def identifier : Rule Node := do
  skipNewlines
  match (← peek).kind with
  | .name text => if isPlainName text then shiftAs .identifier text else failure
  | _ => failure

/-- Items with commas between them and, if wanted, after the last one, up to a token
that ends the list. -/
def separated (item : Rule Node) (isEnd : Token → Bool) : Nat → Rule (List Node)
  | 0 => return []
  | n + 1 => do
    if isEnd (← peek) then return []
    let first ← child item
    if ← atMark "," then
      let comma ← shift
      return first ++ comma ++ (← separated item isEnd n)
    else return first

/-- A part again and again, as long as the next token begins one. -/
def repeated (begins : Token → Bool) (part : Rule (List Node)) : Nat → Rule (List Node)
  | 0 => return []
  | n + 1 => do
    if begins (← peek) then
      let first ← part
      return first ++ (← repeated begins part n)
    else return []

end Rule
end Foregone
