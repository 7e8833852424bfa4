import Foregone.Grammar.Expression

/-! # Types in annotations

A type is written like an expression. Besides, the brackets behind a name may hold
types, a star or two may stand in front of a name, and a type may be bounded by
another one behind a colon. -/

namespace Foregone.Rule

/-- The rule for the types inside. -/
abbrev InnerType := Rule Node

/-- A name with types in brackets behind it. -/
def genericType (n : Nat) (type : InnerType) : Rule Node := do
  let name ← child identifier
  let left ← mark "["
  let inner ← separated type (·.isMark "]") n
  if inner.isEmpty then failure
  return .of (.other "generic_type") (name ++ left ++ inner ++ (← mark "]"))

/-- The head of a type. A left operand of `|` is taken alone only if what is behind it
cannot be read as an expression. -/
def typeHead (n : Nat) (expr : Inner) (type : InnerType) : Rule Node := do
  if ← atMark "**" then
    let stars ← shift
    return .of (.other "splat_type") (stars ++ (← child identifier))
  else expr Level.lowest <|> genericType n type <|> expr Level.unionOperand

/-- What may stand behind the head of a type: an alternative, a member, and, where
bounds are allowed, a bound. -/
def typeTail (type : InnerType) (bounded : Bool) : Nat → List Node → Rule Node
  | 0, _ => failure
  | k + 1, begun => do
    let t ← peek
    if t.isMark "|" || (bounded && t.isMark ":") then
      let sign ← shift
      return .of (.other "type") (begun ++ sign ++ (← child type))
    else if t.isMark "." then
      let point ← shift
      let name ← child identifier
      typeTail type bounded k (begun ++ point ++ name)
    else return .of (.other "type") begun

/-- A type, with a bound on how deep it nests. -/
def typeRule (n : Nat) (expr : Inner) (bounded : Bool) : Nat → Rule Node
  | 0 => failure
  | k + 1 => do
    let head ← child (typeHead n expr (typeRule n expr true k))
    typeTail (typeRule n expr bounded k) bounded n head

end Foregone.Rule
