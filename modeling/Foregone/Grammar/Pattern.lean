import Foregone.Grammar.Expression

/-! # Patterns of a `match`

A pattern is a literal, a name with points in it, a name with patterns in parentheses,
a bracketed list of patterns, or several of these with bars between them. -/

namespace Foregone.Rule

/-- The rule for the patterns inside. -/
abbrev InnerPattern := Rule Node

/-- A name with points in it. -/
def dottedName (n : Nat) : Rule Node := do
  let first ← identifier
  let rest ← repeated (·.isMark ".") (do
    let point ← shift
    return point ++ (← child identifier)) n
  return .of (.other "dotted_name") (first :: rest)

def isNumber (t : Token) : Bool :=
  match t.kind with
  | .integer _ | .float => true
  | _ => false

/-- A number, maybe with a sign, and maybe a second one added to it. -/
def numberPattern : Rule Node := do
  let number : Rule (List Node) := do
    skipNewlines
    if isNumber (← peek) then shift else failure
  let sign ← if ← atMark "-" then shift else pure []
  let first ← number
  if (← atMark "+") || (← atMark "-") then
    let op ← shift
    return .of (.other "complex_pattern") (sign ++ first ++ op ++ (← number))
  else return .of (.other "case_pattern") (sign ++ first)

/-- Patterns in brackets. -/
def bracketedPatterns (n : Nat) (item : Rule Node) (close : String) : Rule Node := do
  let left ← shift
  let inner ← separated item (·.isMark close) n
  return .of (.other "case_pattern") (left ++ inner ++ (← mark close))

/-- A name, or a name with patterns in parentheses. The underscore stands for itself. -/
def namePattern (n : Nat) (pattern : InnerPattern) : Rule Node := do
  if ← atName "_" then return .of (.other "case_pattern") (← shift)
  let name ← child (dottedName n)
  if ← atMark "(" then
    return .of (.other "class_pattern") (name ++ (← child (bracketedPatterns n pattern ")")))
  else return .of (.other "case_pattern") name

/-- One or two stars and a name. -/
def splatPattern : Rule Node := do
  let stars ← shift
  return .of (.other "splat_pattern") (stars ++ (← child identifier))

/-- A key and the pattern of its value, or stars and a name; `key` is the rule for keys. -/
def entryPattern (key pattern : Rule Node) : Rule Node := do
  if (← atMark "*") || (← atMark "**") then splatPattern
  else
    let k ← child key
    let colon ← mark ":"
    return .of (.other "case_pattern") (k ++ colon ++ (← child pattern))

/-- One alternative of a pattern; `key` is the rule for the keys of a mapping. -/
def alternative (n : Nat) (expr : Inner) (key pattern : Rule Node) : Rule Node := do
  skipNewlines
  let t ← peek
  match t.kind with
  | .mark "*" | .mark "**" => splatPattern
  | .mark "[" => bracketedPatterns n pattern "]"
  | .mark "(" => bracketedPatterns n pattern ")"
  | .mark "\x7b" => bracketedPatterns n (entryPattern key pattern) "\x7d"
  | .mark "-" | .integer _ | .float => numberPattern
  | .stringOpen => strings n expr
  | .name "True" | .name "False" | .name "None" => return .of (.other "case_pattern") (← shift)
  | _ => namePattern n pattern

/-- Alternatives with bars between them. -/
def alternatives (n : Nat) (one : Rule Node) : Rule Node := do
  let first ← child one
  let rest ← repeated (·.isMark "|") (do
    let bar ← shift
    return bar ++ (← child one)) n
  return .of (.other "case_pattern") (first ++ rest)

/-- A pattern, maybe for a keyword, with the names it is given. -/
def patternWith (n : Nat) (simple : Rule Node) : Rule Node := do
  let key ← if (← peekSecond?).any (·.isMark "=") then
      let name ← child identifier
      pure (name ++ (← mark "="))
    else pure []
  let value ← child simple
  let names ← repeated (·.isName "as") (do
    let word ← shift
    return word ++ (← child identifier)) n
  return .of (.other "case_pattern") (key ++ value ++ names)

/-- A pattern without a name given to it, with a bound on how deep it nests. -/
def simplePattern (n : Nat) (expr : Inner) : Nat → Rule Node
  | 0 => failure
  | k + 1 =>
    let inner := simplePattern n expr k
    alternatives n (alternative n expr inner (patternWith n inner))

/-- A pattern of a `case`. -/
def casePattern (n : Nat) (expr : Inner) : Rule Node := patternWith n (simplePattern n expr n)

end Foregone.Rule
