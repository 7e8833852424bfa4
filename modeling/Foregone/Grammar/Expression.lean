import Foregone.Grammar

/-! # Expressions

Operators bind by level: a rule for a level reads an expression whose outermost
operators bind at least that tightly. Operands of arithmetic and of comparisons are
signs, calls and the like, never `not`, `lambda` or a connective. Each rule takes the
rule for the expressions inside it as an argument; `Rule.expression` ties the knot with
the number of levels that may still be entered, of which a list of tokens needs no more
than it is long. -/

namespace Foregone

namespace Level

/-- Everything, down to the body of a lambda. -/
def lowest : Nat := 0

def conditional : Nat := 1

/-- `e as x` -/
def binding : Nat := 2

/-- The value of `x := e`, which ends in front of `as` and `if`. -/
def assigned : Nat := 3

def or : Nat := 10

def and : Nat := 11

/-- `not`; from here down an operand may be any expression. -/
def not : Nat := 12

def comparison : Nat := 13

/-- The left operand of `|`. -/
def unionOperand : Nat := 15

def sum : Nat := 18

def product : Nat := 19

def sign : Nat := 20

def power : Nat := 21

/-- Names, literals, brackets, and what is attached to them. -/
def primary : Nat := 22

/-- The level of a binary operator and of its right operand. All but the power group
to the left. -/
def ofMark? : String → Option (Nat × Nat)
  | "|" => some (14, unionOperand)
  | "&" => some (15, 16)
  | "^" => some (16, 17)
  | "<<" | ">>" => some (17, sum)
  | "+" | "-" => some (sum, product)
  | "*" | "@" | "/" | "%" | "//" => some (product, sign)
  | "**" => some (power, power)
  | _ => none

end Level

namespace Rule

/-- The rule for the expressions inside, by level. -/
abbrev Inner := Nat → Rule Node

def isComparisonMark : String → Bool
  | "<" | "<=" | "==" | "!=" | ">=" | ">" | "<>" => true
  | _ => false

/-- An operand of arithmetic may start with this token. -/
def startsPrimary (t : Token) : Bool :=
  match t.kind with
  | .name text => isOperandName text || ["True", "False", "None"].contains text
  | .integer _ | .float | .stringOpen => true
  | .mark text => ["(", "[", "\x7b", "+", "-", "~", "*", "..."].contains text
  | _ => false

/-- An expression may start with this token. -/
def startsOperand (t : Token) : Bool := startsPrimary t || t.isName "not" || t.isName "lambda"

/-- An expression may start with this token where no operator can stand. -/
def opensExpression (t : Token) : Bool := startsOperand t || t.isMark "**"

/-- One expression or several with commas between them. -/
def expressions (expr : Inner) : Nat → Rule (List Node)
  | 0 => failure
  | n + 1 => do
    let first ← child (expr Level.lowest)
    if ← atMark "," then
      let comma ← shift
      if opensExpression (← peek) then return first ++ comma ++ (← expressions expr n)
      else return first ++ comma
    else return first

/-- `yield`, with what it yields. -/
def yieldRule (n : Nat) (expr : Inner) : Rule Node := do
  let word ← keyword "yield"
  if ← atName "from" then
    let source ← shift
    return .of .yield (word ++ source ++ (← child (expr Level.lowest)))
  else if opensExpression (← peek) then return .of .yield (word ++ (← expressions expr n))
  else return .of .yield word

/-- `*e` or `**e` in a list of elements or arguments. -/
def splat (expr : Inner) (kind : Kind) : Rule Node := do
  let star ← shift
  return .of kind (star ++ (← child (expr Level.lowest)))

/-- Parentheses, maybe several, with a star right behind them. -/
def opensSplat : List Token → Bool
  | t :: rest =>
    t.isMark "(" &&
      (rest.head?.any (fun u => u.isMark "*" || u.isMark "**") || opensSplat rest)
  | [] => false

/-- A splat in parentheses, which is no expression but may be an element. -/
def wrappedSplat (expr : Inner) : Nat → Rule Node
  | 0 => failure
  | k + 1 => do
    let left ← mark "("
    splitStars
    let inner ← if ← atMark "*" then child (splat expr .listSplat) else child (wrappedSplat expr k)
    return .of .parenthesized (left ++ inner ++ (← mark ")"))

/-- An element can end in front of this token. -/
def endsElement (t : Token) : Bool :=
  match t.kind with
  | .mark text => [",", ":", ")", "]", "\x7d"].contains text
  | .name text => text == "for" || text == "async"
  | _ => false

/-- An element of a bracketed list, and whether it is an expression: the body of a
comprehension and the key of a pair have to be one. A star in front of a name makes
an expression, in front of anything else an element only. -/
def elementOrExpression (n : Nat) (expr : Inner) : Rule (Node × Bool) := do
  let whole : Rule (Node × Bool) := return (← expr Level.lowest, true)
  splitStars
  match (← peek).kind with
  | .mark "*" =>
    (do
      let e ← whole
      if endsElement (← peek) then return e else failure)
    <|> return (← splat expr .listSplat, false)
  | .mark "(" =>
    whole <|> (do
      if opensSplat (← get) then return (← wrappedSplat expr n, false) else failure)
  | .name "yield" => return (← yieldRule n expr, false)
  | _ => whole

/-- An element of a bracketed list. -/
def element (n : Nat) (expr : Inner) : Rule Node := return (← elementOrExpression n expr).1

/-- The first element with the extras in front of it, and whether it is an expression. -/
def firstElement (r : Rule (Node × Bool)) : Rule (List Node × Bool) := do
  let extras := leadingOf (← get)
  let (e, isExpression) ← r
  return (extras ++ [e], isExpression)

/-- A star can stand in front of this expression. What is attached to an expression
with a star may also be attached to the whole of it. -/
def takesStar (n : Node) : Bool :=
  match n.kind with
  | .identifier | .attribute | .subscript => true
  | .listSplat => n.children.getLast?.any fun c => c.kind == .attribute || c.kind == .subscript
  | _ => false

mutual

/-- A value can be assigned to this node. -/
def isTarget : Node → Bool
  | .leaf k .. => k == .identifier
  | .branch k _ _ _ cs =>
    match k with
    | .attribute | .subscript => true
    | .listSplat => cs.getLast?.any takesStar
    | .tuple | .list | .parenthesized => areTargets cs
    | _ => false

/-- All named nodes of a list can be assigned to. -/
def areTargets : List Node → Bool
  | [] => true
  | c :: cs => (!c.kind.isNamed || c.kind.isExtra || isTarget c) && areTargets cs

end

/-- A target of an assignment or a loop. -/
def target (expr : Inner) : Rule Node := do
  let n ← expr Level.primary
  if isTarget n then return n else failure

/-- A clause of a comprehension starts here. -/
def startsClause (t : Token) : Bool := t.isName "for" || t.isName "async" || t.isName "if"

/-- The targets of a loop, the word `in`, and what is run through. -/
def loopHead (n : Nat) (expr : Inner) (source : Rule (List Node)) : Rule (List Node) := do
  let word ← keyword "for"
  let targets ← separated (target expr) (·.isName "in") n
  if targets.isEmpty then failure
  let inWord ← keyword "in"
  return word ++ targets ++ inWord ++ (← source)

/-- A parameter of a lambda or of a function, with its type if one may follow. -/
def parameter (expr : Inner) (type : Rule (List Node)) : Rule Node := do
  let t ← peek
  let default : Rule (List Node) := markThen "=" (child (expr Level.lowest))
  if t.isMark "/" then return .of (.other "positional_separator") (← shift)
  else if t.isMark "*" || t.isMark "**" then
    let star ← shift
    if startsPrimary (← peek) then
      let name ← child (expr Level.primary)
      if name.getLast?.any takesStar then
        return .of (.other "splat_parameter") (star ++ name ++ (← type))
      else failure
    else if t.isMark "*" then return .of (.other "keyword_separator") star
    else failure
  else if t.isMark "(" then
    let names ← expr Level.primary
    match names.kind with
    | .tuple | .parenthesized =>
      if isTarget names then return .of (.other "parameter") (names :: (← default)) else failure
    | _ => failure
  else
    let name ← child identifier
    let kind ← type
    return .of (.other "parameter") (name ++ kind ++ (← default))

/-- A lambda, with the rule for its body. -/
def lambda (n : Nat) (expr : Inner) (body : Rule Node) : Rule Node := do
  let word ← keyword "lambda"
  let parameters ← separated (parameter expr (pure [])) (·.isMark ":") n
  let colon ← mark ":"
  return .of (.other "lambda") (word ++ parameters ++ colon ++ (← child body))

/-- One expression that a clause runs through. The condition of a clause that follows
is not taken for its own, not even by the body of a lambda. -/
def clauseSource (n : Nat) (expr : Inner) : Nat → Rule Node
  | 0 => failure
  | k + 1 => do
    if ← atName "lambda" then lambda n expr (clauseSource n expr k)
    else expr Level.binding

/-- What a clause runs through: expressions with commas, ended by the next clause. -/
def clauseSources (n : Nat) (expr : Inner) : Nat → Rule (List Node)
  | 0 => failure
  | k + 1 => do
    let first ← child (clauseSource n expr n)
    if ← atMark "," then
      let comma ← shift
      let t ← peek
      if opensExpression t && !startsClause t then
        return first ++ comma ++ (← clauseSources n expr k)
      else return first ++ comma
    else return first

/-- One clause of a comprehension. -/
def clause (n : Nat) (expr : Inner) : Rule (List Node) := do
  if ← atName "if" then
    let word ← shift
    return word ++ (← child (expr Level.binding))
  else
    let asyncWord ← if ← atName "async" then shift else pure []
    return asyncWord ++ (← loopHead n expr (clauseSources n expr n))

/-- The clauses of a comprehension; the first one is a loop. -/
def clauses (n : Nat) (expr : Inner) : Rule (List Node) := do
  if ← atName "if" then failure
  let first ← clause n expr
  return first ++ (← repeated startsClause (clause n expr) n)

/-- A comprehension starts here. -/
def startsLoop (t : Token) : Bool := t.isName "for" || t.isName "async"

/-- Parentheses: a single expression, a tuple or a generator. -/
def parentheses (n : Nat) (expr : Inner) : Rule Node := do
  let left ← mark "("
  if ← atMark ")" then return .of .tuple (left ++ (← shift))
  let (first, isExpression) ← firstElement (elementOrExpression n expr)
  if ← atMark "," then
    let comma ← shift
    let rest ← separated (element n expr) (·.isMark ")") n
    return .of .tuple (left ++ first ++ comma ++ rest ++ (← mark ")"))
  else if isExpression && startsLoop (← peek) then
    let loops ← clauses n expr
    return .of (.other "generator_expression") (left ++ first ++ loops ++ (← mark ")"))
  else if isExpression || first.getLast?.any (fun c => c.kind == .yield) then
    return .of .parenthesized (left ++ first ++ (← mark ")"))
  else failure

/-- Square brackets on their own: a list or a list comprehension. -/
def squareBrackets (n : Nat) (expr : Inner) : Rule Node := do
  let left ← mark "["
  if ← atMark "]" then return .of .list (left ++ (← shift))
  let (first, isExpression) ← firstElement (elementOrExpression n expr)
  if isExpression && startsLoop (← peek) then
    let loops ← clauses n expr
    return .of (.other "list_comprehension") (left ++ first ++ loops ++ (← mark "]"))
  else
    let rest ← markThen "," (separated (element n expr) (·.isMark "]") n)
    return .of .list (left ++ first ++ rest ++ (← mark "]"))

/-- A key with its value, or a dictionary that is unpacked. -/
def pair (expr : Inner) : Rule Node := do
  if ← atMark "**" then splat expr (.other "dictionary_splat")
  else
    let key ← child (expr Level.lowest)
    let colon ← mark ":"
    return .of (.other "pair") (key ++ colon ++ (← child (expr Level.lowest)))

/-- The rest of a dictionary after its first entry. -/
def dictionaryRest (n : Nat) (expr : Inner) (begun : List Node) : Rule Node := do
  let rest ← markThen "," (separated (pair expr) (·.isMark "\x7d") n)
  return .of (.other "dictionary") (begun ++ rest ++ (← mark "\x7d"))

/-- Braces: a dictionary, a set, or a comprehension of either. A dictionary may have a
comma although it is empty. -/
def braces (n : Nat) (expr : Inner) : Rule Node := do
  let left ← mark "\x7b"
  if ← atMark "\x7d" then return .of (.other "dictionary") (left ++ (← shift))
  if ← atMark "," then
    let comma ← shift
    return .of (.other "dictionary") (left ++ comma ++ (← mark "\x7d"))
  if ← atMark "**" then
    let first ← child (pair expr)
    dictionaryRest n expr (left ++ first)
  else
    let (first, isExpression) ← firstElement (elementOrExpression n expr)
    if isExpression && (← atMark ":") then
      let colon ← shift
      let value ← child (expr Level.lowest)
      let begun := left ++ [.of (.other "pair") (first ++ colon ++ value)]
      if startsLoop (← peek) then
        let loops ← clauses n expr
        return .of (.other "dictionary_comprehension") (begun ++ loops ++ (← mark "\x7d"))
      else dictionaryRest n expr begun
    else if isExpression && startsLoop (← peek) then
      let loops ← clauses n expr
      return .of (.other "set_comprehension") (left ++ first ++ loops ++ (← mark "\x7d"))
    else
      let rest ← markThen "," (separated (element n expr) (·.isMark "\x7d") n)
      return .of (.other "set") (left ++ first ++ rest ++ (← mark "\x7d"))

/-- One argument of a call, and whether it is an expression. -/
def argument (n : Nat) (expr : Inner) : Rule (Node × Bool) := do
  let t ← peek
  if t.isMark "**" then return (← splat expr (.other "dictionary_splat"), false)
  else if t.isName "yield" then failure
  else
    match t.kind, ← peekSecond? with
    | .name text, some next =>
      if isOperandName text && next.isMark "=" then
        let key ← shiftAs .identifier text
        let equals ← shift
        let value ← child (expr Level.lowest)
        return (.of (.other "keyword_argument") (key :: equals ++ value), false)
      else elementOrExpression n expr
    | _, _ => elementOrExpression n expr

/-- The arguments of a call, or the generator that is its only one. There may be a
comma although there are no arguments. -/
def arguments (n : Nat) (expr : Inner) : Rule Node := do
  let left ← mark "("
  if ← atMark ")" then return .of (.other "argument_list") (left ++ (← shift))
  if ← atMark "," then
    let comma ← shift
    return .of (.other "argument_list") (left ++ comma ++ (← mark ")"))
  let (first, isExpression) ← firstElement (argument n expr)
  if isExpression && startsLoop (← peek) then
    let loops ← clauses n expr
    return .of (.other "generator_expression") (left ++ first ++ loops ++ (← mark ")"))
  else
    let further : Rule Node := return (← argument n expr).1
    let rest ← markThen "," (separated further (·.isMark ")") n)
    return .of (.other "argument_list") (left ++ first ++ rest ++ (← mark ")"))

/-- An optional part of a slice. -/
def slicePart (expr : Inner) : Rule (List Node) := do
  if opensExpression (← peek) then child (expr Level.lowest) else return []

/-- An index or a slice. -/
def index (expr : Inner) : Rule Node := do
  let low ← slicePart expr
  if ← atMark ":" then
    let colon ← shift
    let high ← slicePart expr
    let stride ← markThen ":" (slicePart expr)
    return .of (.other "slice") (low ++ colon ++ high ++ stride)
  else match low.getLast? with
    | some n => return n
    | none => failure

/-- What may be attached to a primary expression: a name after a point, arguments, or
an index. -/
def attach (n : Nat) (expr : Inner) (base : Node) : Rule (Option Node) := do
  let t ← peek
  if t.isMark "." then
    let point ← shift
    return some (.of .attribute (base :: point ++ (← child identifier)))
  else if t.isMark "(" then
    return some (.of .call (base :: (← child (arguments n expr))))
  else if t.isMark "[" then
    let left ← shift
    let inner ← separated (index expr) (·.isMark "]") n
    if inner.isEmpty then failure
    return some (.of .subscript (base :: left ++ inner ++ (← mark "]")))
  else return none

/-- All that is attached to a primary expression. -/
def attachments (n : Nat) (expr : Inner) : Nat → Node → Rule Node
  | 0, base => return base
  | k + 1, base => do
    match ← attach n expr base with
    | some wider => attachments n expr k wider
    | none => return base

/-- A replacement field of a formatted string. -/
def field (n : Nat) (expr : Inner) : Nat → Rule (List Node)
  | 0 => failure
  | k + 1 => do
    let left ← token .fieldOpen
    let inner ← if ← atName "yield" then child (yieldRule n expr) else expressions expr n
    let equals ← if ← atMark "=" then shift else pure []
    let conversion ← if ← atKind .conversion then shift else pure []
    let format ← if ← atKind .fieldFormat then
        let colon ← shift
        pure (colon ++ (← repeated (·.kind == .fieldOpen) (field n expr k) n))
      else pure []
    return left ++ inner ++ equals ++ conversion ++ format ++ (← token .fieldClose)

/-- A string. -/
def stringRule (n : Nat) (expr : Inner) : Rule Node := do
  let left ← token .stringOpen
  let fields ← repeated (·.kind == .fieldOpen) (field n expr n) n
  return .of .string (left ++ fields ++ (← token .stringClose))

/-- One string, or several that stand side by side. -/
def strings (n : Nat) (expr : Inner) : Rule Node := do
  let first ← stringRule n expr
  let rest ← repeated (·.kind == .stringOpen) (child (stringRule n expr)) n
  if rest.isEmpty then return first
  else return .of (.other "concatenated_string") (first :: rest)

/-- A name, a literal, a string or brackets. -/
def atom (n : Nat) (expr : Inner) : Rule Node := do
  match (← peek).kind with
  | .name "True" => shiftAs .trueLiteral "True"
  | .name "False" => shiftAs .falseLiteral "False"
  | .name "None" => shiftAs (.other "none") "None"
  | .name text => if isOperandName text then shiftAs .identifier text else failure
  | .integer text => shiftAs .integer text
  | .float => shiftAs .float ""
  | .stringOpen => strings n expr
  | .mark "(" => parentheses n expr
  | .mark "[" => squareBrackets n expr
  | .mark "\x7b" => braces n expr
  | .mark "..." => shiftAs (.other "ellipsis") "..."
  | _ => failure

/-- A primary expression with all that is attached to it. -/
def primary (n : Nat) (expr : Inner) : Rule Node := do
  let base ← atom n expr
  attachments n expr n base

/-- A sign in front of its operand. -/
def signed (expr : Inner) : Rule Node := do
  let sign ← shiftLabelled .operator
  return .of .unaryOperator (sign ++ (← childAs .argument (expr Level.sign)))

/-- `await` in front of its operand. -/
def awaited (expr : Inner) : Rule Node := do
  let word ← keyword "await"
  return .of (.other "await") (word ++ (← child (expr Level.sign)))

/-- A star in front of a name, an attribute or an item. What is called is called
after the star was applied. -/
def starred (expr : Inner) : Rule Node := do
  let star ← mark "*"
  let operand ← child (expr Level.primary)
  match operand.getLast? with
  | some n =>
    if n.kind == .call then return .of .call (star ++ operand)
    else if takesStar n then return .of .listSplat (star ++ operand)
    else failure
  | none => failure

/-- `not` in front of its operand. -/
def negation (expr : Inner) : Rule Node := do
  let word ← keyword "not"
  return .of .notOperator (word ++ (← childAs .argument (expr Level.not)))

/-- `x := e` -/
def named (text : String) (expr : Inner) : Rule Node := do
  let name ← shiftAs .identifier text
  let becomes ← mark ":="
  return .of (.other "named_expression") (name :: becomes ++ (← child (expr Level.assigned)))

/-- The first operand of an expression. Where only a primary expression may stand,
`not`, `lambda` and `:=` have no meaning. `await` waits for the operand behind it and
is a name where there is none; the body of a lambda reaches as far as it can. -/
def operand (n : Nat) (expr : Inner) (level : Nat) : Rule Node := do
  splitStars
  match (← peek).kind with
  | .mark "+" | .mark "-" | .mark "~" => signed expr
  | .mark "*" => starred expr
  | .name text =>
    let next ← peekSecond?
    if level ≤ Level.not ∧ isOperandName text ∧ next.any (·.isMark ":=") then named text expr
    else if level ≤ Level.not ∧ text = "not" then negation expr
    else if level ≤ Level.not ∧ text = "lambda" then lambda n expr (expr Level.lowest)
    else if text = "await" ∧ next.any startsPrimary then awaited expr
    else primary n expr
  | _ => primary n expr

/-- A binary operator and its right operand. -/
def binary (kind : Kind) (left : Node) (right : Rule Node) : Rule Node := do
  let op ← shiftLabelled .operator
  return .of kind (left.labelled .left :: op ++ (← childAs .right right))

/-- A comparison operator; two words make one operator. -/
def comparisonOp : Rule (List Node) := do
  let t ← peek
  let two (second : String) : Rule (List Node) := do
    set ((← get).drop 1)
    skipNewlines
    let u ← peek
    if u.isName second then
      set ((← get).drop 1)
      let text := match t.kind with
        | .name word => word ++ " " ++ second
        | _ => second
      return t.leading ++ [.leaf (.mark text) (some .operators) t.start u.stop text]
    else failure
  match t.kind with
  | .name "not" => two "in"
  | .name "is" => two "not" <|> shiftLabelled .operators
  | _ => shiftLabelled .operators

/-- A comparison operator starts here. -/
def startsComparison (t : Token) : Bool :=
  match t.kind with
  | .mark text => isComparisonMark text
  | .name text => text == "in" || text == "is" || text == "not"
  | _ => false

/-- One comparison operator with its right operand. -/
def comparisonLink (expr : Inner) : Rule (List Node) := do
  let op ← comparisonOp
  return op ++ (← child (expr (Level.comparison + 1)))

/-- All comparisons in a row are one node. -/
def comparison (n : Nat) (expr : Inner) (left : Node) : Rule Node := do
  return .of .comparison (left :: (← repeated startsComparison (comparisonLink expr) n))

/-- `e if c else f` -/
def conditional (expr : Inner) (left : Node) : Rule Node := do
  let ifWord ← keyword "if"
  let condition ← child (expr Level.lowest)
  let elseWord ← keyword "else"
  let other ← child (expr Level.conditional)
  return .of (.other "conditional_expression") (left :: ifWord ++ condition ++ elseWord ++ other)

/-- `e as x` -/
def aliased (expr : Inner) (left : Node) : Rule Node := do
  let word ← keyword "as"
  return .of (.other "as_pattern") (left :: word ++ (← child (expr (Level.binding + 1))))

/-- The operator after an operand, if it binds tightly enough, with the rest of its
operands. -/
def infixed (n : Nat) (expr : Inner) (level : Nat) (left : Node) : Rule (Option Node) := do
  let t ← peek
  if startsComparison t && level ≤ Level.comparison then return some (← comparison n expr left)
  else match t.kind with
    | .mark text =>
      match Level.ofMark? text with
      | some (own, right) =>
        if level ≤ own then return some (← binary .binaryOperator left (expr right))
        else return none
      | none => return none
    | .name "and" =>
      if level ≤ Level.and then
        return some (← binary .booleanOperator left (expr (Level.and + 1)))
      else return none
    | .name "or" =>
      if level ≤ Level.or then
        return some (← binary .booleanOperator left (expr (Level.or + 1)))
      else return none
    | .name "if" =>
      if level ≤ Level.conditional then return some (← conditional expr left) else return none
    | .name "as" =>
      if level ≤ Level.binding then return some (← aliased expr left) else return none
    | _ => return none

/-- All operators after an operand. -/
def infixes (n : Nat) (expr : Inner) (level : Nat) : Nat → Node → Rule Node
  | 0, left => return left
  | k + 1, left => do
    match ← infixed n expr level left with
    | some wider => infixes n expr level k wider
    | none => return left

/-- An expression of a level, with a bound on how deep it nests and on how often its
parts repeat. -/
def expression : Nat → Inner
  | 0, _ => failure
  | n + 1, level => do
    skipNewlines
    let left ← operand n (expression n) level
    infixes n (expression n) level n left

end Rule
end Foregone
