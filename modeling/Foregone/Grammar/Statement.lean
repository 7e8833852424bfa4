import Foregone.Grammar.Pattern
import Foregone.Grammar.Type

/-! # Statements

Simple statements stand on a line, with semicolons between them; compound statements
hold blocks. `print`, `exec`, `match`, `type` and `async` begin a statement of their
own only where one can be read, and are names otherwise. -/

namespace Foregone.Rule

/-- The rules a statement is built from: how often parts may repeat, the rule for
expressions, and the rule for the statements of its blocks. -/
structure Context where
  repeats : Nat
  expr : Inner
  statement : Rule (List Node)

namespace Context

def expression (x : Context) : Rule Node := x.expr Level.lowest

def expressions (x : Context) : Rule (List Node) := Rule.expressions x.expr x.repeats

/-- Expressions with commas between them, and none after the last. -/
def expressionRow (x : Context) : Rule (List Node) := do
  let first ← child x.expression
  let rest ← repeated (·.isMark ",") (do
    let comma ← shift
    return comma ++ (← child x.expression)) x.repeats
  return first ++ rest

/-- A type; it may have a bound unless a colon has to follow it. -/
def type (x : Context) (bounded : Bool) : Rule Node :=
  typeRule x.repeats x.expr bounded x.repeats

end Context

/-- A statement can end in front of this token. -/
def endsStatement (t : Token) : Bool := t.kind == .newline || t.isMark ";"

/-! ## Simple statements -/

/-- Operators that assign what they compute. -/
def isAugmented : String → Bool
  | "+=" | "-=" | "*=" | "/=" | "@=" | "//=" | "%=" | "**=" | ">>=" | "<<=" | "&=" | "^=" | "|=" =>
    true
  | _ => false

/-- What stands on the left of an assignment has been read: read the rest. The right
side may be an assignment again. -/
def assignment (x : Context) : Nat → List Node → Rule (Option Node)
  | 0, _ => return none
  | n + 1, left => do
    let right : Rule (List Node) := do
      if ← atName "yield" then child (yieldRule x.repeats x.expr)
      else
        let values ← x.expressions
        match ← assignment x n values with
        | some inner => return [inner]
        | none => return values
    match (← peek).kind with
    | .mark "=" =>
      if !areTargets left then failure
      let equals ← shift
      return some (.of .assignment (left ++ equals ++ (← right)))
    | .mark ":" =>
      if !areTargets left then failure
      let colon ← shift
      let type ← child (x.type true)
      let value ← markThen "=" right
      return some (.of .assignment (left ++ colon ++ type ++ value))
    | .mark text =>
      if isAugmented text then
        if !areTargets left then failure
        let op ← shift
        return some (.of .augmentedAssignment (left ++ op ++ (← right)))
      else return none
    | _ => return none

/-- Expressions, an assignment or `yield`. -/
def expressionStatement (x : Context) : Rule Node := do
  if ← atName "yield" then return .of .expressionStatement [← yieldRule x.repeats x.expr]
  let left ← x.expressions
  match ← assignment x x.repeats left with
  | some whole => return .of .expressionStatement [whole]
  | none => return .of .expressionStatement left

/-- A keyword, followed by expressions if there are any. -/
def wordStatement (kind word : String) (x : Context) : Rule Node := do
  let w ← keyword word
  if opensExpression (← peek) then return .of (.other kind) (w ++ (← x.expressions))
  else return .of (.other kind) w

def deleteStatement (x : Context) : Rule Node := do
  let w ← keyword "del"
  return .of (.other "delete_statement") (w ++ (← x.expressions))

def assertStatement (x : Context) : Rule Node := do
  let w ← keyword "assert"
  return .of (.other "assert_statement") (w ++ (← x.expressionRow))

/-- `raise`, with what is raised and its cause. -/
def raiseStatement (x : Context) : Rule Node := do
  let w ← keyword "raise"
  let raised ← if opensExpression (← peek) then x.expressions else pure []
  let cause ← if ← atName "from" then
      let word ← shift
      pure (word ++ (← child x.expression))
    else pure []
  return .of (.other "raise_statement") (w ++ raised ++ cause)

/-- A keyword, followed by names. -/
def namesStatement (kind word : String) (x : Context) : Rule Node := do
  let w ← keyword word
  let first ← child identifier
  let rest ← repeated (·.isMark ",") (do
    let comma ← shift
    return comma ++ (← child identifier)) x.repeats
  return .of (.other kind) (w ++ first ++ rest)

/-- A name with points in it, with the name it is given. -/
def importItem (n : Nat) : Rule Node := do
  let name ← child (dottedName n)
  if ← atName "as" then
    let word ← shift
    return .of (.other "aliased_import") (name ++ word ++ (← child identifier))
  else return .of (.other "dotted_name") name

def isName (t : Token) : Bool :=
  match t.kind with
  | .name _ => true
  | _ => false

/-- The names that are imported. -/
def importList (n : Nat) : Rule (List Node) := do
  let items ← separated (importItem n) (fun t => !isName t) n
  if items.isEmpty then failure else return items

def importStatement (x : Context) : Rule Node := do
  let w ← keyword "import"
  return .of (.other "import_statement") (w ++ (← importList x.repeats))

/-- The source that switches features on. From it, features are imported by name. -/
def futureName : String := "__future__"

/-- `from a import b`; the points of a relative import come first. -/
def fromImport (x : Context) : Rule Node := do
  let w ← keyword "from"
  skipNewlines
  let points ← repeated (fun t => t.isMark "." || t.isMark "...") shift x.repeats
  let isFuture := points.isEmpty && (← atName futureName)
  let source ← if isFuture then shift
    else if points.isEmpty || !(← atName "import") then child (dottedName x.repeats)
    else pure []
  let importWord ← keyword "import"
  skipNewlines
  let items ← if !isFuture && (← atMark "*") then shift
    else if ← atMark "(" then
      let left ← shift
      let inner ← importList x.repeats
      pure (left ++ inner ++ (← mark ")"))
    else importList x.repeats
  return .of (.other "import_from_statement") (w ++ points ++ source ++ importWord ++ items)

/-- `print` as a statement, to a stream if one is given. -/
def printStatement (x : Context) : Rule Node := do
  let w ← keyword "print"
  if ← atMark ">>" then
    let arrow ← shift
    let stream ← child x.expression
    let rest ← markThen "," (separated x.expression endsStatement x.repeats)
    return .of (.other "print_statement") (w ++ arrow ++ stream ++ rest)
  else return .of (.other "print_statement") (w ++ (← x.expressions))

/-- `exec` as a statement, in a scope if one is given. -/
def execStatement (x : Context) : Rule Node := do
  let w ← keyword "exec"
  let code ← match (← peek).kind with
    | .stringOpen => child (stringRule x.repeats x.expr)
    | _ => child identifier
  let scope ← if ← atName "in" then
      let word ← shift
      pure (word ++ (← x.expressionRow))
    else pure []
  return .of (.other "exec_statement") (w ++ code ++ scope)

/-- `type X = T` -/
def typeAlias (x : Context) : Rule Node := do
  let w ← keyword "type"
  let left ← child (x.type true)
  let equals ← mark "="
  return .of (.other "type_alias_statement") (w ++ left ++ equals ++ (← child (x.type true)))

/-- A rule that has to end where a statement can end. -/
def whole (r : Rule Node) : Rule Node := do
  let n ← r
  if endsStatement (← peek) then return n else failure

def simpleStatement (x : Context) : Rule Node := do
  match (← peek).kind with
  | .name "import" => importStatement x
  | .name "from" => fromImport x
  | .name "assert" => assertStatement x
  | .name "return" => wordStatement "return_statement" "return" x
  | .name "del" => deleteStatement x
  | .name "raise" => raiseStatement x
  | .name "pass" => return .of (.other "pass_statement") (← shift)
  | .name "break" => return .of (.other "break_statement") (← shift)
  | .name "continue" => return .of (.other "continue_statement") (← shift)
  | .name "global" => namesStatement "global_statement" "global" x
  | .name "nonlocal" => namesStatement "nonlocal_statement" "nonlocal" x
  | .name "print" =>
    if (← peekSecond?).any (·.isMark ">>") then printStatement x
    else whole (expressionStatement x) <|> printStatement x
  | .name "exec" => whole (expressionStatement x) <|> execStatement x
  | .name "type" => whole (typeAlias x) <|> expressionStatement x
  | _ => expressionStatement x

/-- Simple statements up to the end of the line. -/
def simpleStatements (x : Context) : Nat → Rule (List Node)
  | 0 => failure
  | n + 1 => do
    let first ← child (simpleStatement x)
    if ← atMark ";" then
      let semicolon ← shift
      if ← atKind .newline then return first ++ semicolon ++ (← shift)
      else return first ++ semicolon ++ (← simpleStatements x n)
    else return first ++ (← token .newline)

/-! ## Blocks and compound statements -/

def block (children : List Node) : Node := .of (.other "block") children

/-- The statements after a colon: on the same line, in an indented block, or none. -/
def suite (x : Context) : Rule (List Node) := do
  let colon ← mark ":"
  let body ← match (← peek).kind with
    | .newline => shift
    | .indent =>
      let start ← shift
      let inner ← repeated (fun t => t.kind != .dedent && t.kind != .endOfText) x.statement x.repeats
      pure (start ++ inner ++ (← token .dedent))
    | _ => simpleStatements x x.repeats
  return colon ++ [block body]

/-- A clause that consists of a keyword and a block. -/
def plainClause (kind word : String) (x : Context) : Rule Node := do
  let w ← keyword word
  return .of (.other kind) (w ++ (← suite x))

/-- A clause that may be missing. -/
def optionalClause (kind word : String) (x : Context) : Rule (List Node) := do
  if ← atName word then childAs .alternative (plainClause kind word x) else return []

/-- A keyword, a condition and a block. -/
def guarded (word : String) (x : Context) : Rule (List Node) := do
  let w ← keyword word
  let condition ← childAs .condition x.expression
  return w ++ condition ++ (← suite x)

def elifClause (x : Context) : Rule Node := do return .of .elifClause (← guarded "elif" x)

def ifStatement (x : Context) : Rule Node := do
  let first ← guarded "if" x
  let elifs ← repeated (·.isName "elif") (childAs .alternative (elifClause x)) x.repeats
  return .of .ifStatement (first ++ elifs ++ (← optionalClause "else_clause" "else" x))

def whileStatement (x : Context) : Rule Node := do
  let first ← guarded "while" x
  return .of (.other "while_statement") (first ++ (← optionalClause "else_clause" "else" x))

def forStatement (x : Context) (begun : List Node) : Rule Node := do
  let loop ← loopHead x.repeats x.expr x.expressions
  let body ← suite x
  return .of (.other "for_statement")
    (begun ++ loop ++ body ++ (← optionalClause "else_clause" "else" x))

def exceptClause (x : Context) : Rule Node := do
  let w ← keyword "except"
  let star ← if ← atMark "*" then shift else pure []
  let caught ← separated x.expression (·.isMark ":") x.repeats
  return .of (.other "except_clause") (w ++ star ++ caught ++ (← suite x))

def tryStatement (x : Context) : Rule Node := do
  let w ← keyword "try"
  let body ← suite x
  let handlers ← repeated (·.isName "except") (child (exceptClause x)) x.repeats
  let otherwise ← if handlers.isEmpty then pure [] else optionalClause "else_clause" "else" x
  let final ← optionalClause "finally_clause" "finally" x
  if handlers.isEmpty && final.isEmpty then failure
  return .of (.other "try_statement") (w ++ body ++ handlers ++ otherwise ++ final)

def withStatement (x : Context) (begun : List Node) : Rule Node := do
  let w ← keyword "with"
  let items ← separated x.expression (·.isMark ":") x.repeats
  if items.isEmpty then failure
  return .of (.other "with_statement") (begun ++ w ++ items ++ (← suite x))

/-- A type parameter, with a default. -/
def typeParameter (x : Context) : Rule Node := do
  let type ← child (x.type true)
  return .of (.other "type") (type ++ (← markThen "=" (child x.expression)))

def typeParameters (x : Context) : Rule (List Node) := do
  if ← atMark "[" then
    let left ← shift
    let inner ← separated (typeParameter x) (·.isMark "]") x.repeats
    if inner.isEmpty then failure
    return left ++ inner ++ (← mark "]")
  else return []

def functionDefinition (x : Context) (begun : List Node) : Rule Node := do
  let w ← keyword "def"
  let name ← child identifier
  let types ← typeParameters x
  let left ← mark "("
  let type : Rule (List Node) := markThen ":" (child (x.type true))
  let parameters ← separated (parameter x.expr type) (·.isMark ")") x.repeats
  let right ← mark ")"
  let result ← markThen "->" (child (x.type false))
  return .of (.other "function_definition")
    (begun ++ w ++ name ++ types ++ left ++ parameters ++ right ++ result ++ (← suite x))

def classDefinition (x : Context) : Rule Node := do
  let w ← keyword "class"
  let name ← child identifier
  let types ← typeParameters x
  let bases ← if ← atMark "(" then child (arguments x.repeats x.expr) else pure []
  return .of (.other "class_definition") (w ++ name ++ types ++ bases ++ (← suite x))

/-- A function, a loop or a `with` that may wait. -/
def asyncStatement (x : Context) : Rule Node := do
  let w ← keyword "async"
  match (← peek).kind with
  | .name "def" => functionDefinition x w
  | .name "for" => forStatement x w
  | .name "with" => withStatement x w
  | _ => failure

def decorator (x : Context) : Rule (List Node) := do
  let sign ← mark "@"
  let name ← child x.expression
  return sign ++ name ++ (← token .newline)

def decoratedDefinition (x : Context) : Rule Node := do
  let decorators ← repeated (·.isMark "@") (decorator x) x.repeats
  let definition ← match (← peek).kind with
    | .name "class" => child (classDefinition x)
    | .name "async" => child (asyncStatement x)
    | _ => child (functionDefinition x [])
  return .of (.other "decorated_definition") (decorators ++ definition)

/-- A case of a `match`: patterns, and a condition if there is one. -/
def caseClause (x : Context) : Rule Node := do
  let w ← keyword "case"
  let isEnd (t : Token) : Bool := t.isMark ":" || t.isName "if"
  let patterns ← separated (casePattern x.repeats x.expr) isEnd x.repeats
  if patterns.isEmpty then failure
  let condition ← if ← atName "if" then
      let word ← shift
      pure (word ++ (← child x.expression))
    else pure []
  return .of (.other "case_clause") (w ++ patterns ++ condition ++ (← suite x))

def matchStatement (x : Context) : Rule Node := do
  let w ← keyword "match"
  if !startsOperand (← peek) then failure
  let subjects ← separated x.expression (·.isMark ":") x.repeats
  let colon ← mark ":"
  let body ← if ← atKind .indent then
      let start ← shift
      let cases ← repeated (·.isName "case") (child (caseClause x)) x.repeats
      pure (start ++ cases ++ (← token .dedent))
    else token .newline
  return .of (.other "match_statement") (w ++ subjects ++ colon ++ [block body])

/-- One compound statement, or the simple statements of a line. -/
def statementRule (x : Context) : Rule (List Node) := do
  let line : Rule (List Node) := simpleStatements x x.repeats
  let t ← peek
  match t.kind with
  | .name "if" => child (ifStatement x)
  | .name "while" => child (whileStatement x)
  | .name "for" => child (forStatement x [])
  | .name "try" => child (tryStatement x)
  | .name "with" => child (withStatement x [])
  | .name "def" => child (functionDefinition x [])
  | .name "class" => child (classDefinition x)
  | .name "async" => child (asyncStatement x) <|> line
  | .name "match" => child (matchStatement x) <|> line
  | .mark "@" => child (decoratedDefinition x)
  | _ => line

/-- A statement, with a bound on how deep its blocks nest. -/
def statement (repeats : Nat) (expr : Inner) : Nat → Rule (List Node)
  | 0 => failure
  | n + 1 => statementRule ⟨repeats, expr, statement repeats expr n⟩

/-- Statements up to the end of the text. -/
def fullText (repeats : Nat) : Rule Node := do
  let expr := expression (repeats + 1)
  let body ← repeated (fun t => t.kind != .endOfText) (statement repeats expr repeats) repeats
  return .branch (.other "module") none 0 0 (body ++ (← token .endOfText))

end Foregone.Rule
