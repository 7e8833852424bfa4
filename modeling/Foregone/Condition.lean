import Foregone.Host
import Foregone.Text.Quoted

/-! # Conditions as text

A text is read as exactly one expression. -/

namespace Foregone

/-- Why a text is not read as a condition. -/
inductive ReadError where
  /-- it does not follow the grammar -/
  | notParsed (text : String)
  /-- it is something else than one expression -/
  | notSingle (text : String)
  /-- it nests too deeply -/
  | tooDeep
  deriving DecidableEq, Repr

def ReadError.message : ReadError → String
  | .notParsed text => "could not parse expression: " ++ Text.quoted text
  | .notSingle text => "expected a single expression, got " ++ Text.quoted text
  | .tooDeep => "expression is nested too deeply"

namespace Node

/-- The only expression of a source: one statement that is one expression. -/
def onlyExpression? (tree : Node) : Option Node :=
  match tree.operands with
  | [statement] =>
    match statement.kind, statement.operands with
    | .expressionStatement, [e] =>
      match e.kind with
      | .assignment | .augmentedAssignment | .yield => none
      | _ => some e
    | _, _ => none
  | _ => none

end Node

/-- The expression a text stands for. -/
def Expr.ofText (text : String) (host : Host := .usual) : Except ReadError Expr :=
  match Node.ofSource? (Utf8.encode text) with
  | none => .error (.notParsed text)
  | some tree =>
    match tree.onlyExpression? with
    | none => .error (.notSingle text)
    | some n => if host.cannotConvert n then .error .tooDeep else .ok n.toExpr

end Foregone
