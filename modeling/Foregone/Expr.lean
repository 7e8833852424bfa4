import Foregone.Operator

/-! # Conditions

The expressions a condition is made of, as far as the analysis understands them.
Everything else is `foreign` and carries only the name of what it is. -/

namespace Foregone

inductive Expr where
  /-- A number. The value is missing where the literal is not an integer the
  analysis can read. -/
  | num (value : Option Int) (isInteger : Bool)
  | bool (b : Bool)
  | name (id : String)
  | paren (inner : Expr)
  | unary (op : UnaryOp) (operand : Expr)
  /-- A binary operation. `chained` marks a comparison that continues the one on
  its left: `a < b < c` is `(a < b) < c` with the outer link chained. -/
  | binary (op : BinaryOp) (left right : Expr) (chained : Bool)
  | foreign (kind : String)
  deriving DecidableEq, Inhabited

namespace Expr

def isBinary : Expr → Bool
  | .binary .. => true
  | _ => false

/-- The operator carries on the run on its left: a connective a run of connectives, an
arithmetic operator one of arithmetic operators, and a chained comparison its chain. -/
def carriesOnRun (op : BinaryOp) (left : Expr) (chained : Bool) : Bool :=
  match op, left with
  | .logical _, .binary (.logical _) .. => true
  | .arith _, .binary (.arith _) .. => true
  | .compare _, .binary (.compare _) .. => chained
  | _, _ => false

/-- How many calls are nested when the expression is converted from a tree. A parenthesis or
a unary operator takes one and a run of operators two, however long it is; a run of another
kind in it takes two more. -/
def conversionDepth : Expr → Nat
  | .num .. | .bool _ | .name _ | .foreign _ => 1
  | .paren e => e.conversionDepth + 1
  | .unary _ e => e.conversionDepth + 1
  | .binary op l r chained =>
    max (if carriesOnRun op l chained then l.conversionDepth else l.conversionDepth + 2)
      (r.conversionDepth + 2)

/-- How many calls are nested when the expression is evaluated. Binary operators that nest to
the left are one run, whatever they are. -/
def evaluationDepth : Expr → Nat
  | .num .. | .bool _ | .name _ | .foreign _ => 1
  | .paren e => e.evaluationDepth + 1
  | .unary _ e => e.evaluationDepth + 1
  | .binary _ l r _ =>
    max (if l.isBinary then l.evaluationDepth else l.evaluationDepth + 2) (r.evaluationDepth + 2)

/-- The expression as nested lists, operator first. -/
def listText : Expr → String
  | .num v isInteger =>
    let value := match v with
      | some n => toString n
      | none => "none"
    "(num " ++ value ++ (if isInteger then " true)" else " false)")
  | .bool b => if b then "(bool true)" else "(bool false)"
  | .name x => "(name " ++ x ++ ")"
  | .paren e => "(paren " ++ e.listText ++ ")"
  | .unary op e => "(unary " ++ op.symbol ++ " " ++ e.listText ++ ")"
  | .binary op l r chained =>
    (if chained then "(chained " else "(binary ") ++ op.symbol ++ " " ++ l.listText ++ " "
      ++ r.listText ++ ")"
  | .foreign kind => "(opaque " ++ kind ++ ")"

end Expr
end Foregone
