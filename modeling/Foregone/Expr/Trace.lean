import Foregone.Expr.Evaluate

/-! # How a value came about

One line for each step of the evaluation, operands before the operators that use
them. -/

namespace Foregone.Expr

/-- What a step is called. -/
def stepName : Expr → String
  | .num .. => "NumericLiteral"
  | .bool _ => "BoolLiteral"
  | .name _ => "Name"
  | .paren _ => "Parenthesized"
  | .unary .. => "Unary"
  | .binary op .. => op.symbol
  | .foreign _ => "Opaque"

/-- A value with the operand a chained comparison would share and the steps so far,
latest first. -/
structure Traced where
  value : Value
  middle : Value
  steps : List String

/-- Add the step that gave `v`. -/
def Traced.record (e : Expr) (v middle : Value) (steps : List String) : Traced :=
  ⟨v, middle, ("EVAL " ++ e.stepName ++ " => " ++ v.text) :: steps⟩

/-- Evaluate after the given steps. -/
def trace : Expr → List String → Except Interval.Fault Traced
  | .num v isInteger, steps =>
    let value := literalValue v isInteger
    .ok (.record (.num v isInteger) value value steps)
  | .bool b, steps => .ok (.record (.bool b) (.bool b) (.bool b) steps)
  | .name x, steps => .ok (.record (.name x) (.var x) (.var x) steps)
  | .foreign kind, steps => .ok (.record (.foreign kind) .unknown .unknown steps)
  | .paren e, steps => do
    let t ← e.trace steps
    return .record (.paren e) t.value t.value t.steps
  | .unary op e, steps => do
    let t ← e.trace steps
    let v ← Value.unary op t.value
    return .record (.unary op e) v v t.steps
  | .binary op l r chained, steps => do
    let below ← l.trace steps
    let right ← r.trace below.steps
    let link : Link := ⟨op, chained && l.isBinary, right.value⟩
    let above := link.apply ⟨below.value, below.middle⟩
    return .record (.binary op l r chained) above.result above.middle right.steps

/-- The steps of the evaluation in order. -/
def steps (e : Expr) : List String :=
  match e.trace [] with
  | .ok t => t.steps.reverse
  | .error _ => []

end Foregone.Expr
