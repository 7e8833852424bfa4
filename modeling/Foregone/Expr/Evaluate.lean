import Foregone.Expr
import Foregone.Value.Fold

/-! # The value of a condition

A run of binary operators that nests to the left is walked in one pass: down the
left operands first, remembering each operator with the value of its right
operand, and then back up, applying one operator after the other. On the way up
the right operand of the link below is kept, because a chained comparison compares
against it. -/

namespace Foregone

/-- A binary operator on the way up: what it is, whether it continues a comparison
chain, and the value of its right operand. -/
structure Link where
  op : BinaryOp
  continues : Bool
  right : Value

/-- What is known below a link: the value so far and the operand a chain shares. -/
structure Ascent where
  result : Value
  middle : Value

namespace Link

/-- Apply one operator to what is known below it. -/
def apply (below : Ascent) (link : Link) : Ascent :=
  let result := match link.op, link.continues with
    | .compare c, true => below.result.chain below.middle c link.right
    | op, _ => Value.binary op below.result link.right
  ⟨result, link.right⟩

/-- All links from the lowest to the highest. -/
def applyAll (start : Value) (links : List Link) : Value :=
  (links.foldl apply ⟨start, start⟩).result

end Link

namespace Expr

/-- The value of a literal, kept if it is a signed word. -/
def literalValue (value : Option Int) (isInteger : Bool) : Value :=
  match value, isInteger with
  | some n, true => .checked n
  | _, _ => .unknown

/-- The value of the expression once `links` are applied to it. -/
def evaluateUnder : Expr → List Link → Except Interval.Fault Value
  | .num v isInteger, links => .ok (Link.applyAll (literalValue v isInteger) links)
  | .bool b, links => .ok (Link.applyAll (.bool b) links)
  | .name x, links => .ok (Link.applyAll (.var x) links)
  | .foreign _, links => .ok (Link.applyAll .unknown links)
  | .paren e, links => do
    let v ← e.evaluateUnder []
    return Link.applyAll v links
  | .unary op e, links => do
    let v ← e.evaluateUnder []
    return Link.applyAll (← Value.unary op v) links
  | .binary op l r chained, links => do
    let right ← r.evaluateUnder []
    l.evaluateUnder (⟨op, chained && l.isBinary, right⟩ :: links)

/-- The value of the expression. -/
def evaluate (e : Expr) : Except Interval.Fault Value := e.evaluateUnder []

/-- The truth of the expression where it is the same on every run. -/
def verdict? (e : Expr) : Except Interval.Fault (Option Bool) := e.evaluate.map Value.toBool?

end Expr
end Foregone
