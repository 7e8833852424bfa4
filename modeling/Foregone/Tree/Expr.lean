import Foregone.Expr
import Foregone.Literal
import Foregone.Tree

/-! # The condition a tree stands for

Only the supported part of the language is taken over. A comparison with several
operators becomes a chain of links that nests to the left. A run of connectives or
of arithmetic operators is walked down its left operands, with the operators and
the converted right operands kept in a list, and rebuilt from the bottom; an
operator outside the supported set makes its own part of the run foreign and leaves
the links above it alone. -/

namespace Foregone

/-- A binary operator of a run, with its converted right operand. -/
structure RunLink where
  op : BinaryOp
  right : Expr

namespace RunLink

/-- Put the links on top of an expression, lowest first. -/
def rebuild (e : Expr) (links : List RunLink) : Expr :=
  links.foldl (fun left link => .binary link.op left link.right false) e

end RunLink

namespace Node

/-- The operator of a run node, if it is a supported one. -/
def runOp? (n : Node) : Option BinaryOp :=
  match n.kind, n.child? .operator with
  | .booleanOperator, some o => (Connective.ofSymbol? o.kind.name).map .logical
  | .binaryOperator, some o => (Arithmetic.ofSymbol? o.kind.name).map .arith
  | _, _ => none

/-- The comparison operators of a comparison node, if all of them are supported and
one stands between any two operands. -/
def comparisonOps? (n : Node) : Option (List Comparison) :=
  match (n.childrenWith .operators).mapM fun o => Comparison.ofSymbol? o.text with
  | some ops => if n.operands.length = ops.length + 1 ∧ ops ≠ [] then some ops else none
  | none => none

/-- A chain of comparisons: the first link stands alone, each later one continues
the link on its left. -/
def chain : List Comparison → List Expr → Option Expr
  | op :: ops, first :: second :: rest =>
    some ((ops.zip rest).foldl (fun left link => .binary (.compare link.1) left link.2 true)
      (.binary (.compare op) first second false))
  | _, _ => none

/-- The sign of a unary operator node. -/
def sign? (n : Node) : Option UnaryOp :=
  match n.child? .operator with
  | some o => match o.kind.name with
    | "+" => some .plus
    | "-" => some .minus
    | _ => none
  | none => none

/-- A node about which only its kind is known. -/
def foreign (n : Node) : Expr := .foreign n.kind.name

/-- The expression of a node under the links of the run it stands in. -/
def toExprUnder (n : Node) (links : List RunLink) : Expr :=
  match n.kind with
  | .integer =>
    let value := Literal.integer? n.text
    RunLink.rebuild (.num value value.isSome) links
  | .float => RunLink.rebuild (.num none false) links
  | .trueLiteral => RunLink.rebuild (.bool true) links
  | .falseLiteral => RunLink.rebuild (.bool false) links
  | .identifier => RunLink.rebuild (.name n.text) links
  | .parenthesized =>
    match h : n.operands with
    | [inner] =>
      have := sizeOf_lt_of_mem_operands (n := n) (c := inner) (by simp [h])
      RunLink.rebuild (.paren (inner.toExprUnder [])) links
    | _ => RunLink.rebuild n.foreign links
  | .notOperator =>
    match h : n.child? .argument with
    | some argument =>
      have := sizeOf_lt_of_child? h
      RunLink.rebuild (.unary .not (argument.toExprUnder [])) links
    | none => RunLink.rebuild n.foreign links
  | .unaryOperator =>
    match h : n.child? .argument, n.sign? with
    | some argument, some op =>
      have := sizeOf_lt_of_child? h
      RunLink.rebuild (.unary op (argument.toExprUnder [])) links
    | _, _ => RunLink.rebuild n.foreign links
  | .booleanOperator | .binaryOperator =>
    match hl : n.child? .left, hr : n.child? .right, n.runOp? with
    | some left, some right, some op =>
      have := sizeOf_lt_of_child? hl
      have := sizeOf_lt_of_child? hr
      left.toExprUnder (⟨op, right.toExprUnder []⟩ :: links)
    | _, _, _ => RunLink.rebuild n.foreign links
  | .comparison =>
    match n.comparisonOps? with
    | some ops =>
      let operands := n.operands.attach.map fun c =>
        have := sizeOf_lt_of_mem_operands c.2
        c.1.toExprUnder []
      RunLink.rebuild ((chain ops operands).getD n.foreign) links
    | none => RunLink.rebuild n.foreign links
  | _ => RunLink.rebuild n.foreign links
termination_by sizeOf n

/-- The expression a node stands for. -/
def toExpr (n : Node) : Expr := n.toExprUnder []

end Node
end Foregone
