import Foregone.Proofs.Numerals
import Foregone.Proofs.Spelling

/-! # The trees of written conditions

A node stands for an expression if it is converted to it and can be an operand of
another node. Each node over parts that stand for expressions stands for the expression
over these. -/

namespace Foregone

namespace Kind

/-- The kinds of nodes that written conditions are made of. -/
def isOperand : Kind → Bool
  | .identifier | .integer | .trueLiteral | .falseLiteral | .parenthesized | .notOperator
  | .unaryOperator | .booleanOperator | .binaryOperator | .comparison => true
  | _ => false

theorem isOperand_facts {k : Kind} (h : k.isOperand = true) :
    k.isNamed = true ∧ k.isExtra = false ∧ k ≠ .comment := by
  cases k with
  | mark | layout | comment | lineJoin => cases h
  | _ => exact ⟨rfl, rfl, Kind.noConfusion⟩

end Kind

/-! ## Trees -/

namespace Node

/-- The node is an expression of its own and stands for `e`. -/
structure Stands (n : Node) (e : Expr) : Prop where
  toExpr : n.toExpr = e
  kind : n.kind.isOperand = true
  label : n.label = none

variable {n : Node} {e : Expr} {t : Token}

theorem toExpr_labelled (l : Label) (n : Node) : (n.labelled l).toExpr = n.toExpr := by
  rw [toExpr_eq, toExpr_eq]
  cases n with
  | leaf => rfl
  | branch => rfl

@[simp] theorem kind_labelled (l : Label) (n : Node) : (n.labelled l).kind = n.kind := by
  cases n <;> rfl

@[simp] theorem label_labelled (l : Label) (n : Node) : (n.labelled l).label = some l := by
  cases n <;> rfl

@[simp] theorem text_labelled (l : Label) (n : Node) : (n.labelled l).text = n.text := by
  cases n <;> rfl

@[simp] theorem kind_of (k : Kind) (cs : List Node) : (of k cs).kind = k := rfl

theorem children_of (k : Kind) {c : Node} (cs : List Node) (h : c.kind.isExtra = false) :
    (of k (c :: cs)).children = c :: cs := by
  simp [of, children, h]

/-- The children that are operands of their parent. -/
def isPart (n : Node) : Bool := n.kind.isNamed && n.kind != .comment

theorem operands_eq (n : Node) : n.operands = n.children.filter isPart := rfl

theorem Stands.isPart (h : n.Stands e) : n.isPart = true := by
  obtain ⟨hnamed, -, hcomment⟩ := Kind.isOperand_facts h.kind
  simp [Node.isPart, hnamed, hcomment]

theorem Stands.isExtra (h : n.Stands e) : n.kind.isExtra = false :=
  (Kind.isOperand_facts h.kind).2.1

theorem isPart_labelled (l : Label) (n : Node) : (n.labelled l).isPart = n.isPart := by
  simp [Node.isPart]

/-! ### Literals and names -/

theorem stands_integer {i : Nat} (h : (toString i).length ≤ Literal.maxDigits) (start stop : Nat) :
    (leaf .integer none start stop (toString i)).Stands (.num (some (i : Int)) true) := by
  have hvalue : Literal.integer? (toString i) = some (i : Int) := by
    rw [Nat.toString_eq_ofList_toDigits, String.length_ofList] at h
    exact Literal.integer?_toString h
  refine ⟨?_, rfl, rfl⟩
  rw [toExpr_eq]
  simp only [kind, text, hvalue, Option.isSome_some]

theorem stands_bool (b : Bool) (start stop : Nat) (x : String) :
    (leaf (if b then .trueLiteral else .falseLiteral) none start stop x).Stands (.bool b) := by
  cases b with
  | true => exact ⟨by rw [toExpr_eq]; rfl, rfl, rfl⟩
  | false => exact ⟨by rw [toExpr_eq]; rfl, rfl, rfl⟩

theorem stands_name (start stop : Nat) (x : String) :
    (leaf .identifier none start stop x).Stands (.name x) :=
  ⟨by rw [toExpr_eq]; rfl, rfl, rfl⟩

/-! ### Operators and brackets -/

/-- The token is an operator or a bracket with this spelling. -/
def IsSymbol (t : Token) (x : String) : Prop := t.kind = .mark x ∨ t.kind = .name x

theorem IsSymbol.leaf_eq {x : String} (h : IsSymbol t x) :
    t.leaf.kind = .mark x ∧ t.leaf.label = none ∧ t.leaf.text = x := by
  rcases h with h | h
  · simp [Token.leaf, h, kind, label, text]
  · simp [Token.leaf, h, kind, label, text]

theorem IsSymbol.isPart {x : String} (h : IsSymbol t x) : t.leaf.isPart = false := by
  simp [Node.isPart, h.leaf_eq, Kind.isNamed]

theorem stands_paren {l r : Token} (hl : IsSymbol l "(") (hr : IsSymbol r ")") (h : n.Stands e) :
    (of .parenthesized [l.leaf, n, r.leaf]).Stands (.paren e) := by
  refine ⟨?_, rfl, rfl⟩
  have hparts : (of .parenthesized [l.leaf, n, r.leaf]).operands = [n] := by
    simp [operands_eq, children_of, hl.leaf_eq, Kind.isExtra, List.filter, hl.isPart, hr.isPart,
      h.isPart]
  rw [toExpr_eq]
  simp only [kind_of, hparts, h.toExpr]

theorem stands_not {w : Token} (hw : IsSymbol w "not") (h : n.Stands e) :
    (of .notOperator [w.leaf, n.labelled .argument]).Stands (.unary .not e) := by
  refine ⟨?_, rfl, rfl⟩
  have hargument : (of .notOperator [w.leaf, n.labelled .argument]).child? .argument =
      some (n.labelled .argument) := by
    simp [child?, children_of, hw.leaf_eq, Kind.isExtra]
  rw [toExpr_eq]
  simp only [kind_of, hargument, toExpr_labelled, h.toExpr]

theorem stands_sign {s : Token} {op : UnaryOp} (hs : IsSymbol s op.symbol)
    (hop : op = .plus ∨ op = .minus) (h : n.Stands e) :
    (of .unaryOperator [s.leaf.labelled .operator, n.labelled .argument]).Stands (.unary op e) := by
  refine ⟨?_, rfl, rfl⟩
  have hargument : (of .unaryOperator [s.leaf.labelled .operator, n.labelled .argument]).child?
      .argument = some (n.labelled .argument) := by
    simp [child?, children_of, hs.leaf_eq, Kind.isExtra]
  have hsign : (of .unaryOperator [s.leaf.labelled .operator, n.labelled .argument]).sign? =
      some op := by
    rcases hop with rfl | rfl
    · simp [sign?, child?, children_of, hs.leaf_eq, Kind.isExtra, UnaryOp.symbol, Kind.name]
    · simp [sign?, child?, children_of, hs.leaf_eq, Kind.isExtra, UnaryOp.symbol, Kind.name]
  rw [toExpr_eq]
  simp only [kind_of, hargument, hsign, toExpr_labelled, h.toExpr]

section

variable {o : Token} {l r : Node} {a b : Expr} (hl : l.Stands a) (hr : r.Stands b)

include hl hr

theorem stands_logical {c : Connective} (ho : IsSymbol o c.symbol) :
    (of .booleanOperator [l.labelled .left, o.leaf.labelled .operator, r.labelled .right]).Stands
      (.binary (.logical c) a b false) := by
  refine ⟨?_, rfl, rfl⟩
  rw [toExpr_eq]
  simp [runOp?, child?, children_of, ho.leaf_eq, hl.isExtra, Kind.name, Connective.ofSymbol?_symbol,
    toExpr_labelled, hl.toExpr, hr.toExpr]

theorem stands_arith {op : Arithmetic} (ho : IsSymbol o op.symbol) :
    (of .binaryOperator [l.labelled .left, o.leaf.labelled .operator, r.labelled .right]).Stands
      (.binary (.arith op) a b false) := by
  refine ⟨?_, rfl, rfl⟩
  rw [toExpr_eq]
  simp [runOp?, child?, children_of, ho.leaf_eq, hl.isExtra, Kind.name, Arithmetic.ofSymbol?_symbol,
    toExpr_labelled, hl.toExpr, hr.toExpr]

end

/-- The operators and right operands of a row of comparisons. -/
inductive Links : List Node → List (Comparison × Expr) → Prop where
  | nil : Links [] []
  | cons {o : Token} {c : Comparison} {r : Node} {b : Expr} {nodes : List Node}
    {links : List (Comparison × Expr)} (ho : IsSymbol o c.symbol) (hr : r.Stands b)
    (h : Links nodes links) :
    Links (o.leaf.labelled .operators :: r :: nodes) ((c, b) :: links)

theorem Links.operators {nodes : List Node} {links : List (Comparison × Expr)}
    (h : Links nodes links) :
    (nodes.filter fun c => c.label == some .operators).mapM
      (fun o => Comparison.ofSymbol? o.text) = some (links.map Prod.fst) := by
  induction h with
  | nil => rfl
  | cons ho hr _ ih =>
    simp [List.filter, hr.label, ho.leaf_eq, Comparison.ofSymbol?_symbol, ih]

theorem Links.operands {nodes : List Node} {links : List (Comparison × Expr)}
    (h : Links nodes links) : (nodes.filter Node.isPart).map Node.toExpr = links.map Prod.snd := by
  induction h with
  | nil => rfl
  | cons ho hr _ ih =>
    have hop : (_ : Node).isPart = false := (isPart_labelled .operators _).trans ho.isPart
    simp [List.filter, hop, hr.isPart, hr.toExpr, ih]

theorem stands_row {first : Node} {a : Expr} {c : Comparison} {b : Expr} {nodes : List Node}
    {links : List (Comparison × Expr)} (hfirst : first.Stands a)
    (h : Links nodes ((c, b) :: links)) :
    (of .comparison (first :: nodes)).Stands
      ((Expr.binary (.compare c) a b false).linked links) := by
  refine ⟨?_, rfl, rfl⟩
  have hops : (of .comparison (first :: nodes)).childrenWith .operators =
      nodes.filter fun c => c.label == some .operators := by
    simp [childrenWith, children_of, hfirst.isExtra, hfirst.label]
  have hparts : (of .comparison (first :: nodes)).operands = first :: nodes.filter Node.isPart := by
    simp [operands_eq, children_of, hfirst.isExtra, hfirst.isPart]
  have hlength : (nodes.filter Node.isPart).length = links.length + 1 := by
    simpa using congrArg List.length h.operands
  have hcomparison : (of .comparison (first :: nodes)).comparisonOps? =
      some (c :: links.map Prod.fst) := by
    simp [comparisonOps?, hops, h.operators, hparts, hlength]
  rw [toExpr_eq]
  simp only [kind_of, hcomparison, hparts, List.map_cons, hfirst.toExpr, h.operands,
    chain_eq_linked, Option.getD_some, ← List.zip_of_prod rfl rfl]

end Node

end Foregone
