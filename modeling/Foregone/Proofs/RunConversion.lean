import Foregone.Proofs.Conversion

/-! # Runs of operators

A run is read in one walk down the left operands, which stops for three reasons: the next
node is of another kind, one of its operands is missing, or its operator is missing or not
supported. The links that were passed are then put on top of the expression of the node
where the walk stopped. This gives what plain recursion gives, so a node that cannot be
read makes its own part of the run foreign and leaves all links above it as they are. -/

namespace Foregone

/-- A link of a run whose right operand is still a tree. -/
structure TreeLink where
  op : BinaryOp
  right : Node

def TreeLink.toRunLink (link : TreeLink) : RunLink := ⟨link.op, link.right.toExpr⟩

namespace Node

/-- Walk down the left operands while the nodes are of kind `k`. The links passed so far
are `passed`, lowest first; the walk yields all links with the node where it stops. -/
def passRun (k : Kind) (n : Node) (passed : List TreeLink) : List TreeLink × Node :=
  if n.kind = k then
    match h : n.child? .left, n.child? .right, n.runOp? with
    | some left, some right, some op =>
      have := sizeOf_lt_of_child? h
      left.passRun k (⟨op, right⟩ :: passed)
    | _, _, _ => (passed, n)
  else (passed, n)
termination_by sizeOf n

/-- The expression of a run. A node that the walk does not pass itself is foreign. -/
def convertRun (n : Node) : Expr :=
  match n.passRun n.kind [] with
  | ([], _) => n.foreign
  | (links, rest) => RunLink.rebuild rest.toExpr (links.map TreeLink.toRunLink)

/-! ## The walk -/

theorem passRun_of_parts {n left right : Node} {op : BinaryOp} (hl : n.child? .left = some left)
    (hr : n.child? .right = some right) (ho : n.runOp? = some op) (passed : List TreeLink) :
    n.passRun n.kind passed = left.passRun n.kind (⟨op, right⟩ :: passed) := by
  rw [passRun, if_pos rfl]
  split
  · rename_i hl' hr' ho'
    cases hl.symm.trans hl'
    cases hr.symm.trans hr'
    cases ho.symm.trans ho'
    rfl
  · rename_i hparts
    exact (hparts left right op hl hr ho).elim

/-- No link that was passed is lost. -/
theorem suffix_passRun (k : Kind) (n : Node) (passed : List TreeLink) :
    passed <:+ (n.passRun k passed).1 := by
  fun_induction passRun k n passed with
  | case1 n passed _ left right op _ _ _ _ ih => exact (List.suffix_cons _ _).trans ih
  | case2 => exact List.suffix_rfl
  | case3 => exact List.suffix_rfl

/-- The invariant of the walk: what it has passed, on top of the expression of the node it
has come to, is always the same expression. -/
theorem rebuild_passRun {k : Kind} (hk : k = .booleanOperator ∨ k = .binaryOperator) (n : Node)
    (passed : List TreeLink) :
    RunLink.rebuild (n.passRun k passed).2.toExpr
        ((n.passRun k passed).1.map TreeLink.toRunLink) =
      RunLink.rebuild n.toExpr (passed.map TreeLink.toRunLink) := by
  fun_induction passRun k n passed with
  | case1 n passed hn left right op hl ho hr _ ih =>
    rw [ih, toExpr_of_operator (hn ▸ hk) hl hr ho]
    rfl
  | case2 => rfl
  | case3 => rfl

/-- The walk gives the expression of the node. -/
theorem convertRun_eq {n : Node} (hk : n.kind = .booleanOperator ∨ n.kind = .binaryOperator) :
    n.convertRun = n.toExpr := by
  have hrebuild := rebuild_passRun hk n []
  unfold convertRun
  split
  · rename_i rest hpass
    -- nothing was passed, so the node itself lacks a part
    rw [toExpr_of_run hk]
    split
    · rename_i left right op hl hr ho
      have hsuffix := suffix_passRun n.kind left [⟨op, right⟩]
      rw [← passRun_of_parts hl hr ho, hpass] at hsuffix
      cases List.suffix_nil.mp hsuffix
    · rfl
  · rename_i links rest _ hpass
    rw [hpass] at hrebuild
    exact hrebuild

/-! ## Links above a node -/

/-- The left operands lead from `n` over `links`, lowest first, to `bottom`. -/
inductive LeadsTo : Node → List TreeLink → Node → Prop
  | here (n : Node) : LeadsTo n [] n
  | down {n left right bottom : Node} {op : BinaryOp} (links : List TreeLink) :
      n.child? .left = some left → n.child? .right = some right → n.runOp? = some op →
      LeadsTo left links bottom → LeadsTo n (links ++ [⟨op, right⟩]) bottom

theorem kind_of_runOp? {n : Node} {op : BinaryOp} (h : n.runOp? = some op) :
    n.kind = .booleanOperator ∨ n.kind = .binaryOperator :=
  ((n.hasOperatorsOfSymbols.run op).mp h).1.imp And.left And.left

theorem LeadsTo.toExpr_eq {n bottom : Node} {links : List TreeLink}
    (h : n.LeadsTo links bottom) :
    n.toExpr = RunLink.rebuild bottom.toExpr (links.map TreeLink.toRunLink) := by
  induction h with
  | here n => rfl
  | down links hl hr ho _ ih =>
    rw [toExpr_of_operator (kind_of_runOp? ho) hl hr ho, ih, List.map_append, RunLink.rebuild,
      RunLink.rebuild, List.foldl_append]
    rfl

theorem toExpr_of_missing {n : Node} (hk : n.kind = .booleanOperator ∨ n.kind = .binaryOperator)
    (hmissing : n.child? .left = none ∨ n.child? .right = none ∨ n.runOp? = none) :
    n.toExpr = n.foreign := by
  rw [toExpr_of_run hk]
  split
  · rename_i hl hr ho
    simp [hl, hr, ho] at hmissing
  · rfl

/-- On a node of a run, with a run below it of any length, the walk comes to plain recursion:
the operator between the expressions of both operands, or a foreign expression where an
operand or a supported operator is missing. However far down that is, only the node itself
is foreign, and every link above it is kept. -/
theorem convertRun_exact {n : Node}
    (hk : n.kind = .booleanOperator ∨ n.kind = .binaryOperator) :
    n.convertRun = n.toExpr ∧
    (n.convertRun = match n.child? .left, n.child? .right, n.runOp? with
      | some left, some right, some op => .binary op left.toExpr right.toExpr false
      | _, _, _ => n.foreign) ∧
    ∀ links bottom, n.LeadsTo links bottom →
      (bottom.kind = .booleanOperator ∨ bottom.kind = .binaryOperator) →
      (bottom.child? .left = none ∨ bottom.child? .right = none ∨ bottom.runOp? = none) →
      n.convertRun = RunLink.rebuild bottom.foreign (links.map TreeLink.toRunLink) := by
  have heq := convertRun_eq hk
  refine ⟨heq, heq.trans (toExpr_of_run hk), fun links bottom hlinks hb hmissing => ?_⟩
  rw [heq, hlinks.toExpr_eq, toExpr_of_missing hb hmissing]

/-- `a @ b + c - d`: two links are passed, and the walk stops at an operator that is not
supported. -/
theorem convertRun_exact_below_links :
    let operand (l : Label) (id : String) : Node := .leaf .identifier (some l) 0 0 id
    let sign (symbol : String) : Node := .leaf (.mark symbol) (some .operator) 0 0 symbol
    let product : Node := .branch .binaryOperator (some .left) 0 0
      [operand .left "a", sign "@", operand .right "b"]
    let sum : Node := .branch .binaryOperator (some .left) 0 0
      [product, sign "+", operand .right "c"]
    let difference : Node := .branch .binaryOperator none 0 0
      [sum, sign "-", operand .right "d"]
    difference.kind = .binaryOperator ∧ product.runOp? = none ∧
      difference.LeadsTo [⟨.arith .add, operand .right "c"⟩, ⟨.arith .sub, operand .right "d"⟩]
        product ∧
      difference.convertRun = .binary (.arith .sub)
        (.binary (.arith .add) (.foreign "binary_operator") (.name "c") false)
        (.name "d") false := by
  intro operand sign product sum difference
  have hlinks : difference.LeadsTo
      [⟨.arith .add, operand .right "c"⟩, ⟨.arith .sub, operand .right "d"⟩] product :=
    .down [_] rfl rfl rfl (.down [] rfl rfl rfl (.here product))
  obtain ⟨-, -, hbelow⟩ := convertRun_exact (n := difference) (.inr rfl)
  have hname (l : Label) (id : String) : (operand l id).toExpr = .name id := by
    rw [toExpr_eq]
    rfl
  refine ⟨rfl, rfl, hlinks, ?_⟩
  rw [hbelow _ product hlinks (.inr rfl) (.inr (.inr rfl))]
  simp only [RunLink.rebuild, List.map_cons, List.map_nil, TreeLink.toRunLink, hname,
    List.foldl_cons, List.foldl_nil]
  rfl

end Node
end Foregone
