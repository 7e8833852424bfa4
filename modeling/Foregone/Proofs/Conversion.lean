import Foregone.Proofs.Run
import Foregone.Tree.Expr

/-! # The expression of a tree

What the walk along the left operands of a run yields is what a plain recursion on the
tree yields: every node is built from the expressions of its parts. So an expression that
comes from a tree is `regular`: its operators are supported ones, a chained link continues
a comparison, and a number has a value exactly if it is an integer. -/

namespace Foregone

namespace UnaryOp

def isSupported : UnaryOp → Bool
  | .unsupported _ => false
  | _ => true

end UnaryOp

namespace BinaryOp

def isSupported : BinaryOp → Bool
  | .unsupported _ => false
  | _ => true

def isComparison : BinaryOp → Bool
  | .compare _ => true
  | _ => false

end BinaryOp

namespace Expr

/-- All operators are supported, a chained link is a comparison that continues a
comparison, and a number has a value exactly if it is an integer. -/
def isRegular : Expr → Bool
  | .num v isInteger => v.isSome == isInteger
  | .bool _ | .name _ | .foreign _ => true
  | .paren e => e.isRegular
  | .unary op e => op.isSupported && e.isRegular
  | .binary op l r chained =>
    op.isSupported && (!chained || op.isComparison && l.isComparison) && l.isRegular && r.isRegular

/-- Chained links on top of a comparison, lowest first. -/
def linked (l : Expr) (links : List (Comparison × Expr)) : Expr :=
  links.foldl (fun left link => .binary (.compare link.1) left link.2 true) l

theorem isRegular_linked {links : List (Comparison × Expr)} {l : Expr}
    (hl : l.isComparison = true) (hr : l.isRegular = true)
    (hlinks : ∀ k ∈ links, k.2.isRegular = true) : (l.linked links).isRegular = true := by
  induction links generalizing l with
  | nil => exact hr
  | cons k links ih =>
    refine ih (l := .binary (.compare k.1) l k.2 true) rfl ?_ fun k' hk' =>
      hlinks k' (List.mem_cons_of_mem _ hk')
    simp [isRegular, BinaryOp.isSupported, BinaryOp.isComparison, hl, hr,
      hlinks k List.mem_cons_self]

end Expr

namespace Node

/-! ## Plain recursion -/

/-- The links that wait above a node are put on top of its own expression. -/
theorem toExprUnder_eq (n : Node) (links : List RunLink) :
    n.toExprUnder links = RunLink.rebuild n.toExpr links := by
  have run (left : Node) (hlt : sizeOf left < sizeOf n) (link : RunLink) :
      left.toExprUnder (link :: links) = RunLink.rebuild (left.toExprUnder [link]) links := by
    rw [toExprUnder_eq left, toExprUnder_eq left]
    rfl
  rw [toExpr, toExprUnder, toExprUnder]
  split
  case h_9 | h_10 =>
    split
    · rename_i hl _ _
      exact run _ (sizeOf_lt_of_child? hl) _
    · rfl
  case h_6 | h_7 | h_8 | h_11 =>
    split
    · rfl
    · rfl
  all_goals rfl
termination_by sizeOf n

/-- The expression of a node from the expressions of its parts. -/
theorem toExpr_eq (n : Node) : n.toExpr =
    match n.kind with
    | .integer => .num (Literal.integer? n.text) (Literal.integer? n.text).isSome
    | .float => .num none false
    | .trueLiteral => .bool true
    | .falseLiteral => .bool false
    | .identifier => .name n.text
    | .parenthesized =>
      match n.operands with
      | [inner] => .paren inner.toExpr
      | _ => n.foreign
    | .notOperator =>
      match n.child? .argument with
      | some argument => .unary .not argument.toExpr
      | none => n.foreign
    | .unaryOperator =>
      match n.child? .argument, n.sign? with
      | some argument, some op => .unary op argument.toExpr
      | _, _ => n.foreign
    | .booleanOperator | .binaryOperator =>
      match n.child? .left, n.child? .right, n.runOp? with
      | some left, some right, some op => .binary op left.toExpr right.toExpr false
      | _, _, _ => n.foreign
    | .comparison =>
      match n.comparisonOps? with
      | some ops => (chain ops (n.operands.map toExpr)).getD n.foreign
      | none => n.foreign
    | _ => n.foreign := by
  rw [toExpr, toExprUnder]
  cases hk : n.kind with
  | parenthesized | notOperator | unaryOperator =>
    dsimp only
    split <;> simp_all [RunLink.rebuild, toExpr]
  | booleanOperator | binaryOperator =>
    dsimp only
    split
    · rename_i left right op hl hr ho
      rw [hl, hr, ho, toExprUnder_eq]
      rfl
    · simp_all [RunLink.rebuild]
  | comparison =>
    dsimp only
    cases n.comparisonOps? with
    | none => rfl
    | some ops =>
      have hparts : (n.operands.attach.map fun c => c.1.toExprUnder []) = n.operands.map toExpr :=
        List.attach_map_val (f := toExpr)
      dsimp only
      rw [hparts]
      rfl
  | _ => rfl

/-- The expression of a run node from those of its operands. -/
theorem toExpr_of_run {n : Node} (hk : n.kind = .booleanOperator ∨ n.kind = .binaryOperator) :
    n.toExpr = match n.child? .left, n.child? .right, n.runOp? with
      | some left, some right, some op => .binary op left.toExpr right.toExpr false
      | _, _, _ => n.foreign := by
  rw [toExpr_eq]
  rcases hk with hk | hk
  · simp only [hk]
  · simp only [hk]

theorem toExpr_of_operator {n : Node} {left right : Node} {op : BinaryOp}
    (hk : n.kind = .booleanOperator ∨ n.kind = .binaryOperator)
    (hl : n.child? .left = some left) (hr : n.child? .right = some right)
    (ho : n.runOp? = some op) :
    n.toExpr = .binary op left.toExpr right.toExpr false := by
  rw [toExpr_of_run hk, hl, hr, ho]

theorem chain_eq_linked (c : Comparison) (cs : List Comparison) (first second : Expr)
    (rest : List Expr) : chain (c :: cs) (first :: second :: rest) =
      some ((Expr.binary (.compare c) first second false).linked (cs.zip rest)) := rfl

/-- A chain needs an operator and two operands. -/
theorem chain_eq_none {ops : List Comparison} {operands : List Expr}
    (h : ∀ c cs first second rest, ops = c :: cs → operands ≠ first :: second :: rest) :
    chain ops operands = none := by
  unfold chain
  split
  · rename_i c cs first second rest
    exact (h c cs first second rest rfl rfl).elim
  · rfl

/-! ## Operators -/

theorem mapM_ofSymbol?_eq_some_iff {ns : List Node} {cs : List Comparison} :
    (ns.mapM fun o => Comparison.ofSymbol? o.text) = some cs ↔
      ns.map Node.text = cs.map Comparison.symbol := by
  induction ns generalizing cs with
  | nil => cases cs <;> simp
  | cons n ns ih =>
    cases cs with
    | nil => simp [List.mapM_cons, Option.bind_eq_some_iff]
    | cons c cs =>
      simp [List.mapM_cons, Option.bind_eq_some_iff, ih, Comparison.ofSymbol?_eq_some_iff]

/-- The operators of a node are those whose symbols it carries, each at its own kind of
node. -/
structure HasOperatorsOfSymbols (n : Node) : Prop where
  sign : ∀ op, n.sign? = some op ↔ (op = .plus ∨ op = .minus) ∧
    ∃ o, n.child? .operator = some o ∧ o.kind.name = op.symbol
  run : ∀ op, n.runOp? = some op ↔
    (n.kind = .booleanOperator ∧ (∃ c, op = .logical c) ∨
      n.kind = .binaryOperator ∧ ∃ a, op = .arith a) ∧
    ∃ o, n.child? .operator = some o ∧ o.kind.name = op.symbol
  comparisons : ∀ cs, n.comparisonOps? = some cs ↔
    (n.childrenWith .operators).map Node.text = cs.map Comparison.symbol ∧
      n.operands.length = cs.length + 1 ∧ cs ≠ []

theorem hasOperatorsOfSymbols (n : Node) : n.HasOperatorsOfSymbols where
  sign op := by
    constructor
    · intro h
      unfold sign? at h
      split at h
      · rename_i o ho
        split at h
        · cases h
          exact ⟨.inl rfl, o, ho, ‹_›⟩
        · cases h
          exact ⟨.inr rfl, o, ho, ‹_›⟩
        · cases h
      · cases h
    · rintro ⟨rfl | rfl, o, ho, hsymbol⟩
      · simp [sign?, ho, hsymbol, UnaryOp.symbol]
      · simp [sign?, ho, hsymbol, UnaryOp.symbol]
  run op := by
    unfold runOp?
    split
    · rename_i o hk ho
      simp only [Option.map_eq_some_iff, Connective.ofSymbol?_eq_some_iff]
      constructor
      · rintro ⟨c, hc, rfl⟩
        exact ⟨.inl ⟨hk, c, rfl⟩, o, ho, hc⟩
      · rintro ⟨⟨-, c, rfl⟩ | ⟨hk', -⟩, o', ho', hsymbol⟩
        · cases ho.symm.trans ho'
          exact ⟨c, hsymbol, rfl⟩
        · cases hk.symm.trans hk'
    · rename_i o hk ho
      simp only [Option.map_eq_some_iff, Arithmetic.ofSymbol?_eq_some_iff]
      constructor
      · rintro ⟨a, ha, rfl⟩
        exact ⟨.inr ⟨hk, a, rfl⟩, o, ho, ha⟩
      · rintro ⟨⟨hk', -⟩ | ⟨-, a, rfl⟩, o', ho', hsymbol⟩
        · cases hk.symm.trans hk'
        · cases ho.symm.trans ho'
          exact ⟨a, hsymbol, rfl⟩
    · rename_i hlogical harith
      refine iff_of_false nofun ?_
      rintro ⟨⟨hk, -⟩ | ⟨hk, -⟩, o, ho, -⟩
      · exact hlogical o hk ho
      · exact harith o hk ho
  comparisons cs := by
    rw [← mapM_ofSymbol?_eq_some_iff, comparisonOps?]
    constructor
    · intro h
      split at h
      · rename_i ops hops
        split at h
        · rename_i hshape
          cases h
          exact ⟨hops, hshape⟩
        · cases h
      · cases h
    · rintro ⟨hops, hshape⟩
      rw [hops]
      exact if_pos hshape

theorem sign?_isSupported {n : Node} {op : UnaryOp} (h : n.sign? = some op) :
    op.isSupported = true := by
  obtain ⟨rfl | rfl, -⟩ := (n.hasOperatorsOfSymbols.sign op).mp h
  · rfl
  · rfl

theorem runOp?_cases {n : Node} {op : BinaryOp} (h : n.runOp? = some op) :
    (∃ c, op = .logical c) ∨ ∃ a, op = .arith a :=
  ((n.hasOperatorsOfSymbols.run op).mp h).1.imp And.right And.right

/-! ## Regularity -/

theorem isRegular_chain {ops : List Comparison} {operands : List Expr} {e : Expr}
    (h : chain ops operands = some e) (ho : ∀ o ∈ operands, o.isRegular = true) :
    e.isRegular = true := by
  unfold chain at h
  split at h
  · rename_i c cs first second rest
    cases h
    refine Expr.isRegular_linked rfl ?_ fun k hk => ?_
    · simp [Expr.isRegular, BinaryOp.isSupported, ho first List.mem_cons_self,
        ho second (List.mem_cons_of_mem _ List.mem_cons_self)]
    · have hrest := (List.of_mem_zip (a := k.1) (b := k.2) hk).2
      exact ho k.2 (List.mem_cons_of_mem _ (List.mem_cons_of_mem _ hrest))
  · cases h

theorem isRegular_toExpr (n : Node) : n.toExpr.isRegular = true := by
  rw [toExpr_eq]
  cases hk : n.kind with
  | integer => simp [Expr.isRegular]
  | parenthesized =>
    dsimp only
    split
    · rename_i inner h
      have := sizeOf_lt_of_mem_operands (n := n) (c := inner) (by simp [h])
      exact isRegular_toExpr inner
    · rfl
  | notOperator =>
    dsimp only
    split
    · rename_i argument h
      have := sizeOf_lt_of_child? h
      exact isRegular_toExpr argument
    · rfl
  | unaryOperator =>
    dsimp only
    split
    · rename_i argument op h ho
      have := sizeOf_lt_of_child? h
      simp [Expr.isRegular, sign?_isSupported ho, isRegular_toExpr argument]
    · rfl
  | booleanOperator | binaryOperator =>
    dsimp only
    split
    · rename_i left right op hl hr ho
      have := sizeOf_lt_of_child? hl
      have := sizeOf_lt_of_child? hr
      have hop : op.isSupported = true := by
        rcases runOp?_cases ho with ⟨c, rfl⟩ | ⟨a, rfl⟩
        · rfl
        · rfl
      simp [Expr.isRegular, hop, isRegular_toExpr left, isRegular_toExpr right]
    · rfl
  | comparison =>
    dsimp only
    split
    · rename_i ops _
      cases hc : chain ops (n.operands.map toExpr) with
      | none => rfl
      | some e =>
        refine isRegular_chain hc fun o ho => ?_
        obtain ⟨c, hm, rfl⟩ := List.mem_map.mp ho
        have := sizeOf_lt_of_mem_operands hm
        exact isRegular_toExpr c
    · rfl
  | _ => rfl
termination_by sizeOf n

end Node
end Foregone
