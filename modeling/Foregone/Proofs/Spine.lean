import Foregone.Proofs.Ascent

/-! # The walk along the left operands

One pass down and up a run of binary operators gives what a plain recursion on the
expression gives: each operator is applied to the values of its two operands, and a
chained comparison to the value below it and the value of the operand it shares with
the operator directly below, whatever kind that operator is. -/

namespace Foregone

/-! ## What one step can do -/

namespace Value

/-- A connective yields a constant, its right operand or a join. -/
theorem connect_cases (c : Connective) (l r : Value) :
    connect c l r = .unknown ∨ (∃ n, connect c l r = .int n) ∨ (∃ b, connect c l r = .bool b) ∨
      connect c l r = r ∨
      ∃ a b j, l = .ranges a ∧ r = .ranges b ∧ Constraints.join? c a b = some j ∧
        connect c l r = .ranges j := by
  unfold connect
  split
  · split
    · cases l with
      | int n => exact .inr (.inl ⟨n, rfl⟩)
      | _ => exact .inr (.inr (.inl ⟨_, rfl⟩))
    · exact .inr (.inr (.inr (.inl rfl)))
  · split
    · split
      · rename_i j hj
        exact .inr (.inr (.inr (.inr ⟨_, _, j, rfl, rfl, hj, rfl⟩)))
      · exact .inr (.inr (.inl ⟨_, rfl⟩))
    · exact .inl rfl

/-- A chain goes on from `left`: it is no condition, or a condition on the shared operand
alone. -/
def carriesOn (left middle : Value) : Bool :=
  match left with
  | .ranges r => decide (r.singleVariable?.map var = some middle)
  | _ => true

theorem chain_of_carriesOn {l m : Value} (h : l.carriesOn m = true) (c : Comparison) (r : Value) :
    l.chain m c r = l.and (m.compare c r) := by
  cases l with
  | ranges s =>
    obtain ⟨x, hx, rfl⟩ := Option.map_eq_some_iff.mp (of_decide_eq_true h)
    simp only [chain, hx, if_true]
  | _ => rfl

theorem chain_of_not_carriesOn {l m : Value} (h : l.carriesOn m = false) (c : Comparison)
    (r : Value) : l.chain m c r = .unknown := by
  cases l with
  | ranges s =>
    have hm : s.singleVariable?.map var ≠ some m := of_decide_eq_false h
    simp only [chain]
    cases hx : s.singleVariable? with
    | none => rfl
    | some x =>
      have hne : m ≠ .var x := by
        intro he
        exact hm (by rw [hx, he]; rfl)
      exact if_neg hne
  | _ => cases h

/-- A chain adds the comparison of the operand it shares, or gives up. -/
theorem chain_cases (l m : Value) (c : Comparison) (r : Value) :
    l.chain m c r = .unknown ∨ l.chain m c r = l.and (m.compare c r) := by
  by_cases h : l.carriesOn m = true
  · exact .inr (chain_of_carriesOn h c r)
  · exact .inl (chain_of_not_carriesOn (Bool.eq_false_of_not_eq_true h) c r)

end Value

/-- A link goes on with a chain or applies its operator to both values. -/
theorem Link.apply_cases (op : BinaryOp) (continues : Bool) :
    (∃ c, op = .compare c ∧ continues = true ∧
      ∀ below right, Link.apply below ⟨op, continues, right⟩ =
        ⟨below.result.chain below.middle c right, right⟩) ∨
    ∀ below right, Link.apply below ⟨op, continues, right⟩ =
      ⟨Value.binary op below.result right, right⟩ := by
  cases op with
  | compare c =>
    cases continues with
    | true => exact .inl ⟨c, rfl, rfl, fun _ _ => rfl⟩
    | false => exact .inr fun _ _ => rfl
  | logical c => exact .inr fun _ _ => rfl
  | arith a => exact .inr fun _ _ => rfl
  | unsupported s => exact .inr fun _ _ => rfl

/-- A link that continues no comparison applies its operator to both values. -/
theorem Link.apply_plain (below : Ascent) (op : BinaryOp) (right : Value) :
    Link.apply below ⟨op, false, right⟩ = ⟨Value.binary op below.result right, right⟩ := by
  cases op <;> rfl

/-! ## Plain recursion -/

namespace Expr

theorem evaluate_of_ascend {e : Expr} {a : Ascent} (h : e.ascend = .ok a) :
    e.evaluate = .ok a.result := by
  rw [evaluate_eq, h]
  rfl

/-- What a link above a binary operator shares with it is the value of its right operand. -/
theorem evaluate_right_of_ascend {op : BinaryOp} {l m : Expr} {chained : Bool} {a : Ascent}
    (h : (binary op l m chained).ascend = .ok a) : m.evaluate = .ok a.middle := by
  obtain ⟨below, hl, -⟩ := l.exists_ascend
  obtain ⟨right, hm, -⟩ := m.exists_ascend
  cases (ascend_binary hl hm).symm.trans h
  exact evaluate_of_ascend hm

/-- An operator that continues no comparison is applied to the values of its operands. -/
theorem evaluate_unchained (op : BinaryOp) {a b : Expr} {l r : Value} (ha : a.evaluate = .ok l)
    (hb : b.evaluate = .ok r) : (binary op a b false).evaluate = .ok (Value.binary op l r) := by
  obtain ⟨below, hbelow, -⟩ := a.exists_ascend
  obtain ⟨right, hright, -⟩ := b.exists_ascend
  cases (evaluate_of_ascend hbelow).symm.trans ha
  cases (evaluate_of_ascend hright).symm.trans hb
  rw [evaluate_of_ascend (ascend_binary hbelow hright), Bool.false_and, Link.apply_plain]

theorem evaluate_unary {op : UnaryOp} {e : Expr} {v u : Value} (hv : e.evaluate = .ok v)
    (hu : Value.unary op v = .ok u) : (unary op e).evaluate = .ok u := by
  obtain ⟨a, ha, -⟩ := e.exists_ascend
  cases (evaluate_of_ascend ha).symm.trans hv
  exact evaluate_of_ascend (ascend_unary ha hu)

/-- The value of a binary operator by plain recursion. A comparison that is marked as
chained and has a binary operator on its left goes on from the right operand of that
operator; all else is the operator applied to both values. -/
theorem evaluate_binary (op : BinaryOp) (l r : Expr) (chained : Bool) :
    ∃ left right, l.evaluate = .ok left ∧ r.evaluate = .ok right ∧
      match op, chained, l with
      | .compare c, true, .binary _ _ m _ => ∃ middle, m.evaluate = .ok middle ∧
        (binary op l r chained).evaluate = .ok (left.chain middle c right)
      | _, _, _ => (binary op l r chained).evaluate = .ok (Value.binary op left right) := by
  obtain ⟨below, hl, -⟩ := l.exists_ascend
  obtain ⟨right, hr, -⟩ := r.exists_ascend
  have heval : (binary op l r chained).evaluate = _ := evaluate_of_ascend (ascend_binary hl hr)
  refine ⟨_, _, evaluate_of_ascend hl, evaluate_of_ascend hr, ?_⟩
  rw [heval]
  split
  · exact ⟨_, evaluate_right_of_ascend hl, rfl⟩
  · rename_i hlink
    cases op with
    | logical c => rfl
    | arith a => rfl
    | unsupported s => rfl
    | compare c =>
      have hplain : (chained && l.isBinary) = false := by
        cases chained with
        | false => rfl
        | true =>
          cases l with
          | binary op' l' m chained' => exact (hlink c op' l' m chained' rfl rfl rfl).elim
          | _ => rfl
      rw [hplain, Link.apply_plain]

end Expr
end Foregone
