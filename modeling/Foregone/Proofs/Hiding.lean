import Foregone.Proofs.Run
import Foregone.Proofs.Spine

/-! # Conditions of which less is known

Parts of a condition can be hidden: made foreign, so that nothing is known about them.
Values are ordered by what they tell, with `unknown` below all others and no order
among those. Every operation is monotone in this order. A connective may ignore its
right operand, so it need not be unknown when that one is; but what is unknown on the
left always makes the result unknown. -/

namespace Foregone

namespace Value

/-- `v` tells nothing or the same as `w`. -/
def Below (v w : Value) : Prop := v = .unknown ∨ v = w

theorem Below.refl (v : Value) : Below v v := .inr rfl

/-- Nothing is known of an operation whose left operand is unknown, and an unknown right
operand only takes away: then the operation is monotone. -/
theorem Below.map₂ {f : Value → Value → Value} (hleft : ∀ r, f .unknown r = .unknown)
    (hright : ∀ l r, Below (f l .unknown) (f l r)) {l l' r r' : Value}
    (hl : Below l' l) (hr : Below r' r) : Below (f l' r') (f l r) := by
  rcases hl with rfl | rfl
  · exact .inl (hleft r')
  · rcases hr with rfl | rfl
    · exact hright l' r
    · exact .refl _

theorem connect_unknown_left (c : Connective) (r : Value) : connect c .unknown r = .unknown := rfl

theorem below_connect_unknown (c : Connective) (l r : Value) :
    Below (connect c l .unknown) (connect c l r) := by
  unfold connect
  split
  · split
    · exact .refl _
    · exact .inl rfl
  · left
    cases l <;> rfl

theorem compare_unknown_left (c : Comparison) (r : Value) : compare .unknown c r = .unknown := by
  unfold compare
  cases r <;> rfl

theorem compare_unknown_right (l : Value) (c : Comparison) : l.compare c .unknown = .unknown := by
  unfold compare
  cases l <;> rfl

theorem arith_unknown_left (op : Arithmetic) (r : Value) : arith .unknown op r = .unknown := rfl

theorem arith_unknown_right (l : Value) (op : Arithmetic) : l.arith op .unknown = .unknown := by
  unfold arith
  cases l.toInt? <;> rfl

theorem binary_unknown_left (op : BinaryOp) (r : Value) : binary op .unknown r = .unknown := by
  cases op with
  | logical c => exact connect_unknown_left c r
  | compare c => exact compare_unknown_left c r
  | arith a => exact arith_unknown_left a r
  | unsupported s => rfl

theorem below_binary_unknown (op : BinaryOp) (l r : Value) :
    Below (binary op l .unknown) (binary op l r) := by
  cases op with
  | logical c => exact below_connect_unknown c l r
  | compare c => exact .inl (compare_unknown_right l c)
  | arith a => exact .inl (arith_unknown_right l a)
  | unsupported s => exact .inl rfl

theorem Below.binary (op : BinaryOp) {l l' r r' : Value} (hl : Below l' l) (hr : Below r' r) :
    Below (Value.binary op l' r') (Value.binary op l r) :=
  .map₂ (binary_unknown_left op) (below_binary_unknown op) hl hr

theorem Below.compare (c : Comparison) {l l' r r' : Value} (hl : Below l' l) (hr : Below r' r) :
    Below (l'.compare c r') (l.compare c r) := .binary (.compare c) hl hr

theorem Below.and {l l' r r' : Value} (hl : Below l' l) (hr : Below r' r) :
    Below (l'.and r') (l.and r) := .binary (.logical .and) hl hr

theorem Below.chain (c : Comparison) {l l' m m' r r' : Value} (hl : Below l' l)
    (hm : Below m' m) (hr : Below r' r) : Below (l'.chain m' c r') (l.chain m c r) := by
  rcases hl with rfl | rfl
  · exact .inl rfl
  · unfold Value.chain
    split
    · split
      · rename_i x _
        -- the shared operand is compared with `x`, which no hidden operand equals
        rcases hm with rfl | rfl
        · exact .inl rfl
        · split
          · exact .and (.refl _) (.compare c (.refl _) hr)
          · exact .inl rfl
      · exact .inl rfl
    · exact .and (.refl _) (.compare c hm hr)

theorem Below.unary (op : UnaryOp) {v v' u : Value} (h : Below v' v)
    (hu : Value.unary op v = .ok u) : ∃ u', Value.unary op v' = .ok u' ∧ Below u' u := by
  rcases h with rfl | rfl
  · refine ⟨.unknown, ?_, .inl rfl⟩
    cases op <;> rfl
  · exact ⟨u, hu, .refl u⟩

theorem Below.toBool? {v v' : Value} (h : Below v' v) :
    v'.toBool? = none ∨ v'.toBool? = v.toBool? := by
  rcases h with rfl | rfl
  · exact .inl rfl
  · exact .inr rfl

end Value

/-- Both the value so far and the operand a chain shares tell nothing or the same. -/
structure Ascent.Below (a b : Ascent) : Prop where
  result : a.result.Below b.result
  middle : a.middle.Below b.middle

theorem Ascent.Below.apply {below below' : Ascent} {right right' : Value}
    (hb : below'.Below below) (hr : right'.Below right) (op : BinaryOp) (continues : Bool) :
    (Link.apply below' ⟨op, continues, right'⟩).Below
      (Link.apply below ⟨op, continues, right⟩) := by
  rcases Link.apply_cases op continues with ⟨c, -, -, happly⟩ | happly
  · rw [happly, happly]
    exact ⟨hb.result.chain c hb.middle hr, hr⟩
  · rw [happly, happly]
    exact ⟨hb.result.binary op hr, hr⟩

namespace Expr

/-- `e'` evaluates to what `e` does as far as it is known. A hidden binary operator no
longer passes on an operand to a chain above it; but then its own value is unknown. -/
def LessKnown (e' e : Expr) : Prop :=
  ∃ a' a, e'.ascend = .ok a' ∧ e.ascend = .ok a ∧
    (e'.isBinary = e.isBinary ∧ a'.Below a ∨ e'.isBinary = false ∧ a'.result = .unknown)

theorem LessKnown.result {e' e : Expr} (h : LessKnown e' e) :
    ∃ a' a, e'.ascend = .ok a' ∧ e.ascend = .ok a ∧ a'.result.Below a.result := by
  obtain ⟨a', a, ha', ha, ⟨-, hb⟩ | ⟨-, hu⟩⟩ := h
  · exact ⟨a', a, ha', ha, hb.result⟩
  · exact ⟨a', a, ha', ha, .inl hu⟩

theorem LessKnown.refl (e : Expr) : LessKnown e e := by
  obtain ⟨a, ha, -⟩ := e.exists_ascend
  exact ⟨a, a, ha, ha, .inl ⟨rfl, .refl _, .refl _⟩⟩

theorem lessKnown_foreign (kind : String) (e : Expr) : LessKnown (.foreign kind) e := by
  obtain ⟨a, ha, -⟩ := e.exists_ascend
  exact ⟨_, a, rfl, ha, .inr ⟨rfl, rfl⟩⟩

theorem LessKnown.paren {e' e : Expr} (h : LessKnown e' e) : LessKnown (.paren e') (.paren e) := by
  obtain ⟨a', a, ha', ha, hb⟩ := h.result
  exact ⟨_, _, ascend_paren ha', ascend_paren ha, .inl ⟨rfl, hb, hb⟩⟩

theorem LessKnown.unary {e' e : Expr} (h : LessKnown e' e) (op : UnaryOp) :
    LessKnown (.unary op e') (.unary op e) := by
  obtain ⟨a', a, ha', ha, hb⟩ := h.result
  obtain ⟨u, hu, -⟩ := (proper_of_ascend ha).unary op
  obtain ⟨u', hu', hub⟩ := hb.unary op hu
  exact ⟨_, _, ascend_unary ha' hu', ascend_unary ha hu, .inl ⟨rfl, hub, hub⟩⟩

theorem LessKnown.binary {l' l r' r : Expr} (hl : LessKnown l' l) (hr : LessKnown r' r)
    (op : BinaryOp) (chained : Bool) :
    LessKnown (.binary op l' r' chained) (.binary op l r chained) := by
  obtain ⟨right', right, hr', hr, hright⟩ := hr.result
  obtain ⟨below', below, hl', hl, hbelow⟩ := hl
  refine ⟨_, _, ascend_binary hl' hr', ascend_binary hl hr, .inl ⟨rfl, ?_⟩⟩
  rcases hbelow with ⟨hsame, hbelow⟩ | ⟨hhidden, hunknown⟩
  · rw [hsame]
    exact hbelow.apply hright op _
  · -- the link above is no longer part of a chain
    rw [hhidden, Bool.and_false, Link.apply_plain, hunknown, Value.binary_unknown_left]
    exact ⟨.inl rfl, hright⟩

/-- The expression with parts made foreign. For every place `hidden` says whether the
part there is hidden, and as what. -/
def hide (hidden : Place → Option String) (p : Place) (e : Expr) : Expr :=
  match hidden p with
  | some kind => .foreign kind
  | none =>
    match e with
    | .paren inner => .paren (inner.hide hidden (0 :: p))
    | .unary op operand => .unary op (operand.hide hidden (0 :: p))
    | .binary op l r chained =>
      .binary op (l.hide hidden (0 :: p)) (r.hide hidden (1 :: p)) chained
    | e => e

theorem lessKnown_hide (hidden : Place → Option String) (p : Place) (e : Expr) :
    LessKnown (e.hide hidden p) e := by
  fun_induction hide hidden p e with
  | case1 e p kind _ => exact lessKnown_foreign kind e
  | case2 p _ inner ih => exact ih.paren
  | case3 p _ op operand ih => exact ih.unary op
  | case4 p _ op l r chained ihl ihr => exact ihl.binary ihr op chained
  | case5 => exact .refl _

/-- Whatever parts of an expression are hidden, its value becomes unknown or stays what
it is, and so does its truth. -/
theorem evaluate_hide (hidden : Place → Option String) (e : Expr) :
    (∃ v' v, (e.hide hidden []).evaluate = .ok v' ∧ e.evaluate = .ok v ∧
      (v' = .unknown ∨ v' = v)) ∧
    ∃ b' b, (e.hide hidden []).verdict? = .ok b' ∧ e.verdict? = .ok b ∧
      (b' = none ∨ b' = b) := by
  obtain ⟨a', a, ha', ha, hb⟩ := (lessKnown_hide hidden [] e).result
  have hv' := evaluate_of_ascend ha'
  have hv := evaluate_of_ascend ha
  refine ⟨⟨_, _, hv', hv, hb⟩, _, _, ?_, ?_, hb.toBool?⟩
  · rw [verdict?, hv']
    rfl
  · rw [verdict?, hv]
    rfl

-- `False and x`: only the left operand matters
example :
    let e := binary (.logical .and) (.bool false) (.name "x") false
    (e.hide (fun p => if p = [1] then some "call" else none) []).evaluate = .ok (.bool false) ∧
    (e.hide (fun p => if p = [0] then some "call" else none) []).evaluate = .ok .unknown := by
  decide +kernel

end Expr
end Foregone
