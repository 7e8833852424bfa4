import Foregone.Expr.Evaluate
import Foregone.Proofs.Reachable

/-! # Evaluation by plain recursion

The walk down the left operands and back up comes to the same as a recursion that
yields, for every expression, its value together with the operand a chained comparison
above it would share. On this form facts about evaluation are proved by induction on
the expression. The first of them: evaluation always succeeds, with a proper value. -/

namespace Foregone.Expr

/-- The value of an expression and the operand a link above it shares with it: the
right operand of a binary operator, and otherwise the value itself. -/
def ascend : Expr → Except Interval.Fault Ascent
  | .num v isInteger => .ok ⟨literalValue v isInteger, literalValue v isInteger⟩
  | .bool b => .ok ⟨.bool b, .bool b⟩
  | .name x => .ok ⟨.var x, .var x⟩
  | .foreign _ => .ok ⟨.unknown, .unknown⟩
  | .paren e => do
    let a ← e.ascend
    return ⟨a.result, a.result⟩
  | .unary op e => do
    let a ← e.ascend
    let v ← Value.unary op a.result
    return ⟨v, v⟩
  | .binary op l r chained => do
    let right ← r.ascend
    let below ← l.ascend
    return Link.apply below ⟨op, chained && l.isBinary, right.result⟩

/-- The links that wait above an expression are applied to what its recursion yields. -/
theorem evaluateUnder_eq (e : Expr) (links : List Link) :
    e.evaluateUnder links = e.ascend.map fun a => (links.foldl Link.apply a).result := by
  induction e generalizing links with
  | num v isInteger => rfl
  | bool b => rfl
  | name x => rfl
  | foreign kind => rfl
  | paren e ih =>
    simp only [evaluateUnder, ascend, ih []]
    cases e.ascend with
    | error f => rfl
    | ok a => rfl
  | unary op e ih =>
    simp only [evaluateUnder, ascend, ih []]
    cases e.ascend with
    | error f => rfl
    | ok a =>
      simp only [Except.map, List.foldl_nil, bind, Except.bind]
      cases Value.unary op a.result with
      | error f => rfl
      | ok v => rfl
  | binary op l r chained ihl ihr =>
    simp only [evaluateUnder, ascend, ihr []]
    cases r.ascend with
    | error f => rfl
    | ok right =>
      simp only [Except.map, List.foldl_nil, bind, Except.bind, ihl]
      cases l.ascend with
      | error f => rfl
      | ok below => rfl

theorem evaluate_eq (e : Expr) : e.evaluate = e.ascend.map Ascent.result :=
  evaluateUnder_eq e []

theorem ascend_paren {e : Expr} {a : Ascent} (h : e.ascend = .ok a) :
    (paren e).ascend = .ok ⟨a.result, a.result⟩ := by
  simp only [ascend, h]
  rfl

theorem ascend_unary {op : UnaryOp} {e : Expr} {a : Ascent} {v : Value}
    (h : e.ascend = .ok a) (hv : Value.unary op a.result = .ok v) :
    (unary op e).ascend = .ok ⟨v, v⟩ := by
  simp only [ascend, h, bind, Except.bind, hv]
  rfl

theorem ascend_binary {op : BinaryOp} {l r : Expr} {chained : Bool} {below right : Ascent}
    (hl : l.ascend = .ok below) (hr : r.ascend = .ok right) :
    (binary op l r chained).ascend =
      .ok (Link.apply below ⟨op, chained && l.isBinary, right.result⟩) := by
  simp only [ascend, hl, hr]
  rfl

theorem proper_apply {below : Ascent} {link : Link} (hb : below.result.Proper)
    (hr : link.right.Proper) : (link.apply below).result.Proper := by
  unfold Link.apply
  dsimp only
  split
  · exact hb.chain _ _ _
  · exact hb.binary hr _

/-- Evaluation succeeds on every expression. -/
theorem exists_ascend (e : Expr) : ∃ a, e.ascend = .ok a ∧ a.result.Proper := by
  induction e with
  | num v isInteger =>
    refine ⟨_, rfl, ?_⟩
    unfold literalValue
    split
    · exact Value.proper_checked _
    · trivial
  | bool b => exact ⟨_, rfl, trivial⟩
  | name x => exact ⟨_, rfl, trivial⟩
  | foreign kind => exact ⟨_, rfl, trivial⟩
  | paren e ih =>
    obtain ⟨a, ha, hp⟩ := ih
    exact ⟨_, ascend_paren ha, hp⟩
  | unary op e ih =>
    obtain ⟨a, ha, hp⟩ := ih
    obtain ⟨v, hv, hvp⟩ := hp.unary op
    exact ⟨_, ascend_unary ha hv, hvp⟩
  | binary op l r chained ihl ihr =>
    obtain ⟨below, hl, hlp⟩ := ihl
    obtain ⟨right, hr, hrp⟩ := ihr
    exact ⟨_, ascend_binary hl hr, proper_apply hlp hrp⟩

theorem proper_of_ascend {e : Expr} {a : Ascent} (h : e.ascend = .ok a) : a.result.Proper := by
  obtain ⟨b, hb, hp⟩ := e.exists_ascend
  cases h.symm.trans hb
  exact hp

end Foregone.Expr
