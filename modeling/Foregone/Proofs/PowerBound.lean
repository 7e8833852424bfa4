import Foregone.Expr.Evaluate
import Foregone.Proofs.ExactArithmetic

/-! # Powers stay small

Before a power is computed its width is estimated from below, by the highest bit of the
base. A power that is let through can be wider than a word, but it stays below `2 ^ 126`:
the base has one bit more than the estimate counts, and the exponent is no larger than the
estimate. So no evaluation asks for a larger power. It comes to the same however larger
powers are computed, and also if that never succeeds. -/

namespace Foregone

/-! ## The estimate -/

/-- With one more bit for the base, the estimate is an upper one. -/
theorem pow_lt_two_pow_log2_succ (n : Nat) {e : Nat} (he : e ≠ 0) :
    n ^ e < 2 ^ ((n.log2 + 1) * e) := by
  rw [Nat.pow_mul]
  exact Nat.pow_lt_pow_left Nat.lt_log2_self he

/-- A power that the estimate lets through. -/
theorem pow_lt_of_estimate {n e : Nat} (hn : 1 < n) (h : n.log2 * e < Word.bits) :
    n ^ e < 2 ^ 126 := by
  have hlog : 1 ≤ n.log2 := (Nat.le_log2 (by omega)).mpr hn
  have hexponent : e ≤ n.log2 * e := Nat.le_mul_of_pos_left e hlog
  have hestimate : n.log2 * e ≤ 63 := Nat.le_of_lt_succ h
  rcases Nat.eq_zero_or_pos e with rfl | he
  · norm_num
  · calc n ^ e < 2 ^ ((n.log2 + 1) * e) := pow_lt_two_pow_log2_succ n he.ne'
      _ ≤ 2 ^ 126 := Nat.pow_le_pow_right (by decide) (by rw [Nat.add_mul]; omega)

/-- A power that is computed. The bases `-1`, `0` and `1` have no estimate, but all their
powers lie among themselves. -/
theorem abs_pow_lt {base : Int} {e : Nat}
    (h : ¬ (1 < base.natAbs ∧ Word.bits ≤ base.natAbs.log2 * e)) : |base ^ e| < 2 ^ 126 := by
  by_cases hbase : 1 < base.natAbs
  · have hlt : base.natAbs ^ e < 2 ^ 126 :=
      pow_lt_of_estimate hbase (not_le.mp fun hbits => h ⟨hbase, hbits⟩)
    rw [Int.abs_eq_natAbs, Int.natAbs_pow]
    exact_mod_cast hlt
  · have hone : |base| ≤ 1 := by
      rw [Int.abs_eq_natAbs]
      omega
    calc |base ^ e| = |base| ^ e := abs_pow base e
      _ ≤ 1 := pow_le_one₀ (abs_nonneg base) hone
      _ < 2 ^ 126 := by norm_num

/-! ## Evaluation with the computation of powers left open -/

/-- A way to compute powers, which may fail. -/
abbrev PowerMethod := Int → Nat → Except Interval.Fault Int

namespace PowerMethod

/-- Powers below `2 ^ 126` in size are computed exactly. Nothing is said of larger ones. -/
def ComputesSmall (compute : PowerMethod) : Prop :=
  ∀ base exponent, |base ^ exponent| < 2 ^ 126 → compute base exponent = .ok (base ^ exponent)

/-- All powers are computed, however large. -/
def exact : PowerMethod := fun base exponent => .ok (base ^ exponent)

theorem computesSmall_exact : exact.ComputesSmall := fun _ _ _ => rfl

end PowerMethod

variable {compute : PowerMethod}

namespace Value

theorem powerBy_eq (hc : compute.ComputesSmall) (base exponent : Int) :
    powerBy compute base exponent = .ok (power base exponent) := by
  rw [power_eq_ite, powerBy]
  split
  · rfl
  · split
    · rfl
    · rename_i hestimate
      rw [hc _ _ (abs_pow_lt hestimate), powerOf_eq]
      rfl

/-- Only a power that is not refused can fail. -/
theorem abs_pow_lt_of_powerBy_error {base exponent : Int} {f : Interval.Fault}
    (h : powerBy compute base exponent = .error f) : |base ^ exponent.toNat| < 2 ^ 126 := by
  rw [powerBy] at h
  split at h
  · cases h
  · split at h
    · cases h
    · rename_i hestimate
      exact abs_pow_lt hestimate

/-- `binary`, where only powers of integers are computed by the given method. -/
def binaryBy (compute : PowerMethod) (op : BinaryOp) (left right : Value) :
    Except Interval.Fault Value :=
  match op, left.toInt?, right.toInt? with
  | .arith .pow, some a, some b => powerBy compute a b
  | op, _, _ => .ok (binary op left right)

theorem binaryBy_eq (hc : compute.ComputesSmall) (op : BinaryOp) (l r : Value) :
    binaryBy compute op l r = .ok (binary op l r) := by
  unfold binaryBy
  split
  · rename_i a b hl hr
    rw [powerBy_eq hc, binary, arith, hl, hr]
  · rfl

end Value

namespace Link

def applyBy (compute : PowerMethod) (below : Ascent) (link : Link) :
    Except Interval.Fault Ascent := do
  let result ← match link.op, link.continues with
    | .compare c, true => .ok (below.result.chain below.middle c link.right)
    | op, _ => Value.binaryBy compute op below.result link.right
  return ⟨result, link.right⟩

theorem applyBy_eq (hc : compute.ComputesSmall) (below : Ascent) (link : Link) :
    applyBy compute below link = .ok (apply below link) := by
  obtain ⟨op, continues, right⟩ := link
  have plain := congrArg (Except.map fun v => (⟨v, right⟩ : Ascent))
    (Value.binaryBy_eq hc op below.result right)
  cases op with
  | compare c =>
    cases continues with
    | true => rfl
    | false => exact plain
  | logical c => exact plain
  | arith a => exact plain
  | unsupported s => exact plain

def applyAllBy (compute : PowerMethod) (start : Value) (links : List Link) :
    Except Interval.Fault Value :=
  (links.foldlM (applyBy compute) ⟨start, start⟩).map Ascent.result

theorem applyAllBy_eq (hc : compute.ComputesSmall) (start : Value) (links : List Link) :
    applyAllBy compute start links = .ok (applyAll start links) := by
  have hstep : applyBy compute = fun below link => pure (apply below link) :=
    funext₂ (applyBy_eq hc)
  rw [applyAllBy, hstep, List.foldlM_pure]
  rfl

end Link

namespace Expr

/-- The evaluation of an expression under links, where powers are computed by the given
method. -/
def evaluateUnderBy (compute : PowerMethod) : Expr → List Link → Except Interval.Fault Value
  | .num v isInteger, links => Link.applyAllBy compute (literalValue v isInteger) links
  | .bool b, links => Link.applyAllBy compute (.bool b) links
  | .name x, links => Link.applyAllBy compute (.var x) links
  | .foreign _, links => Link.applyAllBy compute .unknown links
  | .paren e, links => do Link.applyAllBy compute (← e.evaluateUnderBy compute []) links
  | .unary op e, links => do
    Link.applyAllBy compute (← Value.unary op (← e.evaluateUnderBy compute [])) links
  | .binary op l r chained, links => do
    let right ← r.evaluateUnderBy compute []
    l.evaluateUnderBy compute (⟨op, chained && l.isBinary, right⟩ :: links)

def evaluateBy (compute : PowerMethod) (e : Expr) : Except Interval.Fault Value :=
  e.evaluateUnderBy compute []

theorem evaluateUnderBy_eq (hc : compute.ComputesSmall) (e : Expr) (links : List Link) :
    e.evaluateUnderBy compute links = e.evaluateUnder links := by
  induction e generalizing links with
  | num v isInteger => exact Link.applyAllBy_eq hc _ links
  | bool b => exact Link.applyAllBy_eq hc _ links
  | name x => exact Link.applyAllBy_eq hc _ links
  | foreign kind => exact Link.applyAllBy_eq hc _ links
  | paren e ih =>
    simp only [evaluateUnderBy, evaluateUnder, ih, Link.applyAllBy_eq hc]
    rfl
  | unary op e ih =>
    simp only [evaluateUnderBy, evaluateUnder, ih, Link.applyAllBy_eq hc]
    rfl
  | binary op l r chained ihl ihr => simp only [evaluateUnderBy, evaluateUnder, ihl, ihr]

/-- A power that is not refused, of any base and exponent, lies below `2 ^ 126` in size; so a
method that fails, on whatever powers, is noticed on such powers only. Evaluation computes
powers exactly, but never asks for a larger one: by every method that computes the powers
below that bound, whatever it does on larger ones, an expression has the same value. -/
theorem powers_bounded :
    (∀ base exponent : Int, 0 ≤ exponent →
      ¬ (1 < base.natAbs ∧ Word.bits ≤ base.natAbs.log2 * exponent.toNat) →
      Value.power base exponent = .checked (base ^ exponent.toNat) ∧
        |base ^ exponent.toNat| < 2 ^ 126) ∧
    (∀ (compute : PowerMethod) (base exponent : Int) (f : Interval.Fault),
      Value.powerBy compute base exponent = .error f → |base ^ exponent.toNat| < 2 ^ 126) ∧
    (∀ e : Expr, e.evaluate = e.evaluateBy .exact) ∧
    ∀ compute : PowerMethod, compute.ComputesSmall →
      ∀ e : Expr, e.evaluateBy compute = e.evaluate := by
  refine ⟨?_, fun _ _ _ _ => Value.abs_pow_lt_of_powerBy_error, fun e => ?_, ?_⟩
  · intro base exponent hexponent hestimate
    refine ⟨?_, abs_pow_lt hestimate⟩
    rw [Value.power_eq_ite, if_neg (not_lt.mpr hexponent), if_neg hestimate, Value.powerOf_eq]
  · exact (evaluateUnderBy_eq PowerMethod.computesSmall_exact e []).symm
  · intro compute hc e
    exact evaluateUnderBy_eq hc e []

/-- `3 ** 63` is let through though it is wider than a word. A method that refuses all
powers from `2 ^ 126` on gives the value of a condition with it. -/
theorem powers_bounded_wider_than_word :
    let below : PowerMethod := fun base exponent =>
      if |base ^ exponent| < 2 ^ 126 then .ok (base ^ exponent) else .error .pastEnd
    let e : Expr := .binary (.compare .lt)
      (.binary (.arith .pow) (.num (some 3) true) (.num (some 63) true) false) (.name "x") false
    (Value.power 3 63 = .checked (3 ^ 63) ∧ Word.fits (3 ^ 63) = false ∧
      |(3 : Int) ^ 63| < 2 ^ 126) ∧
      below.ComputesSmall ∧ e.evaluateBy below = .ok .unknown := by
  intro below e
  have hbelow : below.ComputesSmall := fun base exponent h => if_pos h
  have hlet : ¬ (1 < (3 : Int).natAbs ∧ Word.bits ≤ (3 : Int).natAbs.log2 * Int.toNat 63) := by
    decide
  obtain ⟨hpower, -, -, hrun⟩ := powers_bounded
  obtain ⟨hchecked, hlt⟩ := hpower 3 63 (by decide) hlet
  refine ⟨⟨hchecked, by decide, hlt⟩, hbelow, ?_⟩
  rw [hrun below hbelow e]
  decide +kernel

end Expr
end Foregone
