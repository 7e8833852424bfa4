import Foregone.Proofs.Renaming

/-! # Laws of comparisons

A comparison can be read from its right operand, and its negation is the comparison by the
opposite operator. The second law joins three ways to the same answer: two integers are
compared at once, a variable is given the set of an operator, and a negated condition the
gaps of that set. They agree because the set of an operator holds exactly the positions
that the linear order puts so against the integer. -/

namespace Foregone

namespace Comparison

/-- `p c q` in the order of positions. -/
def Orders (c : Comparison) (p q : Bound) : Prop :=
  match c with
  | .eq => p = q
  | .ne => p ≠ q
  | .lt => p < q
  | .gt => q < p
  | .le => p ≤ q
  | .ge => q ≤ p

theorem orders_negated (c : Comparison) (p q : Bound) :
    c.negated.Orders p q ↔ ¬ c.Orders p q := by
  cases c <;> simp [negated, Orders]

theorem swapped_swapped (c : Comparison) : c.swapped.swapped = c := by
  cases c <;> rfl

theorem negated_swapped (c : Comparison) : c.swapped.negated = c.negated.swapped := by
  cases c <;> rfl

end Comparison

/-! ## Sets of comparisons -/

namespace IntervalList

/-- The set of a comparison holds the positions that compare so with the integer. -/
theorem mem_points_ofComparison (c : Comparison) (v : Int) (p : Bound) :
    p ∈ points (ofComparison c v) ↔ c.Orders p (.finite v .exact) := by
  have hbelow : p ≤ .finite v .below ↔ p < .finite v .exact := Bound.le_prev_iff rfl p
  have habove : .finite v .above ≤ p ↔ .finite v .exact < p := Bound.next_le_iff rfl p
  have hleft : .negInf ≤ p := Bound.negInf_le p
  have hright : p ≤ .posInf := Bound.le_posInf p
  cases c with
  | eq => simp [ofComparison, Interval.point, Comparison.Orders, le_antisymm_iff, and_comm]
  | ne =>
    simp [ofComparison, Interval.lessThan, Interval.greaterThan, Comparison.Orders, hleft, hright,
      hbelow, habove, lt_or_lt_iff_ne]
  | lt => simp [ofComparison, Interval.lessThan, Comparison.Orders, hleft, hbelow]
  | gt => simp [ofComparison, Interval.greaterThan, Comparison.Orders, hright, habove]
  | le => simp [ofComparison, Interval.atMost, Comparison.Orders, hleft]
  | ge => simp [ofComparison, Interval.atLeast, Comparison.Orders, hright]

/-- The gaps of the set of a comparison are the set of the opposite one. -/
theorem complement_ofComparison (c : Comparison) (v : Int) :
    complement (ofComparison c v) = .ok (ofComparison c.negated v) := by
  have hset (d : Comparison) : (ofComparison d v).Pairwise Interval.Apart :=
    isCanonical_iff.mp (isCanonical_ofComparison d v)
  obtain ⟨a, hok, hpair, hpoints⟩ := exists_complement (hset c)
  have hgaps : a = ofComparison c.negated v := by
    refine eq_of_points_eq hpair (hset c.negated) (Set.ext fun p => ?_)
    rw [hpoints, Set.mem_compl_iff, mem_points_ofComparison, mem_points_ofComparison,
      Comparison.orders_negated]
  rw [hok, hgaps]

end IntervalList

/-! ## Values -/

namespace Value

/-- What a comparison comes to is settled by the operands: two integers, a variable on the
left or on the right of an integer, or anything else. -/
theorem compare_cases (l r : Value) :
    (∃ a b, ∀ c, l.compare c r = .bool (c.holds a b)) ∨
    (∃ x v, ∀ c, l.compare c r = .ranges (.single x (.ofComparison c v))) ∨
    (∃ x v, ∀ c, l.compare c r = .ranges (.single x (.ofComparison c.swapped v))) ∨
    ∀ c, l.compare c r = .unknown := by
  cases hl : l.toInt? with
  | some a =>
    cases hr : r.toInt? with
    | some b => exact .inl ⟨a, b, fun c => by simp only [compare, hl, hr]⟩
    | none =>
      cases r with
      | var x => exact .inr (.inr (.inl ⟨x, a, fun c => by simp only [compare, hl, hr]⟩))
      | _ => exact .inr (.inr (.inr fun c => by simp only [compare, hl, hr]))
  | none =>
    cases hr : r.toInt? with
    | some b =>
      cases l with
      | var x => exact .inr (.inl ⟨x, b, fun c => by simp only [compare, hl, hr]⟩)
      | _ => exact .inr (.inr (.inr fun c => by simp only [compare, hl, hr]))
    | none => exact .inr (.inr (.inr fun c => by simp only [compare, hl, hr]))

/-- A comparison read from its right operand. -/
theorem compare_swapped (l : Value) (c : Comparison) (r : Value) :
    r.compare c.swapped l = l.compare c r := by
  cases hl : l.toInt? with
  | some a =>
    cases hr : r.toInt? with
    | some b => simp only [compare, hl, hr, Comparison.holds_swapped]
    | none => simp only [compare, hl, hr]
  | none =>
    cases hr : r.toInt? with
    | some b => simp only [compare, hl, hr, Comparison.swapped_swapped]
    | none => simp only [compare, hl, hr]

/-- A condition on one variable is negated by the gaps of its set. -/
theorem not_single_ofComparison (x : String) (c : Comparison) (v : Int) :
    (ranges (.single x (.ofComparison c v))).not =
      .ok (.ranges (.single x (.ofComparison c.negated v))) := by
  have hopen : (ranges (.single x (.ofComparison c v))).toBool? = none :=
    (Constraints.proper_ofComparison x c v).collapse
  have hnegate := Constraints.negate_single (x := x) (IntervalList.complement_ofComparison c v)
  simp only [Value.not, hopen, hnegate]
  rfl

/-- Any two values compare alike from either side, with the operator turned round, and the
negation of a comparison is the comparison by the opposite operator. -/
theorem compare_turned_negated (l r : Value) (c : Comparison) :
    l.compare c r = r.compare c.swapped l ∧
      (l.compare c r).not = .ok (l.compare c.negated r) := by
  refine ⟨(compare_swapped l c r).symm, ?_⟩
  rcases compare_cases l r with ⟨a, b, h⟩ | ⟨x, v, h⟩ | ⟨x, v, h⟩ | h
  · rw [h, h, c.holds_negated]
    rfl
  · rw [h, h]
    exact not_single_ofComparison x c v
  · rw [h, h, ← c.negated_swapped]
    exact not_single_ofComparison x c.swapped v
  · rw [h, h]
    rfl

end Value
end Foregone
