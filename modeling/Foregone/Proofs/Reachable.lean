import Mathlib.Algebra.Ring.Int.Defs
import Foregone.Proofs.Proper
import Foregone.Value.Fold

/-! # The values an evaluation can meet

Starting from literals and variables, every operation gives integers that are words
and conditions that are proper. So the truth of a value that is met is known only
where the value is an integer or a truth value. -/

namespace Foregone

theorem Word.fits_iff {n : Int} : Word.fits n = true ↔ -2 ^ 63 ≤ n ∧ n < 2 ^ 63 := by
  have hh : (Word.half : Int) = 2 ^ 63 := by decide
  simp only [Word.fits, hh, Bool.and_eq_true, decide_eq_true_eq]
  omega

theorem IntervalList.isCanonical_ofComparison (c : Comparison) (v : Int) :
    (ofComparison c v).isCanonical = true := by
  cases c with
  | ne =>
    have hlt : Bound.finite v .below < Bound.finite v .above :=
      Bound.finite_lt.mpr (.inr ⟨rfl, by decide⟩)
    simp [ofComparison, isCanonical, Interval.lessThan, Interval.greaterThan, Bound.touches, hlt]
  | _ => rfl

theorem Constraints.proper_ofComparison (x : String) (c : Comparison) (v : Int) :
    (single x (.ofComparison c v)).Proper := by
  refine proper_single_iff.mpr ⟨IntervalList.isCanonical_ofComparison c v, ?_, ?_⟩
  · cases c <;> exact List.cons_ne_nil _ _
  · intro he
    cases c <;> cases he

namespace Value

/-- The values an evaluation can meet. -/
def Proper : Value → Prop
  | .int n => Word.fits n = true
  | .ranges c => c.Proper
  | _ => True

theorem Proper.toBool?_ranges {c : Constraints} (h : Proper (.ranges c)) :
    toBool? (.ranges c) = none := Constraints.Proper.collapse h

theorem Proper.fits {v : Value} {n : Int} (h : v.Proper) (hn : v.toInt? = some n) :
    Word.fits n = true := by
  cases v with
  | int m =>
    cases hn
    exact h
  | bool b =>
    cases hn
    cases b <;> decide
  | unknown => cases hn
  | var x => cases hn
  | ranges c => cases hn

theorem proper_checked (n : Int) : (checked n).Proper := by
  unfold checked
  split
  · assumption
  · trivial

theorem Proper.settled {v : Value} (h : v.Proper) (b : Bool) : (v.settled b).Proper := by
  cases v with
  | int n => exact h
  | bool _ => trivial
  | unknown => trivial
  | var _ => trivial
  | ranges _ => trivial

theorem Proper.connect {l r : Value} (c : Connective) (hl : l.Proper) (hr : r.Proper) :
    (connect c l r).Proper := by
  unfold Value.connect
  split
  · rename_i b hb
    split
    · exact hl.settled b
    · exact hr
  · split
    · split
      · rename_i joined hj
        exact Constraints.Proper.join? hl hr hj
      · trivial
    · trivial

theorem Proper.not {v : Value} (h : v.Proper) : ∃ u, v.not = .ok u ∧ u.Proper := by
  unfold Value.not
  split
  · exact ⟨_, rfl, trivial⟩
  · split
    · rename_i c _
      rcases Constraints.Proper.negate_cases h with ⟨x, a, a', -, -, hn, hp⟩ | ⟨-, hn⟩
      · exact ⟨.ranges _, by rw [hn]; rfl, hp⟩
      · exact ⟨.ranges _, by rw [hn]; rfl, h⟩
    · exact ⟨_, rfl, trivial⟩

theorem proper_compare (l : Value) (c : Comparison) (r : Value) : (l.compare c r).Proper := by
  unfold compare
  split
  · trivial
  · split
    · exact Constraints.proper_ofComparison _ _ _
    · trivial
  · split
    · exact Constraints.proper_ofComparison _ _ _
    · trivial
  · trivial

theorem Proper.chain {l : Value} (hl : l.Proper) (m : Value) (c : Comparison) (r : Value) :
    (l.chain m c r).Proper := by
  unfold Value.chain
  split
  · split
    · split
      · exact hl.connect .and (proper_compare _ _ _)
      · trivial
    · trivial
  · exact hl.connect .and (proper_compare _ _ _)

theorem proper_power (base exponent : Int) : (power base exponent).Proper := by
  rw [power_eq_ite]
  split
  · trivial
  · split
    · trivial
    · exact proper_checked _

theorem proper_arith (l : Value) (op : Arithmetic) (r : Value) : (l.arith op r).Proper := by
  unfold arith
  split
  · cases op with
    | add => exact proper_checked _
    | sub => exact proper_checked _
    | mul => exact proper_checked _
    | pow => exact proper_power _ _
    | div | floorDiv | mod =>
      dsimp only
      split
      · trivial
      · exact proper_checked _
  · trivial

theorem proper_arithSymbol (l : Value) (symbol : String) (r : Value) :
    (l.arithSymbol symbol r).Proper := by
  unfold arithSymbol
  split
  · exact proper_arith _ _ _
  · trivial

theorem Proper.unary {v : Value} (h : v.Proper) (op : UnaryOp) :
    ∃ u, Value.unary op v = .ok u ∧ u.Proper := by
  cases op with
  | not => exact h.not
  | plus =>
    refine ⟨_, rfl, ?_⟩
    split
    · rename_i n hn
      exact h.fits hn
    · trivial
  | minus =>
    refine ⟨_, rfl, ?_⟩
    split
    · exact proper_checked _
    · trivial
  | unsupported s => exact ⟨_, rfl, trivial⟩

theorem Proper.binary {l r : Value} (hl : l.Proper) (hr : r.Proper) (op : BinaryOp) :
    (Value.binary op l r).Proper := by
  cases op with
  | logical c => exact hl.connect c hr
  | compare c => exact proper_compare l c r
  | arith a => exact proper_arith l a r
  | unsupported s => trivial

/-- What can be computed from words, truth values and variables, by any operations in
any order. -/
inductive Reachable : Value → Prop
  | unknown : Reachable .unknown
  | bool (b : Bool) : Reachable (.bool b)
  | var (x : String) : Reachable (.var x)
  | int {n : Int} : -2 ^ 63 ≤ n → n < 2 ^ 63 → Reachable (.int n)
  | and {l r : Value} : Reachable l → Reachable r → Reachable (l.and r)
  | or {l r : Value} : Reachable l → Reachable r → Reachable (l.or r)
  | not {v u : Value} : Reachable v → v.not = .ok u → Reachable u
  | compare {l r : Value} (c : Comparison) :
      Reachable l → Reachable r → Reachable (l.compare c r)
  | chain {l m r : Value} (c : Comparison) :
      Reachable l → Reachable m → Reachable r → Reachable (l.chain m c r)
  | arith {l r : Value} (symbol : String) :
      Reachable l → Reachable r → Reachable (l.arithSymbol symbol r)
  | unary {v u : Value} (op : UnaryOp) : Reachable v → Value.unary op v = .ok u → Reachable u
  | binary {l r : Value} (op : BinaryOp) :
      Reachable l → Reachable r → Reachable (Value.binary op l r)

theorem Reachable.proper {v : Value} (h : Reachable v) : v.Proper := by
  induction h with
  | unknown => trivial
  | bool b => trivial
  | var x => trivial
  | int hl hh => exact Word.fits_iff.mpr ⟨hl, hh⟩
  | and _ _ ihl ihr => exact ihl.connect .and ihr
  | or _ _ ihl ihr => exact ihl.connect .or ihr
  | not _ hu ih =>
    obtain ⟨u, hok, hp⟩ := ih.not
    cases hok.symm.trans hu
    exact hp
  | compare c _ _ _ _ => exact proper_compare _ c _
  | chain c _ _ _ ihl _ _ => exact ihl.chain _ c _
  | arith symbol _ _ _ _ => exact proper_arithSymbol _ symbol _
  | unary op _ hu ih =>
    obtain ⟨u, hok, hp⟩ := ih.unary op
    cases hok.symm.trans hu
    exact hp
  | binary op _ _ ihl ihr => exact ihl.binary ihr op

/-- Every reachable integer is a word, every reachable condition is proper, and hence
none of them is settled by its sets: truth is known of integers and truth values only. -/
theorem reachable_invariant {v : Value} (h : Reachable v) :
    (∀ n, v = .int n → -2 ^ 63 ≤ n ∧ n < 2 ^ 63) ∧
    (∀ c, v = .ranges c → c.Proper ∧ c.collapse = none) ∧
    ∀ b, v.toBool? = some b → (∃ n, v = .int n) ∨ ∃ b', v = .bool b' := by
  have hp := h.proper
  refine ⟨?_, ?_, fun b hb => ?_⟩
  · rintro n rfl
    exact Word.fits_iff.mp hp
  · rintro c rfl
    exact ⟨hp, Constraints.Proper.collapse hp⟩
  · cases v with
    | int n => exact .inl ⟨n, rfl⟩
    | bool b' => exact .inr ⟨b', rfl⟩
    | unknown => cases hb
    | var x => cases hb
    | ranges c => cases hb.symm.trans hp.toBool?_ranges

/-- Two variables, joined: both are tainted, and nothing is settled. -/
theorem reachable_invariant_two_variables :
    let v := (compare (.var "x") .lt (.int 3)).and (compare (.var "y") .gt (.int 5))
    Reachable v ∧ (∀ c, v = .ranges c → c.Proper ∧ c.collapse = none) ∧
      v = .ranges ⟨[("x", .ofComparison .lt 3), ("y", .ofComparison .gt 5)], ["x", "y"]⟩ := by
  intro v
  have hx : Reachable (compare (.var "x") .lt (.int 3)) :=
    .compare .lt (.var "x") (.int (by decide) (by decide))
  have hy : Reachable (compare (.var "y") .gt (.int 5)) :=
    .compare .gt (.var "y") (.int (by decide) (by decide))
  exact ⟨.and hx hy, (reachable_invariant (.and hx hy)).2.1, by decide +kernel⟩

end Value
end Foregone
