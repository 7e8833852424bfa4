import Mathlib.Algebra.Ring.Parity
import Foregone.Proofs.Reachable
import Foregone.Proofs.Run

/-! # What a value says about a run

An integer, a truth value or a variable says what the outcome is. A condition on one
untainted variable says that the outcome is a truth value, and that it tells whether
the variable's number lies in the set. All other values say nothing. Each operation
on values is sound: what its result says follows from what its operands say. -/

namespace Foregone

/-! ## Exact arithmetic -/

theorem floor_intCast_div {a b : Int} (hb : b ≠ 0) : ⌊(a : ℚ) / b⌋ = a.fdiv b := by
  rcases lt_or_gt_of_ne hb with hneg | hpos
  · obtain ⟨n, hn⟩ := Int.eq_ofNat_of_zero_le (Int.neg_nonneg.mpr hneg.le)
    have hq : (a : ℚ) / b = ((-a : Int) : ℚ) / (n : ℕ) := by
      have hb' : (n : ℚ) = -(b : ℚ) := by exact_mod_cast hn.symm
      rw [hb']
      push_cast
      rw [neg_div_neg_eq]
    rw [hq, Rat.floor_intCast_div_natCast, ← Int.neg_fdiv_neg a b, hn,
      Int.fdiv_eq_ediv_of_nonneg _ (Int.natCast_nonneg n)]
  · obtain ⟨n, rfl⟩ := Int.eq_ofNat_of_zero_le hpos.le
    rw [Int.cast_natCast, Rat.floor_intCast_div_natCast, Int.fdiv_eq_ediv_of_nonneg _ hpos.le]

theorem intCast_div_of_fmod_eq_zero {a b : Int} (hb : b ≠ 0) (h : a.fmod b = 0) :
    (a : ℚ) / b = (a.fdiv b : Int) := by
  have hmul : a = b * a.fdiv b := by
    have := Int.mul_fdiv_add_fmod a b
    omega
  rw [div_eq_iff (Int.cast_ne_zero.mpr hb), ← Int.cast_mul, Int.mul_comm, ← hmul]

theorem Value.powerOf_eq (base : Int) (exponent : Nat) :
    powerOf base exponent = base ^ exponent := by
  unfold powerOf
  split
  · rename_i h
    have hbase : base = -1 ∨ base = 0 ∨ base = 1 := by omega
    change base ^ (2 + exponent % 2) = base ^ exponent
    rcases hbase with rfl | rfl | rfl
    · rw [pow_add, neg_one_sq, one_mul, ← neg_one_pow_eq_pow_mod_two]
    · rw [zero_pow (by omega), zero_pow (by omega)]
    · rw [one_pow, one_pow]
  · rfl

/-! ## What values say -/

variable {Obj Err : Type} {w : World Obj Err} {p : Place}

theorem World.connect_of_truth {c : Connective} {d : Datum Obj} {b : Bool}
    {ro : Except Err (Datum Obj)} (h : w.truth p d = .ok b) :
    w.connect p c (.ok d) ro = if b = c.verdict then .ok d else ro := by
  simp only [World.connect, bind, Except.bind, h]
  cases c <;> cases b <;> rfl

/-- What a value says about an outcome. -/
def Value.Describes (w : World Obj Err) : Value → Except Err (Datum Obj) → Prop
  | .unknown, _ => True
  | .int n, o => o = .ok (.num n)
  | .bool b, o => o = .ok (.bool b)
  | .var x, o => o = .ok (.num (w.number x))
  | .ranges c, o => ∀ x a, c = .single x a →
      ∃ b, o = .ok (.bool b) ∧ (b = true ↔ a.Holds (w.number x))

namespace Value

theorem describes_single {x : String} {a : IntervalList} {o : Except Err (Datum Obj)} :
    (ranges (.single x a)).Describes w o ↔
      ∃ b, o = .ok (.bool b) ∧ (b = true ↔ a.Holds (w.number x)) := by
  constructor
  · intro h
    exact h x a rfl
  · intro h y b he
    cases he
    exact h

/-- A condition on several variables says nothing. -/
theorem describes_of_two_le {c : Constraints} {o : Except Err (Datum Obj)}
    (h : 2 ≤ c.entries.length) : (ranges c).Describes w o := by
  rintro x a rfl
  exact absurd h (by simp [Constraints.single])

theorem describes_checked {n : Int} {o : Except Err (Datum Obj)} (h : o = .ok (.num n)) :
    (checked n).Describes w o := by
  unfold checked
  split
  · exact h
  · trivial

theorem Describes.number {v : Value} {o : Except Err (Datum Obj)} {n : Int}
    (h : v.Describes w o) (hn : v.toInt? = some n) :
    ∃ d, o = .ok d ∧ d.number? = some (n : ℚ) := by
  cases v with
  | int m =>
    cases hn
    exact ⟨_, h, rfl⟩
  | bool b =>
    cases hn
    refine ⟨_, h, ?_⟩
    cases b <;> simp [Datum.number?]
  | unknown => cases hn
  | var x => cases hn
  | ranges c => cases hn

/-- A known truth is the truth of the outcome. -/
theorem Describes.truth {v : Value} {o : Except Err (Datum Obj)} {b : Bool} (hp : v.Proper)
    (h : v.Describes w o) (hb : v.toBool? = some b) :
    ∃ d, o = .ok d ∧ w.truth p d = .ok b := by
  cases v with
  | int n =>
    cases hb
    refine ⟨_, h, ?_⟩
    simp [World.truth, bne, BEq.beq]
  | bool b' =>
    cases hb
    exact ⟨_, h, rfl⟩
  | unknown => cases hb
  | var x => cases hb
  | ranges c => cases hb.symm.trans hp.toBool?_ranges

/-! ## Comparisons -/

theorem describes_compare {l r : Value} {lo ro : Except Err (Datum Obj)} (c : Comparison)
    (hl : l.Describes w lo) (hr : r.Describes w ro) :
    (l.compare c r).Describes w (do let a ← lo; let b ← ro; w.compare p c a b) := by
  unfold compare
  split
  · rename_i m n hm hn
    obtain ⟨a, rfl, ha⟩ := hl.number hm
    obtain ⟨b, rfl, hb⟩ := hr.number hn
    exact (w.compare_of_numbers ha hb).trans (by rw [Comparison.relates_intCast])
  · rename_i n _ hn
    obtain ⟨b, rfl, hb⟩ := hr.number hn
    split
    · rename_i x _
      cases hl
      refine describes_single.mpr ⟨c.relates (w.number x) n, w.compare_of_numbers rfl hb, ?_⟩
      exact (IntervalList.holds_ofComparison c n _).symm
    · trivial
  · rename_i m hm _
    obtain ⟨a, rfl, ha⟩ := hl.number hm
    split
    · rename_i x _
      cases hr
      refine describes_single.mpr ⟨c.relates m (w.number x), w.compare_of_numbers ha rfl, ?_⟩
      rw [IntervalList.holds_ofComparison, Comparison.relates_swapped]
    · trivial
  · trivial

/-! ## Arithmetic -/

theorem describes_power (m n : Int) :
    (power m n).Describes w (w.calculate p .pow (m : ℚ) (n : ℚ)) := by
  rw [power_eq_ite]
  split
  · trivial
  · rename_i hn
    split
    · trivial
    · refine describes_checked ?_
      have hneg : ¬ ((m : ℚ) = 0 ∧ (n : ℚ) < 0) := fun h => hn (Int.cast_lt_zero.mp h.2)
      obtain ⟨k, rfl⟩ := Int.eq_ofNat_of_zero_le (Int.not_lt.mp hn)
      simp only [World.calculate, Rat.den_intCast, ne_eq, not_true_eq_false, if_false, hneg,
        Rat.num_intCast, powerOf_eq, Int.toNat_natCast]
      simp [zpow_natCast]

theorem describes_calculate (op : Arithmetic) (l r : Value) {m n : Int}
    (hm : l.toInt? = some m) (hn : r.toInt? = some n) :
    (l.arith op r).Describes w (w.calculate p op (m : ℚ) (n : ℚ)) := by
  simp only [arith, hm, hn]
  cases op with
  | add => exact describes_checked (by simp [World.calculate])
  | sub => exact describes_checked (by simp [World.calculate])
  | mul => exact describes_checked (by simp [World.calculate])
  | pow => exact describes_power m n
  | div =>
    dsimp only
    split
    · trivial
    · rename_i h
      rw [not_or, not_not] at h
      refine describes_checked ?_
      simp [World.calculate, h.1, intCast_div_of_fmod_eq_zero h.1 h.2]
  | floorDiv =>
    dsimp only
    split
    · trivial
    · rename_i h
      exact describes_checked (by simp [World.calculate, h, floor_intCast_div h])
  | mod =>
    dsimp only
    split
    · trivial
    · rename_i h
      refine describes_checked ?_
      have hmod : m - n * m.fdiv n = m.fmod n := by
        have := Int.mul_fdiv_add_fmod m n
        omega
      simp only [World.calculate, Int.cast_eq_zero, h, if_false, floor_intCast_div h, ← hmod]
      push_cast
      rfl

theorem describes_arith {l r : Value} {lo ro : Except Err (Datum Obj)} (op : Arithmetic)
    (hl : l.Describes w lo) (hr : r.Describes w ro) :
    (l.arith op r).Describes w (do let a ← lo; let b ← ro; w.arith p op a b) := by
  cases hm : l.toInt? with
  | none =>
    simp only [arith, hm]
    trivial
  | some m =>
    cases hn : r.toInt? with
    | none =>
      simp only [arith, hm, hn]
      trivial
    | some n =>
      obtain ⟨a, rfl, ha⟩ := hl.number hm
      obtain ⟨b, rfl, hb⟩ := hr.number hn
      change (l.arith op r).Describes w (w.arith p op a b)
      rw [w.arith_of_numbers ha hb]
      exact describes_calculate op l r hm hn

/-! ## Connectives and negation -/

/-- Two conditions on one variable: the connective tells whether its number lies in the
combined set. The right operand only matters where the left one does not decide. -/
theorem connect_conditions {c : Connective} {x : String} {a b : IntervalList}
    {lo ro : Except Err (Datum Obj)} (ha : a.isCanonical = true) (hb : b.isCanonical = true)
    (hl : (ranges (.single x a)).Describes w lo)
    (hr : ∀ d, lo = .ok d → w.truth p d = .ok (!c.verdict) →
      (ranges (.single x b)).Describes w ro) :
    (ranges (.single x (c.combine a b))).Describes w (w.connect p c lo ro) := by
  obtain ⟨s, rfl, hs⟩ := describes_single.mp hl
  refine describes_single.mpr ?_
  cases c with
  | and =>
    have hmem := @IntervalList.holds_intersect a b (w.number x) ha hb
    cases s with
    | false => exact ⟨false, rfl, by simp [Connective.combine, hmem, ← hs]⟩
    | true =>
      obtain ⟨t, rfl, ht⟩ := describes_single.mp (hr _ rfl rfl)
      exact ⟨t, rfl, by simp [Connective.combine, hmem, ← hs, ht]⟩
  | or =>
    have hmem := @IntervalList.holds_union a b (w.number x) ha hb
    cases s with
    | true => exact ⟨true, rfl, by simp [Connective.combine, hmem, ← hs]⟩
    | false =>
      obtain ⟨t, rfl, ht⟩ := describes_single.mp (hr _ rfl rfl)
      exact ⟨t, rfl, by simp [Connective.combine, hmem, ← hs, ht]⟩

/-- A condition whose set absorbs has the verdict of the connective. -/
theorem describes_verdict {c : Connective} {x : String} {o : Except Err (Datum Obj)}
    (h : (ranges (.single x c.absorbing)).Describes w o) :
    (Value.bool c.verdict).Describes w o := by
  obtain ⟨b, rfl, hb⟩ := describes_single.mp h
  cases c with
  | and =>
    have hf : b = false := by
      rw [← Bool.not_eq_true, hb]
      exact IntervalList.not_holds_empty _
    rw [hf]
    rfl
  | or =>
    rw [hb.mpr (IntervalList.holds_everything _)]
    rfl

theorem describes_connect {c : Connective} {l r : Value} {lo ro : Except Err (Datum Obj)}
    (pl : l.Proper) (pr : r.Proper) (hl : l.Describes w lo)
    (hr : ∀ d, lo = .ok d → w.truth p d = .ok (!c.verdict) → r.Describes w ro) :
    (connect c l r).Describes w (w.connect p c lo ro) := by
  unfold connect
  split
  · rename_i b hb
    obtain ⟨d, rfl, hd⟩ := hl.truth pl hb
    rw [World.connect_of_truth hd]
    by_cases hv : b = c.verdict
    · rw [if_pos hv, if_pos hv]
      cases l with
      | int n => exact hl
      | bool t => exact hl
      | unknown => cases hb
      | var x => cases hb
      | ranges a => cases hb.symm.trans pl.toBool?_ranges
    · rw [if_neg hv, if_neg hv]
      refine hr d rfl (hd.trans ?_)
      rw [Bool.eq_not_of_ne hv]
  · split
    · rename_i a b _
      rcases Constraints.Proper.join?_cases c pl pr with ⟨x, s, t, rfl, rfl, hj⟩ | ⟨j, hj, -, h2⟩
      · have hs := (Constraints.proper_single_iff.mp pl).1
        have ht := (Constraints.proper_single_iff.mp pr).1
        have hjoin := connect_conditions hs ht hl hr
        rw [hj]
        by_cases habs : c.combine s t = c.absorbing
        · rw [if_pos habs]
          rw [habs] at hjoin
          exact describes_verdict hjoin
        · rw [if_neg habs]
          exact hjoin
      · rw [hj]
        exact describes_of_two_le h2
    · trivial

theorem describes_not {v u : Value} {o : Except Err (Datum Obj)} (pv : v.Proper)
    (hv : v.Describes w o) (hu : v.not = .ok u) :
    u.Describes w (do let a ← o; w.unary p .not a) := by
  unfold Value.not at hu
  split at hu
  · rename_i b hb
    cases hu
    obtain ⟨d, rfl, hd⟩ := hv.truth (p := p) pv hb
    change w.unary p .not d = _
    simp only [World.unary, hd, bind, Except.bind]
    rfl
  · split at hu
    · rename_i c _
      rcases Constraints.Proper.negate_cases pv with ⟨x, a, a', rfl, hc, hn, -⟩ | ⟨h2, hn⟩
      · rw [hn] at hu
        cases hu
        obtain ⟨b, rfl, hb⟩ := describes_single.mp hv
        refine describes_single.mpr ⟨!b, rfl, ?_⟩
        rw [IntervalList.holds_complement (Constraints.proper_single_iff.mp pv).1 hc, ← hb]
        simp
      · rw [hn] at hu
        cases hu
        exact describes_of_two_le h2
    · cases hu
      trivial

theorem describes_unary {op : UnaryOp} {v u : Value} {o : Except Err (Datum Obj)}
    (pv : v.Proper) (hv : v.Describes w o) (hu : Value.unary op v = .ok u) :
    u.Describes w (do let a ← o; w.unary p op a) := by
  cases op with
  | not => exact describes_not pv hv hu
  | unsupported s =>
    cases hu
    trivial
  | plus =>
    cases hu
    cases v with
    | int n =>
      cases hv
      rfl
    | bool b =>
      cases hv
      cases b <;> rfl
    | unknown => trivial
    | var x => trivial
    | ranges c => trivial
  | minus =>
    cases hu
    cases v with
    | int n =>
      cases hv
      exact describes_checked (by simp [World.unary, bind, Except.bind])
    | bool b =>
      cases hv
      refine describes_checked ?_
      cases b <;> simp [World.unary, bind, Except.bind]
    | unknown => trivial
    | var x => trivial
    | ranges c => trivial

end Value
end Foregone
