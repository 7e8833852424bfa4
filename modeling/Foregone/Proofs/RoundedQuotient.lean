import Mathlib.Tactic.LinearCombination
import Foregone.Proofs.ExactArithmetic
import Foregone.Proofs.Spine

/-! # Quotients that are rounded when the program runs

A true quotient of integers is folded if it is exact, and the integer is kept. The program
that is looked at gets the double nearest to it, and that is another number where the
quotient has more than 53 significant bits. A guard that compares it with one of the two
numbers is then judged wrongly. -/

namespace Foregone

/-- An integer of at most 53 significant bits. -/
def IsDouble (v : Int) : Prop := ∃ (m : Int) (k : Nat), m.natAbs ≤ 2 ^ 53 ∧ v = m * 2 ^ k

/-- `r` is the double nearest to `q`, and of two that are equally near the one that is an
even multiple of their distance. -/
structure RoundsTo (q r : Int) : Prop where
  isDouble : IsDouble r
  nearest : ∀ v, IsDouble v → (q - r).natAbs ≤ (q - v).natAbs
  even : ∀ v, IsDouble v → v ≠ r → (q - v).natAbs = (q - r).natAbs → 2 * (v - r) ∣ r

variable {q r v : Int}

/-! ## Doubles -/

theorem IsDouble.neg (h : IsDouble v) : IsDouble (-v) := by
  obtain ⟨m, k, hm, rfl⟩ := h
  exact ⟨-m, k, by rwa [Int.natAbs_neg], by rw [Int.neg_mul]⟩

/-- From `2 ^ (k + 52)` on, all doubles are multiples of `2 ^ k`. -/
theorem IsDouble.dvd {k : Nat} (hv : IsDouble v) (h : 2 ^ 52 * 2 ^ k ≤ v) : 2 ^ k ∣ v := by
  obtain ⟨m, j, hm, rfl⟩ := hv
  by_cases hle : k ≤ j
  · exact Dvd.dvd.mul_left (pow_dvd_pow 2 hle) m
  · -- only the power itself is left
    have hpow : (2 : Int) ^ 53 * 2 ^ j ≤ 2 ^ 52 * 2 ^ k := by
      calc (2 : Int) ^ 53 * 2 ^ j = 2 ^ 52 * 2 ^ (j + 1) := by ring
        _ ≤ 2 ^ 52 * 2 ^ k := by
          refine Int.mul_le_mul_of_nonneg_left ?_ (by decide)
          exact pow_le_pow_right₀ (by decide) (by omega)
    have hm : m ≤ 2 ^ 53 := by omega
    have hupper : m * 2 ^ j ≤ 2 ^ 53 * 2 ^ j :=
      Int.mul_le_mul_of_nonneg_right hm (by positivity)
    have heq : m * 2 ^ j = 2 ^ 52 * 2 ^ k := le_antisymm (hupper.trans hpow) h
    rw [heq]
    exact Dvd.intro_left _ rfl

/-! ## Rounding -/

theorem RoundsTo.self (h : IsDouble q) : RoundsTo q q where
  isDouble := h
  nearest v _ := by simp
  even v _ hne heq := by omega

theorem RoundsTo.neg (h : RoundsTo q r) : RoundsTo (-q) (-r) where
  isDouble := h.isDouble.neg
  nearest v hv := by
    have hle := h.nearest (-v) hv.neg
    omega
  even v hv hne heq := by
    have hdvd := h.even (-v) hv.neg (by omega) (by omega)
    have hturn : 2 * (v - -r) = -(2 * (-v - r)) := by omega
    rw [hturn]
    exact Int.neg_dvd.mpr (Int.dvd_neg.mpr hdvd)

/-- Two would be even and neighbours. -/
theorem RoundsTo.unique {r' : Int} (h : RoundsTo q r) (h' : RoundsTo q r') : r = r' := by
  by_contra hne
  have hsame : (q - r').natAbs = (q - r).natAbs :=
    le_antisymm (h'.nearest r h.isDouble) (h.nearest r' h'.isDouble)
  have hr := h.even r' h'.isDouble (Ne.symm hne) hsame
  have hr' := h'.even r h.isDouble hne hsame.symm
  have hback : 2 * (r' - r) ∣ r' := by
    have hturn : 2 * (r' - r) = -(2 * (r - r')) := by omega
    rw [hturn]
    exact Int.neg_dvd.mpr hr'
  obtain ⟨d, hd⟩ := Int.dvd_sub hback hr
  have hzero : (r' - r) * (1 - 2 * d) = 0 := by linear_combination hd
  rcases Int.mul_eq_zero.mp hzero with h0 | h0
  · omega
  · omega

/-- Rounding between two doubles with none in between. -/
theorem roundsTo_between {m s : Int} (hlow : m * s ≤ q) (hhigh : q < m * s + s)
    (hm : IsDouble (m * s)) (hm' : IsDouble (m * s + s))
    (hgap : ∀ v, IsDouble v → v ≤ m * s ∨ m * s + s ≤ v) :
    RoundsTo q (if 2 * (q - m * s) < s ∨ 2 * (q - m * s) = s ∧ m % 2 = 0 then m * s
      else m * s + s) := by
  split
  case isTrue h =>
    refine ⟨hm, fun v hv => ?_, fun v hv hne heq => ?_⟩
    · have := hgap v hv
      omega
    · have := hgap v hv
      obtain ⟨j, rfl⟩ := Int.dvd_of_emod_eq_zero (show m % 2 = 0 by omega)
      have hv : v - 2 * j * s = s := by omega
      exact ⟨j, by rw [hv]; ring⟩
  case isFalse h =>
    refine ⟨hm', fun v hv => ?_, fun v hv hne heq => ?_⟩
    · have := hgap v hv
      omega
    · have := hgap v hv
      obtain ⟨j, hj⟩ := Int.dvd_of_emod_eq_zero (show (m + 1) % 2 = 0 by omega)
      have hv : v - (m * s + s) = -s := by omega
      exact ⟨-j, by rw [hv]; linear_combination s * hj⟩

/-- The multiple of `s` nearest to `n`, an even one if there are two. -/
def nearestMultiple (n s : Nat) : Nat :=
  let low := n / s * s
  if 2 * (n - low) < s ∨ 2 * (n - low) = s ∧ n / s % 2 = 0 then low else low + s

/-- The distance of the doubles about `n`. -/
def spacing (n : Nat) : Nat := 2 ^ (n.log2 - 52)

/-- The double nearest to an integer. -/
def nearestDouble : Int → Int
  | .ofNat n => nearestMultiple n (spacing n)
  | .negSucc n => -nearestMultiple (n + 1) (spacing (n + 1))

theorem natCast_nearestMultiple (n s : Nat) : (nearestMultiple n s : Int) =
    if 2 * ((n : Int) - (n / s : Nat) * s) < s ∨
      2 * ((n : Int) - (n / s : Nat) * s) = s ∧ ((n / s : Nat) : Int) % 2 = 0
    then (n / s : Nat) * (s : Int) else (n / s : Nat) * (s : Int) + s := by
  have hlow : n / s * s ≤ n := Nat.div_mul_le_self n s
  rw [nearestMultiple, ← Int.natCast_mul]
  generalize n / s * s = low at hlow ⊢
  split <;> split <;> omega

theorem lt_spacing (n : Nat) : n < 2 ^ 53 * spacing n := by
  have hlog : n < 2 ^ (n.log2 + 1) := Nat.lt_log2_self
  have hpow : 2 ^ (n.log2 + 1) ≤ 2 ^ (53 + (n.log2 - 52)) :=
    Nat.pow_le_pow_right (by decide) (by omega)
  rw [spacing, ← Nat.pow_add]
  exact Nat.lt_of_lt_of_le hlog hpow

/-- All integers are doubles where the doubles lie closest. -/
theorem spacing_cases (n : Nat) : spacing n = 1 ∨ 2 ^ 52 * spacing n ≤ n := by
  by_cases h : n.log2 ≤ 52
  · exact .inl (by rw [spacing, Nat.sub_eq_zero_of_le h, Nat.pow_zero])
  · have hne : n ≠ 0 := by
      rintro rfl
      exact h (by decide)
    have hsum : 52 + (n.log2 - 52) = n.log2 := by omega
    right
    rw [spacing, ← Nat.pow_add, hsum]
    exact Nat.log2_self_le hne

/-- No double lies between two multiples of the spacing that follow each other. -/
theorem IsDouble.gap {n : Nat} (hv : IsDouble v) :
    v ≤ (n / spacing n : Nat) * (spacing n : Int) ∨
      (n / spacing n : Nat) * (spacing n : Int) + spacing n ≤ v := by
  rcases spacing_cases n with hone | hlarge
  · rw [hone]
    omega
  · have hpos : 0 < spacing n := Nat.two_pow_pos _
    have hm : 2 ^ 52 ≤ n / spacing n := (Nat.le_div_iff_mul_le hpos).mpr hlarge
    by_cases hsmall : v < 2 ^ 52 * (spacing n : Int)
    · have hmul : 2 ^ 52 * spacing n ≤ n / spacing n * spacing n := Nat.mul_le_mul_right _ hm
      left
      rw [← Int.natCast_mul]
      omega
    · have hspacing : (spacing n : Int) = 2 ^ (n.log2 - 52) := by simp [spacing]
      have hdvd : (spacing n : Int) ∣ v := by
        rw [hspacing]
        exact hv.dvd (hspacing ▸ not_lt.mp hsmall)
      obtain ⟨j, rfl⟩ := hdvd
      rw [Int.mul_comm _ j]
      by_cases hj : j ≤ (n / spacing n : Nat)
      · exact .inl (Int.mul_le_mul_of_nonneg_right hj (by omega))
      · right
        calc ((n / spacing n : Nat) : Int) * spacing n + spacing n
            = ((n / spacing n : Nat) + 1) * spacing n := by ring
          _ ≤ j * spacing n := Int.mul_le_mul_of_nonneg_right (by omega) (by omega)

theorem roundsTo_nearestMultiple (n : Nat) : RoundsTo n (nearestMultiple n (spacing n)) := by
  have hpos : 0 < spacing n := Nat.two_pow_pos _
  have hhigh : n < n / spacing n * spacing n + spacing n := Nat.lt_div_mul_add hpos
  have hm : n / spacing n < 2 ^ 53 := (Nat.div_lt_iff_lt_mul hpos).mpr (lt_spacing n)
  have hmultiple {m : Nat} (h : m ≤ 2 ^ 53) : IsDouble (m * spacing n) :=
    ⟨m, n.log2 - 52, h, by simp [spacing]⟩
  have hnext := hmultiple (Nat.succ_le_of_lt hm)
  rw [natCast_nearestMultiple]
  refine roundsTo_between ?_ ?_ (hmultiple hm.le) ?_ fun v hv => hv.gap
  · exact_mod_cast Nat.div_mul_le_self n _
  · exact_mod_cast hhigh
  · rwa [Int.natCast_succ, Int.add_mul, Int.one_mul] at hnext

theorem roundsTo_nearestDouble (q : Int) : RoundsTo q (nearestDouble q) := by
  cases q with
  | ofNat n => exact roundsTo_nearestMultiple n
  | negSucc n => exact (roundsTo_nearestMultiple (n + 1)).neg

example : nearestDouble (2 ^ 53 + 1) = 2 ^ 53 ∧ nearestDouble (-(2 ^ 53 + 3)) = -(2 ^ 53 + 4) := by
  decide

theorem existsUnique_roundsTo (q : Int) : ∃! r, RoundsTo q r :=
  ⟨nearestDouble q, roundsTo_nearestDouble q, fun _ h => h.unique (roundsTo_nearestDouble q)⟩

/-- Only doubles are rounded to themselves. -/
theorem RoundsTo.eq_iff (h : RoundsTo q r) : q = r ↔ IsDouble q := by
  constructor
  · rintro rfl
    exact h.isDouble
  · intro hq
    exact (RoundsTo.self hq).unique h

/-! ## Guards -/

namespace Expr

/-- The guard `a / b == c`. -/
def comparedQuotient (a b c : Expr) : Expr :=
  .binary (.compare .eq) (.binary (.arith .div) a b false) c false

variable {a b c : Int} {x y z : Expr}

section

variable (hx : x.evaluate = .ok (.int a)) (hy : y.evaluate = .ok (.int b)) (hb : b ≠ 0)
  (hdvd : b ∣ a)

include hx hy hb hdvd

theorem evaluate_quotient :
    (binary (.arith .div) x y false).evaluate = .ok (.checked (a / b)) := by
  have harith : Value.binary (.arith .div) (.int a) (.int b) =
      if b = 0 ∨ a.fmod b ≠ 0 then .unknown else .checked (a.fdiv b) := rfl
  have hexact : ¬ (b = 0 ∨ a.fmod b ≠ 0) := by
    rw [not_or, not_not]
    exact ⟨hb, Int.fmod_eq_zero_of_dvd hdvd⟩
  rw [evaluate_unchained _ hx hy, harith, if_neg hexact, Int.fdiv_eq_ediv_of_dvd hdvd]

/-- The quotient that is folded is compared as it is. -/
theorem verdict?_comparedQuotient (hz : z.evaluate = .ok (.int c)) :
    (comparedQuotient x y z).verdict? =
      .ok (if Word.fits (a / b) then some (decide (a / b = c)) else none) := by
  rw [verdict?, comparedQuotient, evaluate_unchained _ (evaluate_quotient hx hy hb hdvd) hz,
    Value.checked]
  split
  · rfl
  · rfl

/-- There is a verdict if the quotient is a word. It is what comes out when the program runs,
and the quotient is rounded, unless the quotient has more than 53 significant bits and is
compared with itself or with the double nearest to it: in these two cases it is wrong. -/
theorem verdict?_quotient_iff (hz : z.evaluate = .ok (.int c)) :
    (∃! r, RoundsTo (a / b) r) ∧
    ((∃ t, (comparedQuotient x y z).verdict? = .ok (some t)) ↔
      -2 ^ 63 ≤ a / b ∧ a / b < 2 ^ 63) ∧
    ∀ r t, RoundsTo (a / b) r → (comparedQuotient x y z).verdict? = .ok (some t) →
      (t = decide (r = c) ↔ IsDouble (a / b) ∨ c ≠ a / b ∧ c ≠ r) := by
  refine ⟨existsUnique_roundsTo _, ?_, fun r t hr ht => ?_⟩
  · rw [verdict?_comparedQuotient hx hy hb hdvd hz, ← Word.fits_iff]
    cases Word.fits (a / b) <;> simp
  · rw [verdict?_comparedQuotient hx hy hb hdvd hz] at ht
    cases hfits : Word.fits (a / b) with
    | false => simp [hfits] at ht
    | true =>
      have hverdict : decide (a / b = c) = t := by simpa [hfits] using ht
      rw [← hverdict, decide_eq_decide, ← hr.eq_iff]
      omega

end

/-- The quotient `2 ^ 53 + 1` is no double. Compared with the double nearest to it, it is judged
as always another number. -/
theorem verdict?_quotient_iff_odd :
    let guard := comparedQuotient (.num (some 9007199254740993) true) (.num (some 1) true)
      (.num (some 9007199254740992) true)
    RoundsTo (9007199254740993 / 1) 9007199254740992 ∧ guard.verdict? = .ok (some false) ∧
      ¬ IsDouble (9007199254740993 / 1) := by
  intro guard
  have hround : RoundsTo (9007199254740993 / 1) 9007199254740992 :=
    roundsTo_nearestDouble 9007199254740993
  have hverdict : guard.verdict? = .ok (some false) := by decide +kernel
  obtain ⟨-, -, hright⟩ := verdict?_quotient_iff (x := .num (some 9007199254740993) true)
    (y := .num (some 1) true) (z := .num (some 9007199254740992) true) rfl rfl (by decide)
    (by decide) rfl
  refine ⟨hround, hverdict, fun hdouble => ?_⟩
  exact absurd ((hright _ false hround hverdict).mpr (.inl hdouble)) (by decide)

/-- The quotient is compared with itself, and the verdict is wrong. -/
theorem verdict?_quotient_wrong :
    ¬ ∀ a b c r : Int, (∀ n ∈ [a, b, c], -2 ^ 63 ≤ n ∧ n < 2 ^ 63) → b ≠ 0 → b ∣ a →
      RoundsTo (a / b) r → ∀ t,
      (comparedQuotient (.num (some a) true) (.num (some b) true)
        (.num (some c) true)).verdict? = .ok (some t) → t = decide (r = c) := by
  intro hall
  have hround : RoundsTo (9007199254740993 / 1) 9007199254740992 :=
    roundsTo_nearestDouble 9007199254740993
  have hverdict : (comparedQuotient (.num (some 9007199254740993) true) (.num (some 1) true)
      (.num (some 9007199254740993) true)).verdict? = .ok (some true) := by decide +kernel
  have hwrong := hall _ _ _ _ (by decide) (by decide) (by decide) hround true hverdict
  exact absurd hwrong (by decide)

end Expr
end Foregone
