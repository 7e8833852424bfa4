import Foregone.Proofs.Describes

/-! # Arithmetic is exact or given up

What an arithmetic operator yields on integers is a relation of its own, told without the
operations that compute it: quotients by the rationals, remainders by their range, powers
by repeated multiplication. Folding two known integers gives the word that is related to
them and is unknown where no word is. In particular the estimate that is made before a
power is computed refuses no power that is a word. -/

namespace Foregone

/-- `v` is what `a op b` is on integers. Nothing is divided by zero, a true quotient has to
be an integer, a remainder lies between zero and the divisor, and no exponent is negative. -/
def Arithmetic.Yields (op : Arithmetic) (a b v : Int) : Prop :=
  match op with
  | .add => v = a + b
  | .sub => v = a - b
  | .mul => v = a * b
  | .div => b ≠ 0 ∧ a = v * b
  | .floorDiv => b ≠ 0 ∧ v = ⌊(a : ℚ) / b⌋
  | .mod => b ≠ 0 ∧ b ∣ a - v ∧ (0 ≤ v ∧ v < b ∨ b < v ∧ v ≤ 0)
  | .pow => 0 ≤ b ∧ v = a ^ b.toNat

/-! ## Quotients and remainders -/

theorem eq_mul_iff_fdiv {a b v : Int} (hb : b ≠ 0) :
    a = v * b ↔ a.fmod b = 0 ∧ a.fdiv b = v := by
  constructor
  · rintro rfl
    exact ⟨Int.mul_fmod_left v b, Int.mul_fdiv_cancel v hb⟩
  · rintro ⟨hmod, rfl⟩
    exact (Int.fdiv_mul_cancel_of_fmod_eq_zero hmod).symm

/-- A remainder lies on the side of zero that the divisor is on. -/
theorem fmod_range (a : Int) {b : Int} (hb : b ≠ 0) :
    0 ≤ a.fmod b ∧ a.fmod b < b ∨ b < a.fmod b ∧ a.fmod b ≤ 0 := by
  rcases lt_or_gt_of_ne hb with hneg | hpos
  · -- both signs turned round, this is a division by a positive number
    have hpos : 0 < -b := by omega
    have hnonneg := Int.fmod_nonneg_of_pos (-a) hpos
    have hlt := Int.fmod_lt_of_pos (-a) hpos
    rw [Int.neg_fmod_neg] at hnonneg hlt
    omega
  · exact .inl ⟨Int.fmod_nonneg_of_pos a hpos, Int.fmod_lt_of_pos a hpos⟩

theorem remainder_iff {a b v : Int} (hb : b ≠ 0) :
    (b ∣ a - v ∧ (0 ≤ v ∧ v < b ∨ b < v ∧ v ≤ 0)) ↔ a.fmod b = v := by
  have hrange := fmod_range a hb
  constructor
  · rintro ⟨hdvd, hv⟩
    have hdiff : b ∣ a.fmod b - v := by
      have hself : b ∣ a - a.fmod b := Int.dvd_self_sub_fmod
      have hsub := Int.dvd_sub hdvd hself
      have he : a - v - (a - a.fmod b) = a.fmod b - v := by omega
      exact he ▸ hsub
    have hzero := Int.eq_zero_of_dvd_of_natAbs_lt_natAbs hdiff (by omega)
    omega
  · rintro rfl
    exact ⟨Int.dvd_self_sub_fmod, hrange⟩

/-! ## Powers -/

/-- A power is at least as wide as the estimate. -/
theorem two_pow_log2_mul_le {n : Nat} (hn : n ≠ 0) (e : Nat) : 2 ^ (n.log2 * e) ≤ n ^ e := by
  rw [Nat.pow_mul]
  exact Nat.pow_le_pow_left (Nat.log2_self_le hn) e

theorem not_fits_of_estimate {base : Int} {e : Nat} (hb : 1 < base.natAbs)
    (h : Word.bits ≤ base.natAbs.log2 * e) : Word.fits (base ^ e) = false := by
  have hwide : 2 ^ 64 ≤ (base ^ e).natAbs := by
    calc 2 ^ 64 ≤ 2 ^ (base.natAbs.log2 * e) := Nat.pow_le_pow_right (by decide) h
      _ ≤ base.natAbs ^ e := two_pow_log2_mul_le (by omega) e
      _ = (base ^ e).natAbs := (Int.natAbs_pow base e).symm
  by_contra hfits
  rw [Bool.not_eq_false, Word.fits_iff] at hfits
  omega

namespace Value

/-! ## Folding -/

/-- `u` is the only word among the integers that `P` holds of, and unknown if there is none. -/
def FoldOf (P : Int → Prop) (u : Value) : Prop :=
  (∀ v, u = .int v ↔ P v ∧ -2 ^ 63 ≤ v ∧ v < 2 ^ 63) ∧
    (u = .unknown ↔ ∀ v, P v → ¬ (-2 ^ 63 ≤ v ∧ v < 2 ^ 63))

theorem foldOf_unknown {P : Int → Prop} (h : ∀ v, P v → Word.fits v = false) :
    FoldOf P .unknown := by
  have hnot : ∀ v, P v → ¬ (-2 ^ 63 ≤ v ∧ v < 2 ^ 63) := by
    intro v hv hfits
    cases (h v hv).symm.trans (Word.fits_iff.mpr hfits)
  refine ⟨fun v => ⟨nofun, ?_⟩, fun _ => hnot, fun _ => rfl⟩
  rintro ⟨hv, hfits⟩
  exact (hnot v hv hfits).elim

theorem foldOf_checked {P : Int → Prop} {n : Int} (h : ∀ v, P v ↔ n = v) :
    FoldOf P (checked n) := by
  unfold checked
  by_cases hn : Word.fits n = true
  · rw [if_pos hn]
    have hfits := Word.fits_iff.mp hn
    have hself : P n := (h n).mpr rfl
    refine ⟨fun v => ⟨?_, ?_⟩, nofun, ?_⟩
    · intro he
      cases he
      exact ⟨hself, hfits⟩
    · intro hv
      rw [(h v).mp hv.1]
    · intro hnone
      exact (hnone n hself hfits).elim
  · rw [if_neg hn]
    apply foldOf_unknown
    intro v hv
    rw [← (h v).mp hv]
    exact Bool.not_eq_true _ ▸ hn

/-- An operation that is refused where it has no result that is a word, and computed
otherwise. -/
theorem foldOf_unless {P : Int → Prop} {refused : Prop} [Decidable refused] {n : Int}
    (hrefused : refused → ∀ v, P v → Word.fits v = false)
    (hexact : ¬ refused → ∀ v, P v ↔ n = v) :
    FoldOf P (if refused then .unknown else checked n) := by
  by_cases h : refused
  · rw [if_pos h]
    exact foldOf_unknown (hrefused h)
  · rw [if_neg h]
    exact foldOf_checked (hexact h)

/-- An operation that has a result for every divisor but zero. -/
theorem foldOf_divided {P : Int → Prop} {b n : Int} (h : ∀ v, P v ↔ b ≠ 0 ∧ n = v) :
    FoldOf P (if b = 0 then .unknown else checked n) := by
  apply foldOf_unless
  · intro hb v hv
    exact (((h v).mp hv).1 hb).elim
  · intro hb v
    rw [h v, and_iff_right hb]

theorem foldOf_div (a b : Int) : FoldOf (Arithmetic.Yields .div a b)
    (if b = 0 ∨ a.fmod b ≠ 0 then .unknown else checked (a.fdiv b)) := by
  apply foldOf_unless
  · rintro (hb | hmod) v ⟨hne, he⟩
    · exact (hne hb).elim
    · exact (hmod ((eq_mul_iff_fdiv hne).mp he).1).elim
  · intro h v
    rw [not_or, not_not] at h
    obtain ⟨hne, hmod⟩ := h
    show b ≠ 0 ∧ a = v * b ↔ a.fdiv b = v
    rw [and_iff_right hne, eq_mul_iff_fdiv hne, and_iff_right hmod]

theorem foldOf_power (a b : Int) : FoldOf (Arithmetic.Yields .pow a b) (power a b) := by
  rw [power_eq_ite]
  by_cases hneg : b < 0
  · rw [if_pos hneg]
    apply foldOf_unknown
    intro v hv
    exact (not_le_of_gt hneg hv.1).elim
  · have hb : 0 ≤ b := by omega
    rw [if_neg hneg, powerOf_eq]
    apply foldOf_unless
    · rintro ⟨hbase, hbits⟩ v hv
      rw [hv.2]
      exact not_fits_of_estimate hbase hbits
    · intro _ v
      show 0 ≤ b ∧ v = a ^ b.toNat ↔ a ^ b.toNat = v
      rw [and_iff_right hb, eq_comm]

/-- Arithmetic on known integers of any size gives the exact result where there is one and
it is a word, and is unknown in every other case. -/
theorem arith_exact {l r : Value} {a b : Int} (hl : l.toInt? = some a) (hr : r.toInt? = some b)
    (op : Arithmetic) :
    (∀ v, l.arith op r = .int v ↔ op.Yields a b v ∧ -2 ^ 63 ≤ v ∧ v < 2 ^ 63) ∧
    (l.arith op r = .unknown ↔ ∀ v, op.Yields a b v → ¬ (-2 ^ 63 ≤ v ∧ v < 2 ^ 63)) := by
  show FoldOf (op.Yields a b) (l.arith op r)
  simp only [arith, hl, hr]
  cases op with
  | add => exact foldOf_checked fun v => eq_comm
  | sub => exact foldOf_checked fun v => eq_comm
  | mul => exact foldOf_checked fun v => eq_comm
  | div => exact foldOf_div a b
  | floorDiv =>
    apply foldOf_divided
    intro v
    show b ≠ 0 ∧ v = ⌊(a : ℚ) / b⌋ ↔ b ≠ 0 ∧ a.fdiv b = v
    exact and_congr_right fun hb => by rw [floor_intCast_div hb, eq_comm]
  | mod =>
    apply foldOf_divided
    intro v
    exact and_congr_right fun hb => remainder_iff hb
  | pow => exact foldOf_power a b

/-- `(-2) ** 63` is the least word, and the estimate lets it pass; without the sign it is
one too wide. -/
theorem arith_exact_least_word :
    ((int (-2)).toInt? = some (-2) ∧ (int 2).toInt? = some 2 ∧ (int 63).toInt? = some 63) ∧
    (int (-2)).arith .pow (.int 63) = .int (-2 ^ 63) ∧
    (int 2).arith .pow (.int 63) = .unknown := by
  have he : Int.toNat 63 = 63 := rfl
  refine ⟨⟨rfl, rfl, rfl⟩, ?_, ?_⟩
  · obtain ⟨hint, -⟩ := arith_exact (l := .int (-2)) (r := .int 63) rfl rfl .pow
    exact (hint _).mpr ⟨⟨by decide, by norm_num [he]⟩, by norm_num, by norm_num⟩
  · obtain ⟨-, hunknown⟩ := arith_exact (l := .int 2) (r := .int 63) rfl rfl .pow
    apply hunknown.mpr
    rintro v ⟨-, rfl⟩
    norm_num [he]

end Value
end Foregone
