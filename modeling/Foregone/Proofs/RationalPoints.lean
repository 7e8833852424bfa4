import Mathlib.Data.Rat.Floor
import Foregone.Proofs.BooleanAlgebra

/-! # The rational numbers of an interval list

A variable may hold any rational number. A number lies in an interval as its ends say,
and every number has a position: its own if it is an integer, and otherwise the place
just above the integer below it, which no valid end tells apart from the rest of the
open unit interval. So the exactness of the operations on positions carries over to
numbers, and a list that holds no number is empty, one that holds all is full. -/

namespace Foregone

namespace Bound

/-- An interval that starts here does not start right of `q`. -/
def Before : Bound → ℚ → Prop
  | .negInf, _ => True
  | .finite v .below, q => (v : ℚ) ≤ q
  | .finite v .exact, q => (v : ℚ) ≤ q
  | .finite v .above, q => (v : ℚ) < q
  | .posInf, _ => False

/-- An interval that ends here does not end left of `q`. -/
def After : Bound → ℚ → Prop
  | .negInf, _ => False
  | .finite v .below, q => q < (v : ℚ)
  | .finite v .exact, q => q ≤ (v : ℚ)
  | .finite v .above, q => q ≤ (v : ℚ)
  | .posInf, _ => True

/-- The position of a number. -/
def ofRat (q : ℚ) : Bound :=
  if (⌊q⌋ : ℚ) = q then .finite ⌊q⌋ .exact else .finite ⌊q⌋ .above

theorem ofRat_intCast (n : Int) : ofRat (n : ℚ) = .finite n .exact := by simp [ofRat]

theorem ofRat_of_ne {q : ℚ} (h : (⌊q⌋ : ℚ) ≠ q) : ofRat q = .finite ⌊q⌋ .above := if_neg h

theorem le_ofRat_iff {l : Bound} (hl : l.isLow = true) (q : ℚ) : l ≤ ofRat q ↔ l.Before q := by
  cases l with
  | negInf => exact iff_of_true (negInf_le _) trivial
  | posInf => cases hl
  | finite v e =>
    by_cases hq : (⌊q⌋ : ℚ) = q
    · rw [← hq, ofRat_intCast, finite_le]
      cases e with
      | below => cases hl
      | exact =>
        rw [Before, Int.cast_le]
        simp only [Edge.rank]
        omega
      | above =>
        rw [Before, Int.cast_lt]
        simp [Edge.rank]
    · have hne : (v : ℚ) ≠ q := by
        rintro rfl
        exact hq (by rw [Int.floor_intCast])
      have hle : finite v e ≤ finite ⌊q⌋ .above ↔ (v : ℚ) ≤ q := by
        rw [finite_le, ← Int.le_floor]
        cases e <;> simp only [Edge.rank] <;> omega
      rw [ofRat_of_ne hq, hle]
      cases e with
      | below => cases hl
      | exact => rfl
      | above => exact hne.le_iff_lt

theorem ofRat_le_iff {h : Bound} (hh : h.isHigh = true) (q : ℚ) : ofRat q ≤ h ↔ h.After q := by
  cases h with
  | negInf => cases hh
  | posInf => exact iff_of_true (le_posInf _) trivial
  | finite v e =>
    by_cases hq : (⌊q⌋ : ℚ) = q
    · rw [← hq, ofRat_intCast, finite_le]
      cases e with
      | above => cases hh
      | exact =>
        rw [After, Int.cast_le]
        simp only [Edge.rank]
        omega
      | below =>
        rw [After, Int.cast_lt]
        simp [Edge.rank]
    · have hne : q ≠ (v : ℚ) := by
        rintro rfl
        exact hq (by rw [Int.floor_intCast])
      have hle : finite ⌊q⌋ .above ≤ finite v e ↔ q < (v : ℚ) := by
        rw [finite_le, ← Int.floor_lt]
        cases e with
        | above => cases hh
        | exact => simp [Edge.rank]
        | below => simp [Edge.rank]
      rw [ofRat_of_ne hq, hle]
      cases e with
      | above => cases hh
      | exact => exact hne.le_iff_lt.symm
      | below => rfl

theorem ofRat_add_half (v : Int) : ofRat (v + 1 / 2) = .finite v .above := by
  have hf : ⌊(v : ℚ) + 1 / 2⌋ = v := by
    rw [Int.floor_intCast_add]
    norm_num
  rw [ofRat_of_ne, hf]
  rw [hf]
  norm_num

/-- Between a low bound and a high bound right of it lies a number. -/
theorem exists_ofRat_between {l h : Bound} (hl : l.isLow = true) (hh : h.isHigh = true)
    (hle : l ≤ h) : ∃ q, l ≤ ofRat q ∧ ofRat q ≤ h := by
  cases l with
  | posInf => cases hl
  | finite v e =>
    cases e with
    | below => cases hl
    | exact => exact ⟨v, (ofRat_intCast v).ge, (ofRat_intCast v).trans_le hle⟩
    | above => exact ⟨v + 1 / 2, (ofRat_add_half v).ge, (ofRat_add_half v).trans_le hle⟩
  | negInf =>
    cases h with
    | negInf => cases hh
    | posInf => exact ⟨0, negInf_le _, le_posInf _⟩
    | finite w f =>
      refine ⟨(w - 1 : Int), negInf_le _, ?_⟩
      rw [ofRat_intCast, finite_le]
      omega

end Bound

/-- `q` lies between the ends of the interval. -/
def Interval.Holds (i : Interval) (q : ℚ) : Prop := i.low.Before q ∧ i.high.After q

theorem Interval.holds_iff {i : Interval} {q : ℚ} :
    i.Holds q ↔ i.low ≤ Bound.ofRat q ∧ Bound.ofRat q ≤ i.high := by
  rw [Holds, Bound.le_ofRat_iff i.low_isLow, Bound.ofRat_le_iff i.high_isHigh]

theorem Interval.exists_holds (i : Interval) : ∃ q, i.Holds q := by
  obtain ⟨q, hq⟩ := Bound.exists_ofRat_between i.low_isLow i.high_isHigh i.low_le_high
  exact ⟨q, Interval.holds_iff.mpr hq⟩

namespace IntervalList

/-- `q` lies in one of the intervals. -/
def Holds (a : IntervalList) (q : ℚ) : Prop := ∃ i ∈ a, i.Holds q

theorem holds_iff {a : IntervalList} {q : ℚ} : a.Holds q ↔ Bound.ofRat q ∈ points a := by
  rw [mem_points]
  exact exists_congr fun i => and_congr_right fun _ => Interval.holds_iff

theorem holds_intersect {a b : IntervalList} {q : ℚ} (ha : a.isCanonical = true)
    (hb : b.isCanonical = true) : (intersect a b).Holds q ↔ a.Holds q ∧ b.Holds q := by
  rw [isCanonical_iff] at ha hb
  rw [holds_iff, points_intersect ha hb, Set.mem_inter_iff, holds_iff, holds_iff]

theorem holds_union {a b : IntervalList} {q : ℚ} (ha : a.isCanonical = true)
    (hb : b.isCanonical = true) : (union a b).Holds q ↔ a.Holds q ∨ b.Holds q := by
  rw [isCanonical_iff] at ha hb
  rw [holds_iff, points_union (sorted_of_pairwise ha) (sorted_of_pairwise hb), Set.mem_union,
    holds_iff, holds_iff]

theorem holds_complement {a c : IntervalList} {q : ℚ} (ha : a.isCanonical = true)
    (h : complement a = .ok c) : c.Holds q ↔ ¬ a.Holds q := by
  obtain ⟨c', hc', -, hp⟩ := exists_complement (isCanonical_iff.mp ha)
  cases h.symm.trans hc'
  rw [holds_iff, hp, Set.mem_compl_iff, holds_iff]

theorem not_holds_empty (q : ℚ) : ¬ empty.Holds q := by
  rintro ⟨i, hi, -⟩
  cases hi

theorem holds_everything (q : ℚ) : everything.Holds q :=
  ⟨.universal, List.mem_cons_self, trivial, trivial⟩

/-- A list that holds no number has no interval. -/
theorem eq_empty_of_not_holds {a : IntervalList} (h : ∀ q, ¬ a.Holds q) : a = empty := by
  cases a with
  | nil => rfl
  | cons i a =>
    obtain ⟨q, hq⟩ := i.exists_holds
    exact (h q ⟨i, List.mem_cons_self, hq⟩).elim

/-- A canonical list that holds every number is the whole line. -/
theorem eq_everything_of_holds {a : IntervalList} (ha : a.isCanonical = true)
    (h : ∀ q, a.Holds q) : a = everything := by
  let A : CanonicalList := ⟨a, isCanonical_iff.mp ha⟩
  have hbot : Aᶜ = ⊥ := by
    refine CanonicalList.ext (eq_empty_of_not_holds fun q hq => ?_)
    exact (holds_complement ha A.complement_list).mp hq (h q)
  exact congrArg CanonicalList.list (compl_eq_bot.mp hbot)

end IntervalList

namespace Comparison

/-- The truth of `a c b` for numbers. -/
def relates (c : Comparison) (a b : ℚ) : Bool :=
  match c with
  | .eq => a == b
  | .ne => a != b
  | .lt => a < b
  | .gt => b < a
  | .le => a ≤ b
  | .ge => b ≤ a

theorem relates_intCast (c : Comparison) (a b : Int) :
    c.relates (a : ℚ) (b : ℚ) = c.holds a b := by
  cases c <;> simp [relates, holds, bne, BEq.beq]

theorem relates_swapped (c : Comparison) (a b : ℚ) : c.swapped.relates b a = c.relates a b := by
  cases c <;> simp [swapped, relates, Bool.beq_comm, bne]

end Comparison

/-- The set of a comparison holds the numbers that compare so. -/
theorem IntervalList.holds_ofComparison (c : Comparison) (v : Int) (q : ℚ) :
    (ofComparison c v).Holds q ↔ c.relates q v = true := by
  cases c with
  | eq =>
    have hpoint : (v : ℚ) ≤ q ∧ q ≤ v ↔ q = v :=
      ⟨fun h => le_antisymm h.2 h.1, fun h => ⟨h.ge, h.le⟩⟩
    simpa [ofComparison, Holds, Interval.Holds, Interval.point, Bound.Before, Bound.After,
      Comparison.relates] using hpoint
  | ne =>
    simp [ofComparison, Holds, Interval.Holds, Interval.lessThan, Interval.greaterThan,
      Bound.Before, Bound.After, Comparison.relates]
  | lt =>
    simp [ofComparison, Holds, Interval.Holds, Interval.lessThan, Bound.Before, Bound.After,
      Comparison.relates]
  | gt =>
    simp [ofComparison, Holds, Interval.Holds, Interval.greaterThan, Bound.Before, Bound.After,
      Comparison.relates]
  | le =>
    simp [ofComparison, Holds, Interval.Holds, Interval.atMost, Bound.Before, Bound.After,
      Comparison.relates]
  | ge =>
    simp [ofComparison, Holds, Interval.Holds, Interval.atLeast, Bound.Before, Bound.After,
      Comparison.relates]

end Foregone
