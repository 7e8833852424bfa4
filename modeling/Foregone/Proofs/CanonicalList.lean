import Mathlib.Data.Set.Basic
import Foregone.IntervalList
import Foregone.Proofs.BoundOrder

/-! # Canonical interval lists

A list stands for the set of its positions, `points`. Every operation is exact on
that set and yields a canonical list, and a canonical list is determined by its set.
A canonical list is one whose intervals are pairwise `Apart`: some position lies
between any two of them. In this form each walk over the lists needs only the order
of the positions, whatever the edges are. -/

namespace Foregone

namespace Interval

theorem eq_of_bounds {x y : Interval} (hl : x.low = y.low) (hh : x.high = y.high) : x = y := by
  cases x
  cases y
  cases hl
  cases hh
  rfl

/-- `x` lies left of `y`, and some position lies between them. -/
def Apart (x y : Interval) : Prop := ∃ p, x.high < p ∧ p < y.low

theorem apart_iff {x y : Interval} :
    Apart x y ↔ x.high < y.low ∧ x.high.touches y.low = false :=
  (Bound.exists_between_iff x.high_isHigh).symm

theorem Apart.lt {x y : Interval} (h : Apart x y) : x.high < y.low := by
  obtain ⟨p, hx, hy⟩ := h
  exact hx.trans hy

/-- Intervals stay apart when the left one shrinks from the right and the right one
from the left. -/
theorem Apart.mono {x y x' y' : Interval} (h : Apart x y) (hx : x'.high ≤ x.high)
    (hy : y.low ≤ y'.low) : Apart x' y' := by
  obtain ⟨p, hp, hq⟩ := h
  exact ⟨p, hx.trans_lt hp, hq.trans_le hy⟩

theorem Apart.trans {x y z : Interval} (hxy : Apart x y) (hyz : Apart y z) : Apart x z :=
  hxy.mono le_rfl (y.low_le_high.trans hyz.lt.le)

end Interval

namespace IntervalList

/-- The positions of a list. -/
def points (a : IntervalList) : Set Bound := {p | a.contains p = true}

theorem contains_iff {a : IntervalList} {p : Bound} : a.contains p = true ↔ p ∈ points a := Iff.rfl

theorem mem_points {a : IntervalList} {p : Bound} :
    p ∈ points a ↔ ∃ i ∈ a, i.low ≤ p ∧ p ≤ i.high := by
  simp [points, contains, Interval.contains]

@[simp] theorem points_nil : points [] = ∅ := by
  ext p
  simp [mem_points]

@[simp] theorem mem_points_cons {x : Interval} {a : IntervalList} {p : Bound} :
    p ∈ points (x :: a) ↔ (x.low ≤ p ∧ p ≤ x.high) ∨ p ∈ points a := by
  simp [mem_points]

@[simp] theorem mem_points_append {a b : IntervalList} {p : Bound} :
    p ∈ points (a ++ b) ↔ p ∈ points a ∨ p ∈ points b := by
  simp only [mem_points, List.mem_append, or_and_right, exists_or]

theorem isCanonical_iff {a : IntervalList} :
    a.isCanonical = true ↔ a.Pairwise Interval.Apart := by
  fun_induction isCanonical a with
  | case1 x y rest ih =>
    have hxy : (decide (x.high < y.low) && !x.high.touches y.low) = true ↔ x.Apart y := by
      rw [Interval.apart_iff]
      simp
    rw [Bool.and_eq_true, hxy, ih, List.pairwise_cons (a := x)]
    constructor
    · rintro ⟨hx, hp⟩
      refine ⟨fun z hz => ?_, hp⟩
      rcases List.mem_cons.mp hz with rfl | hz
      · exact hx
      · exact hx.trans (List.rel_of_pairwise_cons hp hz)
    · rintro ⟨hx, hp⟩
      exact ⟨hx y List.mem_cons_self, hp⟩
  | case2 a h =>
    match a with
    | [] => simp
    | [x] => simp
    | x :: y :: rest => exact (h x y rest rfl).elim

/-! ## A canonical list is determined by its positions -/

/-- Positions of the tail lie beyond the head. -/
theorem high_lt_of_mem_points {x : Interval} {a : IntervalList}
    (h : (x :: a).Pairwise Interval.Apart) {p : Bound} (hp : p ∈ points a) : x.high < p := by
  obtain ⟨i, hi, hl, -⟩ := mem_points.mp hp
  exact (List.rel_of_pairwise_cons h hi).lt.trans_le hl

theorem low_le_of_mem_points {x : Interval} {a : IntervalList}
    (h : (x :: a).Pairwise Interval.Apart) {p : Bound} (hp : p ∈ points (x :: a)) :
    x.low ≤ p := by
  rcases mem_points_cons.mp hp with hp | hp
  · exact hp.1
  · exact x.low_le_high.trans (high_lt_of_mem_points h hp).le

theorem low_mem_points (x : Interval) (a : IntervalList) : x.low ∈ points (x :: a) :=
  mem_points_cons.mpr (.inl ⟨le_rfl, x.low_le_high⟩)

/-- The tail leaves room right after the head: up to any position beyond it, some
position is missing. -/
theorem exists_not_mem_points {x : Interval} {a : IntervalList}
    (h : (x :: a).Pairwise Interval.Apart) {q : Bound} (hq : x.high < q) :
    ∃ p, x.high < p ∧ p ≤ q ∧ p ∉ points (x :: a) := by
  cases a with
  | nil =>
    refine ⟨q, hq, le_rfl, fun hm => ?_⟩
    simp only [mem_points_cons, points_nil, Set.mem_empty_iff_false, or_false] at hm
    exact not_le_of_gt hq hm.2
  | cons y rest =>
    obtain ⟨p, hp, hy⟩ := List.rel_of_pairwise_cons h List.mem_cons_self
    have hmin : x.high < min p q := lt_min hp hq
    refine ⟨min p q, hmin, min_le_right p q, fun hm => ?_⟩
    rcases mem_points_cons.mp hm with hm | hm
    · exact not_le_of_gt hmin hm.2
    · have hl := low_le_of_mem_points (List.pairwise_cons.mp h).2 hm
      exact not_le_of_gt (hy.trans_le hl) (min_le_left p q)

/-- The first intervals of two lists with the same positions end at the same place. -/
theorem high_le_of_points_subset {x y : Interval} {a b : IntervalList}
    (ha : (x :: a).Pairwise Interval.Apart) (hl : y.low ≤ x.low)
    (hs : points (y :: b) ⊆ points (x :: a)) : y.high ≤ x.high := by
  by_contra hlt
  obtain ⟨p, hp, hpy, hm⟩ := exists_not_mem_points ha (not_le.mp hlt)
  have hyp : y.low ≤ p := hl.trans (x.low_le_high.trans hp.le)
  exact hm (hs (mem_points_cons.mpr (.inl ⟨hyp, hpy⟩)))

theorem points_tail_subset {x : Interval} {a b : IntervalList}
    (ha : (x :: a).Pairwise Interval.Apart)
    (hs : points (x :: a) ⊆ points (x :: b)) : points a ⊆ points b := by
  intro p hp
  have hx := high_lt_of_mem_points ha hp
  rcases mem_points_cons.mp (hs (mem_points_cons.mpr (.inr hp))) with hm | hm
  · exact (not_le_of_gt hx hm.2).elim
  · exact hm

theorem eq_of_points_eq {a b : IntervalList} (ha : a.Pairwise Interval.Apart)
    (hb : b.Pairwise Interval.Apart) (h : points a = points b) : a = b := by
  induction a generalizing b with
  | nil =>
    cases b with
    | nil => rfl
    | cons y b =>
      have hy := low_mem_points y b
      rw [← h, points_nil] at hy
      exact hy.elim
  | cons x a ih =>
    cases b with
    | nil =>
      have hx := low_mem_points x a
      rw [h, points_nil] at hx
      exact hx.elim
    | cons y b =>
      have hxy : y.low ≤ x.low := low_le_of_mem_points hb (h ▸ low_mem_points x a)
      have hyx : x.low ≤ y.low := low_le_of_mem_points ha (h ▸ low_mem_points y b)
      have he : x = y := Interval.eq_of_bounds (le_antisymm hyx hxy)
        (le_antisymm (high_le_of_points_subset hb hyx h.subset)
          (high_le_of_points_subset ha hxy h.superset))
      subst he
      have ht : points a = points b :=
        Set.Subset.antisymm (points_tail_subset ha h.subset) (points_tail_subset hb h.superset)
      rw [ih (List.pairwise_cons.mp ha).2 (List.pairwise_cons.mp hb).2 ht]

/-! ## The verdict on a list -/

@[simp] theorem points_everything : points everything = Set.univ := by
  ext p
  simp [everything, Interval.universal, Bound.negInf_le, Bound.le_posInf]

theorem eq_empty_iff {a : IntervalList} : a = empty ↔ ∀ p, a.contains p = false := by
  constructor
  · rintro rfl p
    rfl
  · intro h
    cases a with
    | nil => rfl
    | cons x a =>
      have hlow : contains (x :: a) x.low = true := low_mem_points x a
      rw [h] at hlow
      cases hlow

theorem eq_everything_iff {a : IntervalList} (ha : a.Pairwise Interval.Apart) :
    a = everything ↔ ∀ p, a.contains p = true := by
  have hall : points a = Set.univ ↔ ∀ p, a.contains p = true := Set.eq_univ_iff_forall
  rw [← hall, ← points_everything]
  exact ⟨congrArg points, eq_of_points_eq ha (List.pairwise_singleton _ _)⟩

/-- The verdict compares a list with the two constant ones. -/
theorem toBool?_iff (a : IntervalList) :
    (a.toBool? = some true ↔ a = everything) ∧ (a.toBool? = some false ↔ a = empty) ∧
      (a.toBool? = none ↔ a ≠ empty ∧ a ≠ everything) := by
  have hdiff : everything ≠ empty := List.cons_ne_nil _ _
  unfold toBool?
  split
  · rename_i he
    simp [he, hdiff.symm]
  · split
    · rename_i hf
      simp [hf, hdiff]
    · rename_i hne hnf
      simp [hne, hnf]

/-- Canonical lists that hold the same positions are equal, and the verdict on a canonical
list is exact: true if the list holds every position, false if it holds none, and open
in every other case. -/
theorem canonical_unique :
    (∀ a b : IntervalList, a.isCanonical = true → b.isCanonical = true →
      (∀ p, a.contains p = b.contains p) → a = b) ∧
    ∀ a : IntervalList, a.isCanonical = true →
      (a.toBool? = some true ↔ ∀ p, a.contains p = true) ∧
      (a.toBool? = some false ↔ ∀ p, a.contains p = false) ∧
      (a.toBool? = none ↔ (∃ p, a.contains p = true) ∧ ∃ p, a.contains p = false) := by
  constructor
  · intro a b ha hb h
    refine eq_of_points_eq (isCanonical_iff.mp ha) (isCanonical_iff.mp hb) (Set.ext fun p => ?_)
    rw [← contains_iff, ← contains_iff, h]
  · intro a ha
    have hfull := eq_everything_iff (isCanonical_iff.mp ha)
    obtain ⟨htrue, hfalse, hopen⟩ := toBool?_iff a
    refine ⟨htrue.trans hfull, hfalse.trans eq_empty_iff, ?_⟩
    rw [hopen, Ne, Ne, eq_empty_iff, hfull, not_forall, not_forall]
    simp only [Bool.not_eq_false, Bool.not_eq_true]

/-- All but `3`, with an open verdict. Two halves that touch hold every position, but they
are not canonical, and the verdict on them is open too. -/
theorem canonical_unique_at_three :
    let apart : IntervalList := [.lessThan 3, .greaterThan 3]
    let touching : IntervalList := [.lessThan 3, .atLeast 3]
    (apart.isCanonical = true ∧ apart = ofComparison .ne 3 ∧ apart.toBool? = none) ∧
      touching.isCanonical = false ∧ (∀ p, touching.contains p = true) ∧
      touching.toBool? = none := by
  intro apart touching
  have hcan : apart.isCanonical = true := by decide
  have hne : (ofComparison .ne 3).isCanonical = true := by decide
  obtain ⟨hunique, hverdict⟩ := canonical_unique
  obtain ⟨-, -, hopen⟩ := hverdict apart hcan
  have hin : apart.contains (.finite 0 .exact) = true := by decide
  have hout : apart.contains (.finite 3 .exact) = false := by decide
  refine ⟨⟨hcan, hunique apart _ hcan hne fun p => rfl, hopen.mpr ⟨⟨_, hin⟩, ⟨_, hout⟩⟩⟩,
    by decide, fun p => ?_, by decide⟩
  rcases le_or_gt p (.finite 3 .below) with hp | hp
  · exact mem_points.mpr ⟨_, List.mem_cons_self, Bound.negInf_le p, hp⟩
  · have hp : .finite 3 .exact ≤ p := (Bound.next_le_iff rfl p).mpr hp
    exact mem_points.mpr ⟨.atLeast 3, by simp [touching], hp, Bound.le_posInf p⟩

end IntervalList
end Foregone
