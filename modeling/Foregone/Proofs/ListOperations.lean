import Foregone.Proofs.CanonicalList

/-! # Intersection, union and complement of interval lists

Each operation is exact on positions and gives a canonical list: `intersect` and
`complement` on canonical lists, `union` on any two lists sorted by low bound.
`complement` never fails on a canonical list. -/

namespace Foregone.IntervalList
open Foregone.Interval (Apart)

/-! ## Intersection -/

theorem mem_points_overlap {x y : Interval} {p : Bound} :
    p ∈ points (x.overlap? y).toList ↔
      (x.low ≤ p ∧ p ≤ x.high) ∧ (y.low ≤ p ∧ p ≤ y.high) := by
  unfold Interval.overlap?
  split
  · simp only [Option.toList_some, mem_points_cons, points_nil, Set.mem_empty_iff_false,
      or_false, max_le_iff, le_min_iff]
    grind
  · rename_i hne
    simp only [Option.toList_none, points_nil, Set.mem_empty_iff_false, false_iff]
    rintro ⟨hx, hy⟩
    exact hne ((max_le hx.1 hy.1).trans (le_min hx.2 hy.2))

/-- What is left of the first list after its head holds nothing up to the head's end. -/
theorem not_mem_of_le_high {x : Interval} {a : IntervalList} (h : (x :: a).Pairwise Apart)
    {p : Bound} (hp : p ≤ x.high) : p ∉ points a :=
  fun hm => not_le_of_gt (high_lt_of_mem_points h hm) hp

theorem points_intersect {a b : IntervalList} (ha : a.Pairwise Apart) (hb : b.Pairwise Apart) :
    points (intersect a b) = points a ∩ points b := by
  ext p
  rw [Set.mem_inter_iff]
  fun_induction intersect a b with
  | case1 => simp
  | case2 => simp
  | case3 x xs y ys ihx ihy ihxy =>
    obtain ⟨-, hxs⟩ := List.pairwise_cons.mp ha
    obtain ⟨-, hys⟩ := List.pairwise_cons.mp hb
    rw [mem_points_append, mem_points_overlap]
    split
    · rename_i hlt
      have hy : p ≤ x.high → p ∉ points ys :=
        fun hp => not_mem_of_le_high hb (hp.trans hlt.le)
      rw [ihx hxs hb, mem_points_cons, mem_points_cons]
      grind
    · rename_i hxy
      split
      · rename_i hlt
        have hx : p ≤ y.high → p ∉ points xs :=
          fun hp => not_mem_of_le_high ha (hp.trans hlt.le)
        rw [ihy ha hys, mem_points_cons, mem_points_cons]
        grind
      · rename_i hyx
        have hx : p ≤ y.high → p ∉ points xs :=
          fun hp => not_mem_of_le_high ha (hp.trans (not_lt.mp hxy))
        have hy : p ≤ x.high → p ∉ points ys :=
          fun hp => not_mem_of_le_high hb (hp.trans (not_lt.mp hyx))
        rw [ihxy hxs hys, mem_points_cons, mem_points_cons]
        grind

theorem overlap_bounds {x y i : Interval} (h : i ∈ (x.overlap? y).toList) :
    x.low ≤ i.low ∧ y.low ≤ i.low ∧ i.high ≤ x.high ∧ i.high ≤ y.high := by
  rw [Option.mem_toList, Interval.overlap?] at h
  split at h
  · cases h
    exact ⟨le_max_left _ _, le_max_right _ _, min_le_left _ _, min_le_right _ _⟩
  · cases h

/-- Every common interval starts inside an interval of each list. -/
theorem low_le_of_mem_intersect {a b : IntervalList} :
    ∀ i ∈ intersect a b, (∃ x ∈ a, x.low ≤ i.low) ∧ ∃ y ∈ b, y.low ≤ i.low := by
  fun_induction intersect a b with
  | case1 => simp
  | case2 => simp
  | case3 x xs y ys ihx ihy ihxy =>
    intro i hi
    rcases List.mem_append.mp hi with hi | hi
    · obtain ⟨hx, hy, -⟩ := overlap_bounds hi
      exact ⟨⟨x, List.mem_cons_self, hx⟩, y, List.mem_cons_self, hy⟩
    · have hsub : (∃ x' ∈ x :: xs, x'.low ≤ i.low) ∧ ∃ y' ∈ y :: ys, y'.low ≤ i.low := by
        split at hi
        · obtain ⟨⟨x', hx, hl⟩, hy⟩ := ihx i hi
          exact ⟨⟨x', List.mem_cons_of_mem _ hx, hl⟩, hy⟩
        · split at hi
          · obtain ⟨hx, y', hy, hl⟩ := ihy i hi
            exact ⟨hx, y', List.mem_cons_of_mem _ hy, hl⟩
          · obtain ⟨⟨x', hx, hl⟩, y', hy, hm⟩ := ihxy i hi
            exact ⟨⟨x', List.mem_cons_of_mem _ hx, hl⟩, y', List.mem_cons_of_mem _ hy, hm⟩
      exact hsub

/-- An overlap, followed by intervals that all start inside the tail of one list. -/
theorem pairwise_overlap_append {x y z : Interval} {zs c : IntervalList}
    (hz : (z :: zs).Pairwise Apart) (hc : c.Pairwise Apart)
    (hs : ∀ i ∈ c, ∃ w ∈ zs, w.low ≤ i.low)
    (hh : ∀ i ∈ (x.overlap? y).toList, i.high ≤ z.high) :
    ((x.overlap? y).toList ++ c).Pairwise Apart := by
  refine List.pairwise_append.mpr ⟨?_, hc, ?_⟩
  · cases x.overlap? y with
    | none => exact List.Pairwise.nil
    | some i => exact List.pairwise_singleton _ _
  · intro i hi j hj
    obtain ⟨w, hw, hl⟩ := hs j hj
    exact (List.rel_of_pairwise_cons hz hw).mono (hh i hi) hl

theorem pairwise_intersect {a b : IntervalList} (ha : a.Pairwise Apart) (hb : b.Pairwise Apart) :
    (intersect a b).Pairwise Apart := by
  fun_induction intersect a b with
  | case1 => exact List.Pairwise.nil
  | case2 => exact List.Pairwise.nil
  | case3 x xs y ys ihx ihy ihxy =>
    obtain ⟨-, hxs⟩ := List.pairwise_cons.mp ha
    obtain ⟨-, hys⟩ := List.pairwise_cons.mp hb
    split
    · exact pairwise_overlap_append ha (ihx hxs hb)
        (fun i hi => (low_le_of_mem_intersect i hi).1) (fun i hi => (overlap_bounds hi).2.2.1)
    · split
      · exact pairwise_overlap_append hb (ihy ha hys)
          (fun i hi => (low_le_of_mem_intersect i hi).2) (fun i hi => (overlap_bounds hi).2.2.2)
      · exact pairwise_overlap_append ha (ihxy hxs hys)
          (fun i hi => (low_le_of_mem_intersect i hi).1) (fun i hi => (overlap_bounds hi).2.2.1)

/-- The walk over two canonical lists gives a canonical list that holds exactly the
positions both hold, infinities and edges included. -/
theorem intersect_exact {a b : IntervalList} (ha : a.isCanonical = true)
    (hb : b.isCanonical = true) :
    (intersect a b).isCanonical = true ∧
      ∀ p, (intersect a b).contains p = (a.contains p && b.contains p) := by
  rw [isCanonical_iff] at ha hb
  constructor
  · exact isCanonical_iff.mpr (pairwise_intersect ha hb)
  · intro p
    rw [Bool.eq_iff_iff, Bool.and_eq_true, contains_iff, contains_iff, contains_iff,
      points_intersect ha hb, Set.mem_inter_iff]

/-- All but `3`, and `0` with the numbers from `3` on: the walk drops an interval on either
side, and in the end both lists stop at `+∞`. -/
theorem intersect_exact_at_three :
    let a : IntervalList := [.lessThan 3, .greaterThan 3]
    let b : IntervalList := [.point 0, .atLeast 3]
    a.isCanonical = true ∧ b.isCanonical = true ∧ (intersect a b).isCanonical = true ∧
      (intersect a b).contains (.finite 3 .exact) = false ∧
      (intersect a b).contains (.finite 3 .above) = true := by
  intro a b
  have ha : a.isCanonical = true := by decide
  have hb : b.isCanonical = true := by decide
  obtain ⟨hc, hp⟩ := intersect_exact ha hb
  refine ⟨ha, hb, hc, ?_, ?_⟩
  · rw [hp]
    decide
  · rw [hp]
    decide

/-! ## Union -/

/-- Ordered by low bound; overlaps are allowed. -/
def Sorted (a : IntervalList) : Prop := a.Pairwise fun x y => x.low ≤ y.low

instance (a : IntervalList) : Decidable (Sorted a) :=
  inferInstanceAs (Decidable (a.Pairwise fun x y => x.low ≤ y.low))

theorem sorted_of_pairwise {a : IntervalList} (h : a.Pairwise Apart) : Sorted a :=
  h.imp fun {x _} hxy => x.low_le_high.trans hxy.lt.le

/-- An interval that overlaps or touches `x` and starts no earlier fills up the
stretched interval. -/
theorem mem_extend_iff {x y : Interval} {p : Bound} (hl : x.low ≤ y.low)
    (hj : y.low ≤ x.high ∨ x.high.touches y.low = true) :
    ((x.extend y).low ≤ p ∧ p ≤ (x.extend y).high) ↔
      (x.low ≤ p ∧ p ≤ x.high) ∨ (y.low ≤ p ∧ p ≤ y.high) := by
  have hcover : p ≤ x.high ∨ y.low ≤ p := by
    by_contra hn
    rw [not_or, not_le, not_le] at hn
    have hgap := (Bound.exists_between_iff x.high_isHigh).mpr ⟨p, hn⟩
    rcases hj with hj | hj
    · exact not_le_of_gt hgap.1 hj
    · rw [hgap.2] at hj
      cases hj
  have hxy : y.low ≤ p → x.low ≤ p := hl.trans
  change (x.low ≤ p ∧ p ≤ max x.high y.high) ↔ _
  rw [le_max_iff]
  grind

theorem Sorted.extend {x y : Interval} {a : IntervalList} (h : Sorted (x :: y :: a)) :
    Sorted (x.extend y :: a) := by
  obtain ⟨hx, hy⟩ := List.pairwise_cons.mp h
  exact List.pairwise_cons.mpr
    ⟨fun z hz => hx z (List.mem_cons_of_mem _ hz), (List.pairwise_cons.mp hy).2⟩

/-- Nothing that `absorb` returns starts before the interval it begins with. -/
theorem low_le_of_mem_absorb {x : Interval} {a : IntervalList} (hs : Sorted (x :: a)) :
    ∀ i ∈ absorb x a, x.low ≤ i.low := by
  fun_induction absorb x a with
  | case1 x => simp
  | case2 x y ys _ ih => exact ih hs.extend
  | case3 x y ys _ ih =>
    obtain ⟨hx, hys⟩ := List.pairwise_cons.mp hs
    intro i hi
    rcases List.mem_cons.mp hi with rfl | hi
    · exact le_rfl
    · exact (hx y List.mem_cons_self).trans (ih hys i hi)

theorem points_absorb {x : Interval} {a : IntervalList} (hs : Sorted (x :: a)) :
    points (absorb x a) = points (x :: a) := by
  fun_induction absorb x a with
  | case1 x => rfl
  | case2 x y ys hj ih =>
    have hxy : x.low ≤ y.low := List.rel_of_pairwise_cons hs List.mem_cons_self
    ext p
    rw [ih hs.extend, mem_points_cons, mem_extend_iff hxy hj, mem_points_cons, mem_points_cons,
      or_assoc]
  | case3 x y ys _ ih =>
    ext p
    rw [mem_points_cons, ih (List.pairwise_cons.mp hs).2, mem_points_cons (x := x)]

theorem pairwise_absorb {x : Interval} {a : IntervalList} (hs : Sorted (x :: a)) :
    (absorb x a).Pairwise Apart := by
  fun_induction absorb x a with
  | case1 x => exact List.pairwise_singleton _ _
  | case2 x y ys _ ih => exact ih hs.extend
  | case3 x y ys hj ih =>
    obtain ⟨hx, hys⟩ := List.pairwise_cons.mp hs
    rw [not_or, not_le, Bool.not_eq_true] at hj
    have hxy : Apart x y := Interval.apart_iff.mpr hj
    refine List.pairwise_cons.mpr ⟨fun i hi => ?_, ih hys⟩
    exact hxy.mono le_rfl (low_le_of_mem_absorb hys i hi)

theorem sorted_merge {a b : IntervalList} (ha : Sorted a) (hb : Sorted b) :
    Sorted (a.merge b fun x y => decide (x.low ≤ y.low)) := by
  have h := @List.pairwise_merge Interval (fun x y => decide (x.low ≤ y.low))
    (fun x y z => by simpa using le_trans) (fun x y => by simpa using le_total x.low y.low) a b
    (by simpa [Sorted] using ha) (by simpa [Sorted] using hb)
  simpa [Sorted] using h

theorem points_union {a b : IntervalList} (ha : Sorted a) (hb : Sorted b) :
    points (union a b) = points a ∪ points b := by
  have hm : points (a.merge b fun x y => decide (x.low ≤ y.low)) = points a ∪ points b := by
    ext p
    simp only [mem_points, List.mem_merge, Set.mem_union, or_and_right, exists_or]
  have hs := sorted_merge ha hb
  unfold union
  cases hc : a.merge b fun x y => decide (x.low ≤ y.low) with
  | nil => rw [← hm, hc]
  | cons x c =>
    rw [hc] at hs
    rw [← hm, hc]
    exact points_absorb hs

theorem pairwise_union {a b : IntervalList} (ha : Sorted a) (hb : Sorted b) :
    (union a b).Pairwise Apart := by
  have hs := sorted_merge ha hb
  unfold union
  cases hc : a.merge b fun x y => decide (x.low ≤ y.low) with
  | nil => exact List.Pairwise.nil
  | cons x c =>
    rw [hc] at hs
    exact pairwise_absorb hs

/-- Every canonical list is sorted by low bound, and out of any two lists so sorted, with
whatever overlaps inside them, `union` makes a canonical list that holds exactly the
positions one of them holds. -/
theorem union_exact :
    (∀ a : IntervalList, a.isCanonical = true → Sorted a) ∧
    ∀ a b : IntervalList, Sorted a → Sorted b →
      (union a b).isCanonical = true ∧
        ∀ p, (union a b).contains p = (a.contains p || b.contains p) := by
  constructor
  · intro a ha
    exact sorted_of_pairwise (isCanonical_iff.mp ha)
  · intro a b ha hb
    constructor
    · exact isCanonical_iff.mpr (pairwise_union ha hb)
    · intro p
      rw [Bool.eq_iff_iff, Bool.or_eq_true, contains_iff, contains_iff, contains_iff,
        points_union ha hb, Set.mem_union]

/-- The first list holds a point twice and goes on where its first interval ends, and the
second list touches itself; between the two `4` is left out. -/
theorem union_exact_overlapping :
    let a : IntervalList := [.lessThan 3, .point 1, .point 3]
    let b : IntervalList := [.point 5, .greaterThan 5]
    a.isCanonical = false ∧ Sorted a ∧ Sorted b ∧ (union a b).isCanonical = true ∧
      (union a b).contains (.finite 3 .exact) = true ∧
      (union a b).contains (.finite 4 .exact) = false := by
  intro a b
  have ha : Sorted a := by decide
  have hb : Sorted b := by decide
  obtain ⟨hc, hp⟩ := union_exact.2 a b ha hb
  refine ⟨by decide, ha, hb, hc, ?_, ?_⟩
  · rw [hp]
    decide
  · rw [hp]
    decide

/-! ## Complement -/

theorem ofBounds_eq_ok {low high : Bound} (hle : low ≤ high) (hl : low.isLow = true)
    (hh : high.isHigh = true) :
    Interval.ofBounds low high = .ok ⟨low, high, hle, hl, hh⟩ := by
  have hlow : low ≠ .posInf := by rintro rfl; cases hl
  have hhigh : high ≠ .negInf := by rintro rfl; cases hh
  simp [Interval.ofBounds, hle, hl, hh, hlow, hhigh]

/-- What the gaps from `start` on are: canonical, not before `start`, and made of the
positions from there on that the list leaves out. -/
structure GapsFrom (start : Bound) (a gaps : IntervalList) : Prop where
  pairwise : gaps.Pairwise Apart
  start_le : ∀ i ∈ gaps, start ≤ i.low
  mem_iff : ∀ p, p ∈ points gaps ↔ start ≤ p ∧ p ∉ points a

theorem gapBefore_eq_ok {g : Bound} {i : Interval} (hg : g.isLow = true) (hlt : g < i.low) :
    ∃ gap : Interval, gapBefore (some g) i = .ok [gap] ∧ gap.low = g ∧
      ∀ p, p ≤ gap.high ↔ p < i.low := by
  have hne : i.low ≠ .negInf := fun he => Bound.not_lt_negInf g (he ▸ hlt)
  obtain ⟨h, hb, hh, hle⟩ := Bound.exists_justBelow i.low_isLow hne
  refine ⟨⟨g, h, (hle g).mpr hlt, hg, hh⟩, ?_, rfl, hle⟩
  simp only [gapBefore, hne, if_false, hb, ofBounds_eq_ok ((hle g).mpr hlt) hg hh]
  rfl

/-- After an interval that reaches `+∞` nothing follows, and after any other one the
gaps go on right behind it. -/
theorem gapAfter_cases {i : Interval} {a : IntervalList} (h : (i :: a).Pairwise Apart) :
    (gapAfter i = .ok none ∧ i.high = .posInf ∧ a = []) ∨
      ∃ g, gapAfter i = .ok (some g) ∧ g.isLow = true ∧ (∀ p, g ≤ p ↔ i.high < p) ∧
        ∀ j ∈ a, g < j.low := by
  by_cases hi : i.high = .posInf
  · refine .inl ⟨by simp [gapAfter, hi], hi, ?_⟩
    cases a with
    | nil => rfl
    | cons j a =>
      have hlt := (List.rel_of_pairwise_cons h List.mem_cons_self).lt
      exact (Bound.not_posInf_lt _ (hi ▸ hlt)).elim
  · obtain ⟨g, ha, hg, hle⟩ := Bound.exists_justAbove i.high_isHigh hi
    refine .inr ⟨g, by simp [gapAfter, hi, ha], hg, hle, fun j hj => ?_⟩
    obtain ⟨p, hp, hpj⟩ := List.rel_of_pairwise_cons h hj
    exact ((hle p).mpr hp).trans_lt hpj

/-- The gap before an interval, in front of the gaps after it. -/
theorem GapsFrom.cons {g : Bound} {i gap : Interval} {a gaps : IntervalList}
    (h : (i :: a).Pairwise Apart) (hlow : gap.low = g) (hgap : ∀ p, p ≤ gap.high ↔ p < i.low)
    (hpair : gaps.Pairwise Apart) (hafter : ∀ j ∈ gaps, i.high < j.low)
    (hmem : ∀ p, p ∈ points gaps ↔ i.high < p ∧ p ∉ points a) :
    GapsFrom g (i :: a) (gap :: gaps) := by
  have hlt : gap.high < i.low := (hgap gap.high).mp le_rfl
  refine ⟨List.pairwise_cons.mpr ⟨fun j hj => ?_, hpair⟩, fun j hj => ?_, fun p => ?_⟩
  · exact ⟨i.low, hlt, i.low_le_high.trans_lt (hafter j hj)⟩
  · rcases List.mem_cons.mp hj with rfl | hj
    · exact hlow.ge
    · have hle := gap.low_le_high.trans (hlt.le.trans (i.low_le_high.trans (hafter j hj).le))
      exact hlow ▸ hle
  · have hg : i.high < p → g ≤ p := fun hp =>
      hlow ▸ gap.low_le_high.trans (hlt.le.trans (i.low_le_high.trans hp.le))
    have hi : p ∈ points a → i.high < p := high_lt_of_mem_points h
    have hip : i.high < p → ¬ p < i.low := fun hp hn =>
      not_le_of_gt (hp.trans hn) i.low_le_high
    rw [mem_points_cons, mem_points_cons, hmem, hlow, hgap, ← not_lt (a := i.high),
      ← not_lt (b := i.low)]
    grind

/-- From what is known of the gaps of the tail to the gaps behind the head. -/
theorem exists_gapsAfter {i : Interval} {a : IntervalList} (h : (i :: a).Pairwise Apart)
    (ih : ∀ g : Bound, g.isLow = true → (∀ j ∈ a, g < j.low) →
      ∃ gaps, gapsFrom (some g) a = .ok gaps ∧ GapsFrom g a gaps) :
    ∃ start gaps, gapAfter i = .ok start ∧ gapsFrom start a = .ok gaps ∧
      gaps.Pairwise Apart ∧ (∀ j ∈ gaps, i.high < j.low) ∧
      ∀ p, p ∈ points gaps ↔ i.high < p ∧ p ∉ points a := by
  rcases gapAfter_cases h with ⟨hs, hi, rfl⟩ | ⟨g, hs, hg, hle, hlt⟩
  · refine ⟨none, [], hs, rfl, List.Pairwise.nil, by simp, fun p => ?_⟩
    simp [hi, Bound.not_posInf_lt]
  · obtain ⟨gaps, hok, hgaps⟩ := ih g hg hlt
    refine ⟨some g, gaps, hs, hok, hgaps.pairwise, fun j hj => ?_, fun p => ?_⟩
    · exact (hle j.low).mp (hgaps.start_le j hj)
    · rw [hgaps.mem_iff, hle]

theorem exists_gapsFrom {a : IntervalList} (h : a.Pairwise Apart) (g : Bound)
    (hg : g.isLow = true) (hlt : ∀ i ∈ a, g < i.low) :
    ∃ gaps, gapsFrom (some g) a = .ok gaps ∧ GapsFrom g a gaps := by
  induction a generalizing g with
  | nil =>
    refine ⟨[⟨g, .posInf, Bound.le_posInf g, hg, rfl⟩], ?_, ?_, ?_, ?_⟩
    · simp only [gapsFrom, ofBounds_eq_ok (Bound.le_posInf g) hg rfl]
      rfl
    · exact List.pairwise_singleton _ _
    · simp
    · intro p
      simp [Bound.le_posInf]
  | cons i a ih =>
    obtain ⟨gap, hbefore, hlow, hgap⟩ := gapBefore_eq_ok hg (hlt i List.mem_cons_self)
    obtain ⟨start, gaps, hafter, hok, hpair, hbeyond, hmem⟩ :=
      exists_gapsAfter h (ih (List.pairwise_cons.mp h).2)
    refine ⟨gap :: gaps, ?_, .cons h hlow hgap hpair hbeyond hmem⟩
    simp only [gapsFrom, hbefore, hafter, hok, bind, Except.bind]
    rfl

/-- A canonical list has a complement, which is canonical and exact. -/
theorem exists_complement {a : IntervalList} (h : a.Pairwise Apart) :
    ∃ c, complement a = .ok c ∧ c.Pairwise Apart ∧ points c = (points a)ᶜ := by
  have hmem : ∀ {c}, GapsFrom .negInf a c → points c = (points a)ᶜ := by
    intro c hc
    ext p
    rw [hc.mem_iff, Set.mem_compl_iff, and_iff_right (Bound.negInf_le p)]
  cases a with
  | nil =>
    obtain ⟨c, hok, hc⟩ := exists_gapsFrom h .negInf rfl (by simp)
    exact ⟨c, hok, hc.pairwise, hmem hc⟩
  | cons i a =>
    by_cases hi : i.low = .negInf
    · obtain ⟨start, gaps, hafter, hok, hpair, -, hp⟩ :=
        exists_gapsAfter h (exists_gapsFrom (List.pairwise_cons.mp h).2)
      refine ⟨gaps, ?_, hpair, ?_⟩
      · simp only [complement, gapsFrom, gapBefore, hi, if_true, hafter, hok, bind, Except.bind]
        rfl
      · ext p
        rw [hp, Set.mem_compl_iff, mem_points_cons, not_or, hi,
          and_iff_right (Bound.negInf_le p), not_le]
    · have hlt : ∀ j ∈ i :: a, Bound.negInf < j.low := by
        intro j hj
        have hle : i.low ≤ j.low := by
          rcases List.mem_cons.mp hj with rfl | hj
          · exact le_rfl
          · exact i.low_le_high.trans (List.rel_of_pairwise_cons h hj).lt.le
        exact lt_of_lt_of_le (lt_of_le_of_ne (Bound.negInf_le _) (Ne.symm hi)) hle
      obtain ⟨c, hok, hc⟩ := exists_gapsFrom h .negInf rfl hlt
      exact ⟨c, hok, hc.pairwise, hmem hc⟩

/-- On a canonical list `complement` succeeds, with a canonical list that holds exactly
the positions the list leaves out, infinities and edges included. -/
theorem complement_exact {a : IntervalList} (h : a.isCanonical = true) :
    ∃ c, complement a = .ok c ∧ c.isCanonical = true ∧ ∀ p, c.contains p = !a.contains p := by
  obtain ⟨c, hok, hpair, hpoints⟩ := exists_complement (isCanonical_iff.mp h)
  refine ⟨c, hok, isCanonical_iff.mpr hpair, fun p => ?_⟩
  have hp : c.contains p = true ↔ ¬ a.contains p = true := by
    change p ∈ points c ↔ p ∉ points a
    rw [hpoints, Set.mem_compl_iff]
  rw [Bool.eq_iff_iff, hp, Bool.not_eq_true', Bool.not_eq_true]

/-- Below `3`, `5` alone, and beyond `7`: the first and the last interval reach an infinity,
and one gap ends where the single point begins. -/
theorem complement_exact_three_intervals :
    let a : IntervalList := [.lessThan 3, .point 5, .greaterThan 7]
    a.isCanonical = true ∧ ∃ c, complement a = .ok c ∧ c.isCanonical = true ∧
      c.contains (.finite 5 .below) = true ∧ c.contains (.finite 5 .exact) = false := by
  intro a
  have ha : a.isCanonical = true := by decide
  obtain ⟨c, hok, hc, hp⟩ := complement_exact ha
  have hbelow : a.contains (.finite 5 .below) = false := by decide
  have hexact : a.contains (.finite 5 .exact) = true := by decide
  exact ⟨ha, c, hok, hc, by rw [hp, hbelow]; rfl, by rw [hp, hexact]; rfl⟩

end Foregone.IntervalList
