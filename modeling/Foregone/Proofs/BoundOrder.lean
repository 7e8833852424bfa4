import Mathlib.Order.Cover
import Mathlib.Order.MinMax
import Foregone.Interval

/-! # The order of positions

Positions are linearly ordered, so minima, maxima and strict comparisons are those
of Mathlib. Where one interval continues another is told three times over, each time by
the edges alone: by `touches`, by what `justAbove` gives for the end of the first and by
what `justBelow` gives for the start of the second. All three pick out the positions with
nothing in between. One kind of neighbours is left out: nothing lies between `v+` and
`(v + 1)-`, but no interval ends at the one or starts at the other. -/

namespace Foregone

theorem Edge.rank_le_two (e : Edge) : e.rank ≤ 2 := by
  cases e <;> decide

namespace Bound

theorem le_antisymm {a b : Bound} (hab : a ≤ b) (hba : b ≤ a) : a = b := by
  cases a with
  | negInf => cases b with
    | negInf => rfl
    | posInf => exact hba.elim
    | finite _ _ => exact hba.elim
  | posInf => cases b with
    | posInf => rfl
    | negInf => exact hab.elim
    | finite _ _ => exact hab.elim
  | finite v e => cases b with
    | negInf => exact hab.elim
    | posInf => exact hba.elim
    | finite w f =>
      rw [finite_le] at hab hba
      have hv : v = w := by omega
      have he : e.rank = f.rank := by omega
      subst hv
      cases e <;> cases f <;> first | rfl | cases he

instance : LinearOrder Bound where
  le_refl := le_refl
  le_trans _ _ _ := le_trans
  lt_iff_le_not_ge _ _ := ⟨fun h => ⟨le_of_lt h, h⟩, And.right⟩
  le_antisymm _ _ := le_antisymm
  le_total := le_total
  toDecidableLE := decLe
  toDecidableLT := decLt

theorem finite_lt {v w : Int} {e f : Edge} :
    finite v e < finite w f ↔ v < w ∨ v = w ∧ e.rank < f.rank := by
  change ¬ (w < v ∨ w = v ∧ f.rank ≤ e.rank) ↔ _
  omega

theorem negInf_lt_finite (v : Int) (e : Edge) : negInf < finite v e := fun h => h

theorem finite_lt_posInf (v : Int) (e : Edge) : finite v e < posInf := fun h => h

theorem not_posInf_lt (b : Bound) : ¬ posInf < b := fun h => h (le_posInf b)

theorem not_lt_negInf (b : Bound) : ¬ b < negInf := fun h => h (negInf_le b)

/-- Numbered from left to right, three to an integer, a position and the next one have
nothing between them. -/
theorem next_place_le_iff {v w : Int} {e f : Edge}
    (hn : 3 * w + (f.rank : Int) = 3 * v + e.rank + 1) (p : Bound) :
    finite w f ≤ p ↔ finite v e < p := by
  cases p with
  | negInf => exact ⟨False.elim, fun h => (not_lt_negInf _ h).elim⟩
  | posInf => exact ⟨fun _ => finite_lt_posInf v e, fun _ => le_posInf _⟩
  | finite x g =>
    rw [finite_le, finite_lt]
    have he := e.rank_le_two
    have hf := f.rank_le_two
    have hg := g.rank_le_two
    omega

/-- Two edges of one integer with nothing between them. -/
theorem next_le_iff {v : Int} {e f : Edge} (hr : f.rank = e.rank + 1) (p : Bound) :
    finite v f ≤ p ↔ finite v e < p :=
  next_place_le_iff (by omega) p

theorem le_prev_iff {v : Int} {e f : Edge} (hr : f.rank = e.rank + 1) (p : Bound) :
    p ≤ finite v e ↔ p < finite v f := by
  rw [← not_lt, ← next_le_iff hr, not_le]

/-- What lies right of one integer begins at the left edge of the next. -/
theorem next_integer_le_iff (v : Int) (p : Bound) :
    finite (v + 1) .below ≤ p ↔ finite v .above < p :=
  next_place_le_iff (by simp only [Edge.rank]; omega) p

/-! ## Steps -/

/-- Right after a high bound that is not `+∞` comes a low bound, with nothing in between. -/
theorem exists_justAbove {h : Bound} (hh : h.isHigh = true) (hne : h ≠ posInf) :
    ∃ g, h.justAbove = .ok g ∧ g.isLow = true ∧ ∀ p, g ≤ p ↔ h < p := by
  cases h with
  | negInf => cases hh
  | posInf => exact (hne rfl).elim
  | finite v e =>
    cases e with
    | below => exact ⟨finite v .exact, rfl, rfl, next_le_iff rfl⟩
    | exact => exact ⟨finite v .above, rfl, rfl, next_le_iff rfl⟩
    | above => cases hh

/-- Right before a low bound that is not `-∞` comes a high bound, with nothing in between. -/
theorem exists_justBelow {l : Bound} (hl : l.isLow = true) (hne : l ≠ negInf) :
    ∃ g, l.justBelow = .ok g ∧ g.isHigh = true ∧ ∀ p, p ≤ g ↔ p < l := by
  cases l with
  | negInf => exact (hne rfl).elim
  | posInf => cases hl
  | finite v e =>
    cases e with
    | below => cases hl
    | exact => exact ⟨finite v .below, rfl, rfl, le_prev_iff rfl⟩
    | above => exact ⟨finite v .exact, rfl, rfl, le_prev_iff rfl⟩

theorem touches_iff_justAbove {h l : Bound} : h.touches l = true ↔ h.justAbove = .ok l := by
  unfold touches justAbove
  split
  · simp
  · simp
  · rename_i hb he
    constructor
    · intro hf
      cases hf
    · intro ha
      split at ha
      · exact (he _ _ rfl (Except.ok.inj ha).symm).elim
      · exact (hb _ _ rfl (Except.ok.inj ha).symm).elim
      · cases ha

/-- A step down from a bound undoes the step up to it, and the other way round. -/
theorem justBelow_eq_ok_iff {h l : Bound} : l.justBelow = .ok h ↔ h.justAbove = .ok l := by
  constructor
  · intro hl
    unfold justBelow at hl
    split at hl
    · cases hl
      rfl
    · cases hl
      rfl
    · cases hl
  · intro hh
    unfold justAbove at hh
    split at hh
    · cases hh
      rfl
    · cases hh
      rfl
    · cases hh

/-! ## Neighbours -/

/-- A position with a next one has no other neighbour on its right. -/
theorem covBy_iff_eq {a g : Bound} (hg : ∀ p, g ≤ p ↔ a < p) {b : Bound} : a ⋖ b ↔ b = g := by
  constructor
  · intro hc
    have hgb : g ≤ b := (hg b).mpr hc.lt
    have hbg : b ≤ g := not_lt.mp (hc.2 ((hg g).mp le_rfl))
    exact le_antisymm hbg hgb
  · rintro rfl
    exact ⟨(hg b).mp le_rfl, fun p hp => not_lt_of_ge ((hg p).mpr hp)⟩

/-- Nothing comes right after `-∞`, as there is no first integer. -/
theorem not_negInf_covBy (b : Bound) : ¬ negInf ⋖ b := by
  intro hc
  cases b with
  | negInf => exact not_lt_negInf _ hc.lt
  | finite v e =>
    have hlt : finite (v - 1) e < finite v e := finite_lt.mpr (.inl (by omega))
    exact hc.2 (negInf_lt_finite _ _) hlt
  | posInf => exact hc.2 (negInf_lt_finite 0 .exact) (finite_lt_posInf 0 .exact)

/-- All neighbours there are: bounds that touch, and the edges that two successive
integers turn to each other. -/
theorem covBy_iff {a b : Bound} :
    a ⋖ b ↔ a.touches b = true ∨ ∃ v, a = finite v .above ∧ b = finite (v + 1) .below := by
  rw [touches_iff_justAbove]
  cases a with
  | negInf => simp [justAbove, not_negInf_covBy]
  | posInf =>
    have hnone : ¬ posInf ⋖ b := fun hc => not_posInf_lt b hc.lt
    simp [justAbove, hnone]
  | finite v e =>
    cases e with
    | below =>
      rw [covBy_iff_eq (next_le_iff (f := .exact) rfl)]
      simp [justAbove, eq_comm]
    | exact =>
      rw [covBy_iff_eq (next_le_iff (f := .above) rfl)]
      simp [justAbove, eq_comm]
    | above =>
      rw [covBy_iff_eq (next_integer_le_iff v)]
      simp [justAbove]

/-- Where an interval can end, its neighbours are the bounds it touches. -/
theorem touches_iff_covBy {h l : Bound} (hh : h.isHigh = true) :
    h.touches l = true ↔ h ⋖ l := by
  rw [covBy_iff, or_iff_left]
  rintro ⟨v, rfl, -⟩
  cases hh

/-- A high bound and a low bound right of it do not touch exactly when some position
lies between them. -/
theorem exists_between_iff {h l : Bound} (hh : h.isHigh = true) :
    (h < l ∧ h.touches l = false) ↔ ∃ p, h < p ∧ p < l := by
  rw [← Bool.not_eq_true, touches_iff_covBy hh]
  constructor
  · rintro ⟨hl, ht⟩
    exact (not_covBy_iff hl).mp ht
  · rintro ⟨p, hp, hl⟩
    exact ⟨hp.trans hl, fun hc => hc.2 hp hl⟩

/-- The rules for bounds describe one adjacency. An end and a start right of it touch
exactly when no position lies between them, and when either is one step from the other.
The step down from a start is an end, and the greatest position below it; the step up from
an end is a start, and the least position above it. -/
theorem adjacency_exact :
    (∀ h l : Bound, h.isHigh = true → l.isLow = true → h < l →
      (h.touches l = true ↔ Set.Ioo h l = ∅) ∧
      (h.touches l = true ↔ h.justAbove = .ok l) ∧
      (h.touches l = true ↔ l.justBelow = .ok h)) ∧
    (∀ v e, (finite v e).isLow = true → ∃ g, (finite v e).justBelow = .ok g ∧
      g.isHigh = true ∧ IsGreatest (Set.Iio (finite v e)) g) ∧
    ∀ v e, (finite v e).isHigh = true → ∃ g, (finite v e).justAbove = .ok g ∧
      g.isLow = true ∧ IsLeast (Set.Ioi (finite v e)) g := by
  refine ⟨fun h l hh _ hlt => ?_, fun v e hl => ?_, fun v e hh => ?_⟩
  · have hgap : h ⋖ l ↔ Set.Ioo h l = ∅ := by
      rw [covBy_iff_Ioo_eq, and_iff_right hlt]
    exact ⟨(touches_iff_covBy hh).trans hgap, touches_iff_justAbove,
      touches_iff_justAbove.trans justBelow_eq_ok_iff.symm⟩
  · obtain ⟨g, hg, hhigh, hle⟩ := exists_justBelow hl nofun
    exact ⟨g, hg, hhigh, (hle g).mp le_rfl, fun p hp => (hle p).mpr hp⟩
  · obtain ⟨g, hg, hlow, hle⟩ := exists_justAbove hh nofun
    exact ⟨g, hg, hlow, (hle g).mp le_rfl, fun p hp => (hle p).mpr hp⟩

/-- `3)` and `(3` do not touch, since `3` lies between them: one step up from the first
and one step down from the second. `3]` and `(3` do. -/
theorem adjacency_exact_at_three :
    let stop := finite 3 .below
    let start := finite 3 .above
    (stop < start ∧ stop.touches start = false ∧ (Set.Ioo stop start).Nonempty) ∧
      (start.justBelow = .ok (finite 3 .exact) ∧ IsGreatest (Set.Iio start) (finite 3 .exact)) ∧
      (stop.justAbove = .ok (finite 3 .exact) ∧ IsLeast (Set.Ioi stop) (finite 3 .exact)) ∧
      Set.Ioo (finite 3 .exact) start = ∅ := by
  intro stop start
  have hlt : stop < start := by decide
  have hnext : finite 3 .exact < start := by decide
  obtain ⟨htouch, hbelow, habove⟩ := adjacency_exact
  obtain ⟨hgap, -, -⟩ := htouch stop start rfl rfl hlt
  obtain ⟨hjoin, -, -⟩ := htouch (finite 3 .exact) start rfl rfl hnext
  obtain ⟨g, hg, -, hgreatest⟩ := hbelow 3 .above rfl
  obtain ⟨k, hk, -, hleast⟩ := habove 3 .below rfl
  cases hg
  cases hk
  refine ⟨⟨hlt, rfl, ?_⟩, ⟨rfl, hgreatest⟩, ⟨rfl, hleast⟩, hjoin.mp rfl⟩
  rw [Set.nonempty_iff_ne_empty]
  intro hempty
  cases hgap.mpr hempty

end Bound
end Foregone
