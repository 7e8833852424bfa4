import Mathlib.Order.BooleanAlgebra.Set
import Foregone.Proofs.ListOperations

/-! # The Boolean algebra of canonical lists

Canonical lists and sets of positions determine each other, and the operations on
lists are those on sets. So canonical lists are a Boolean algebra, not only up to the
set they stand for but as lists, and every law of Boolean algebras can be read off as
an equation between returned lists. -/

namespace Foregone
open IntervalList (points_intersect points_union pairwise_intersect pairwise_union
  sorted_of_pairwise eq_of_points_eq exists_complement isCanonical_iff)

/-- A list of intervals any two of which are apart. -/
@[ext] structure CanonicalList where
  list : IntervalList
  pairwise : list.Pairwise Interval.Apart

namespace CanonicalList

def points (a : CanonicalList) : Set Bound := a.list.points

theorem points_injective : Function.Injective points := by
  rintro ⟨a, ha⟩ ⟨b, hb⟩ h
  cases eq_of_points_eq ha hb h
  rfl

instance : Min CanonicalList := ⟨fun a b => ⟨_, pairwise_intersect a.pairwise b.pairwise⟩⟩

instance : Max CanonicalList :=
  ⟨fun a b => ⟨_, pairwise_union (sorted_of_pairwise a.pairwise) (sorted_of_pairwise b.pairwise)⟩⟩

instance : Bot CanonicalList := ⟨⟨.empty, List.Pairwise.nil⟩⟩

instance : Top CanonicalList := ⟨⟨.everything, List.pairwise_singleton _ _⟩⟩

/-- The complement of a canonical list; the failing branch is never taken. -/
def complement (a : CanonicalList) : CanonicalList :=
  match h : a.list.complement with
  | .ok c => ⟨c, by
      obtain ⟨c', hc', hpair, -⟩ := exists_complement a.pairwise
      cases h.symm.trans hc'
      exact hpair⟩
  | .error _ => ⊥

instance : Compl CanonicalList := ⟨complement⟩

instance : SDiff CanonicalList := ⟨fun a b => a ⊓ bᶜ⟩

instance : HImp CanonicalList := ⟨fun a b => b ⊔ aᶜ⟩

instance : LE CanonicalList := ⟨fun a b => a.points ⊆ b.points⟩

instance : LT CanonicalList := ⟨fun a b => a ≤ b ∧ ¬ b ≤ a⟩

theorem list_inf (a b : CanonicalList) : (a ⊓ b).list = a.list.intersect b.list := rfl

theorem list_sup (a b : CanonicalList) : (a ⊔ b).list = a.list.union b.list := rfl

/-- Taking the complement succeeds, with the complement of the algebra. -/
theorem complement_list (a : CanonicalList) : a.list.complement = .ok aᶜ.list := by
  obtain ⟨c, hok, -, -⟩ := exists_complement a.pairwise
  change a.list.complement = .ok a.complement.list
  unfold complement
  split
  · assumption
  · rename_i he
    cases he.symm.trans hok

theorem points_inf (a b : CanonicalList) : (a ⊓ b).points = a.points ∩ b.points :=
  points_intersect a.pairwise b.pairwise

theorem points_sup (a b : CanonicalList) : (a ⊔ b).points = a.points ∪ b.points :=
  points_union (sorted_of_pairwise a.pairwise) (sorted_of_pairwise b.pairwise)

theorem points_bot : (⊥ : CanonicalList).points = ∅ := IntervalList.points_nil

theorem points_top : (⊤ : CanonicalList).points = Set.univ := IntervalList.points_everything

theorem points_compl (a : CanonicalList) : aᶜ.points = a.pointsᶜ := by
  obtain ⟨c, hok, -, hc⟩ := exists_complement a.pairwise
  cases (complement_list a).symm.trans hok
  exact hc

instance : BooleanAlgebra CanonicalList :=
  points_injective.booleanAlgebra points Iff.rfl Iff.rfl points_sup points_inf points_top
    points_bot points_compl
    (fun a b => by rw [sdiff_eq, ← points_compl]; exact points_inf a bᶜ)
    (fun a b => by rw [himp_eq, ← points_compl]; exact points_sup b aᶜ)

end CanonicalList

namespace IntervalList

/-- Canonical lists satisfy the laws of a Boolean algebra as lists: `intersect` and
`union` with the identities `everything` and `empty`, and `complement`, which succeeds
on every canonical list. -/
theorem canonical_booleanAlgebra {a b c : IntervalList} (ha : a.isCanonical = true)
    (hb : b.isCanonical = true) (hc : c.isCanonical = true) :
    (intersect a b = intersect b a ∧ union a b = union b a) ∧
    (intersect (intersect a b) c = intersect a (intersect b c) ∧
      union (union a b) c = union a (union b c)) ∧
    (intersect a a = a ∧ union a a = a) ∧
    (intersect a (union a b) = a ∧ union a (intersect a b) = a) ∧
    (intersect a (union b c) = union (intersect a b) (intersect a c) ∧
      union a (intersect b c) = intersect (union a b) (union a c)) ∧
    (intersect a everything = a ∧ union a empty = a) ∧
    ∃ a' b', complement a = .ok a' ∧ complement b = .ok b' ∧
      complement a' = .ok a ∧
      (intersect a a' = empty ∧ union a a' = everything) ∧
      complement (union a b) = .ok (intersect a' b') ∧
      complement (intersect a b) = .ok (union a' b') := by
  let A : CanonicalList := ⟨a, isCanonical_iff.mp ha⟩
  let B : CanonicalList := ⟨b, isCanonical_iff.mp hb⟩
  let C : CanonicalList := ⟨c, isCanonical_iff.mp hc⟩
  have lists {x y : CanonicalList} (h : x = y) : x.list = y.list := congrArg _ h
  refine ⟨⟨lists (inf_comm A B), lists (sup_comm A B)⟩,
    ⟨lists (inf_assoc A B C), lists (sup_assoc A B C)⟩,
    ⟨lists (inf_idem A), lists (sup_idem A)⟩,
    ⟨lists (inf_sup_self (a := A) (b := B)), lists (sup_inf_self (a := A) (b := B))⟩,
    ⟨lists (inf_sup_left A B C), lists (sup_inf_left A B C)⟩,
    ⟨lists (inf_top_eq A), lists (sup_bot_eq A)⟩,
    Aᶜ.list, Bᶜ.list, A.complement_list, B.complement_list, ?_,
    ⟨lists (inf_compl_self A), lists (sup_compl_eq_top (x := A))⟩, ?_, ?_⟩
  · rw [Aᶜ.complement_list, compl_compl A]
  · exact (A ⊔ B).complement_list.trans (by rw [compl_sup, CanonicalList.list_inf])
  · exact (A ⊓ B).complement_list.trans (by rw [compl_inf, CanonicalList.list_sup])

/-- The laws at three lists that meet at `3`: two halves without it, and one that starts
with it. -/
theorem canonical_booleanAlgebra_at_three :
    (ofComparison .ne 3).isCanonical = true ∧ (ofComparison .lt 5).isCanonical = true ∧
    (ofComparison .ge 3).isCanonical = true ∧
    intersect (ofComparison .ne 3) (union (ofComparison .lt 5) (ofComparison .ge 3)) =
      union (intersect (ofComparison .ne 3) (ofComparison .lt 5))
        (intersect (ofComparison .ne 3) (ofComparison .ge 3)) := by
  have hne : (ofComparison .ne 3).isCanonical = true := by decide
  have hlt : (ofComparison .lt 5).isCanonical = true := by decide
  have hge : (ofComparison .ge 3).isCanonical = true := by decide
  obtain ⟨-, -, -, -, ⟨hdistrib, -⟩, -⟩ := canonical_booleanAlgebra hne hlt hge
  exact ⟨hne, hlt, hge, hdistrib⟩

end IntervalList
end Foregone
