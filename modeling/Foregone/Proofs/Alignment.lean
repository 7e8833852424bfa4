import Foregone.Proofs.Proper

/-! # What two conditions say about each name

Entries with increasing names are a finite map, given by `lookup`: they are equal when
they have the same members, and `align` lists for each name what the two maps say about
it. So a join can be computed name by name, in any way that asks both maps. -/

namespace Foregone.Constraints

/-! ## Entries as a map -/

theorem lookup_eq_none_iff {es : Entries} {x : String} :
    es.lookup x = none ↔ x ∉ names es := by
  rw [List.lookup_eq_none_iff]
  constructor
  · intro h hx
    obtain ⟨e, he, rfl⟩ := List.mem_map.mp hx
    simpa using h e he
  · intro h e he
    simp only [bne_iff_ne, ne_eq]
    rintro rfl
    exact h (mem_names_of_mem he)

theorem mem_names_of_lookup {es : Entries} {x : String} {r : IntervalList}
    (h : es.lookup x = some r) : x ∈ names es := by
  by_contra hn
  rw [lookup_eq_none_iff.mpr hn] at h
  cases h

theorem lookup_cons_of_ne {e : String × IntervalList} {es : Entries} {x : String}
    (h : x ≠ e.1) : List.lookup x (e :: es) = es.lookup x := by
  rw [List.lookup_cons, beq_false_of_ne h]

theorem lookup_eq_some_iff {es : Entries} (h : (names es).Pairwise (· < ·)) {x : String}
    {r : IntervalList} : es.lookup x = some r ↔ (x, r) ∈ es := by
  induction es with
  | nil => simp
  | cons e es ih =>
    obtain ⟨hlt, hes⟩ := List.pairwise_cons.mp h
    obtain ⟨y, q⟩ := e
    by_cases hx : x = y
    · subst hx
      have hn : (x, r) ∉ es := fun hm => lt_irrefl x (hlt x (mem_names_of_mem hm))
      simp [hn, eq_comm]
    · rw [lookup_cons_of_ne hx, ih hes]
      simp [hx]

/-- The first name has no second entry. -/
theorem lookup_head_eq_none {e : String × IntervalList} {es : Entries}
    (h : (names (e :: es)).Pairwise (· < ·)) : es.lookup e.1 = none :=
  lookup_eq_none_iff.mpr fun hm => lt_irrefl e.1 (List.rel_of_pairwise_cons h hm)

/-- A name before the first one has no entry. -/
theorem lookup_eq_none_of_lt {e : String × IntervalList} {es : Entries}
    (h : (names (e :: es)).Pairwise (· < ·)) {x : String} (hx : x < e.1) :
    List.lookup x (e :: es) = none := by
  refine lookup_eq_none_iff.mpr fun hm => ?_
  rcases List.mem_cons.mp hm with rfl | hm
  · exact lt_irrefl _ hx
  · exact lt_asymm hx (List.rel_of_pairwise_cons h hm)

theorem entries_ext {as bs : Entries} (ha : (names as).Pairwise (· < ·))
    (hb : (names bs).Pairwise (· < ·)) (h : ∀ x r, (x, r) ∈ as ↔ (x, r) ∈ bs) : as = bs := by
  have nodup {es : Entries} (hs : (names es).Pairwise (· < ·)) : es.Nodup :=
    hs.nodup.of_map Prod.fst
  refine List.Perm.eq_of_pairwise ?_ (List.pairwise_map.mp ha) (List.pairwise_map.mp hb)
    ((List.perm_ext_iff_of_nodup (nodup ha) (nodup hb)).mpr ?_)
  · intro e f _ _ hef hfe
    exact (lt_asymm hef hfe).elim
  · rintro ⟨x, r⟩
    exact h x r

/-! ## Alignment -/

/-- What the two sides say about a name together. -/
def Shared.ofSides? : Option IntervalList → Option IntervalList → Option Shared
  | some l, some r => some (.both l r)
  | some l, none => some (.left l)
  | none, some r => some (.right r)
  | none, none => none

/-- `align` lists each name once, with what the sides say about it. -/
theorem mem_align_iff {as bs : Entries} (ha : (names as).Pairwise (· < ·))
    (hb : (names bs).Pairwise (· < ·)) {z : String} {s : Shared} :
    (z, s) ∈ align as bs ↔ Shared.ofSides? (as.lookup z) (bs.lookup z) = some s := by
  fun_induction align as bs with
  | case1 bs =>
    have hright : Shared.ofSides? none (bs.lookup z) = (bs.lookup z).map .right := by
      cases bs.lookup z <;> rfl
    simp only [List.lookup_nil, hright, Option.map_eq_some_iff, lookup_eq_some_iff hb]
    simp [Prod.ext_iff]
  | case2 as _ =>
    have hleft : Shared.ofSides? (as.lookup z) none = (as.lookup z).map .left := by
      cases as.lookup z <;> rfl
    simp only [List.lookup_nil, hleft, Option.map_eq_some_iff, lookup_eq_some_iff ha]
    simp [Prod.ext_iff]
  | case3 x l as y r bs hxy ih =>
    obtain ⟨-, has⟩ := List.pairwise_cons.mp ha
    rw [List.mem_cons, ih has hb, Prod.mk.injEq]
    by_cases hz : z = x
    · subst hz
      simp [lookup_head_eq_none ha, lookup_eq_none_of_lt hb hxy, Shared.ofSides?, eq_comm]
    · simp [hz, lookup_cons_of_ne (e := (x, l)) hz]
  | case4 x l as y r bs _ hyx ih =>
    obtain ⟨-, hbs⟩ := List.pairwise_cons.mp hb
    rw [List.mem_cons, ih ha hbs, Prod.mk.injEq]
    by_cases hz : z = y
    · subst hz
      simp [lookup_head_eq_none hb, lookup_eq_none_of_lt ha hyx, Shared.ofSides?, eq_comm]
    · simp [hz, lookup_cons_of_ne (e := (y, r)) hz]
  | case5 x l as y r bs hxy hyx ih =>
    obtain rfl : x = y := le_antisymm (not_lt.mp hyx) (not_lt.mp hxy)
    obtain ⟨-, has⟩ := List.pairwise_cons.mp ha
    obtain ⟨-, hbs⟩ := List.pairwise_cons.mp hb
    rw [List.mem_cons, ih has hbs, Prod.mk.injEq]
    by_cases hz : z = x
    · subst hz
      simp [lookup_head_eq_none ha, lookup_head_eq_none hb, Shared.ofSides?, eq_comm]
    · simp [hz, lookup_cons_of_ne (e := (x, l)) hz, lookup_cons_of_ne (e := (x, r)) hz]

/-- The entries of two joined conditions, none of them dropped. -/
theorem mem_joined_iff {as bs : Entries} (ha : (names as).Pairwise (· < ·))
    (hb : (names bs).Pairwise (· < ·)) (c : Connective) {z : String} {r : IntervalList} :
    (z, r) ∈ (align as bs).map (combinedEntry c) ↔
      (Shared.ofSides? (as.lookup z) (bs.lookup z)).map (Shared.combined c) = some r := by
  simp only [List.mem_map, Option.map_eq_some_iff, ← mem_align_iff ha hb, Prod.exists]
  constructor
  · rintro ⟨x, s, hs, he⟩
    cases he
    exact ⟨s, hs, rfl⟩
  · rintro ⟨s, hs, rfl⟩
    exact ⟨z, s, hs, rfl⟩

end Foregone.Constraints
