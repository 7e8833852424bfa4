import Mathlib.Data.List.Sort
import Mathlib.Data.String.Basic
import Foregone.Constraints

/-! # Joining conditions name by name

`align` lists every name of either side once and in order, and `combineEntries` keeps
a part of that list: all of it, where every name is tainted. -/

namespace Foregone

namespace Names

theorem sorted_insert {x : String} {s : List String} (h : s.Pairwise (· < ·)) :
    (insert x s).Pairwise (· < ·) := by
  induction s with
  | nil => exact List.pairwise_singleton _ _
  | cons y ys ih =>
    obtain ⟨hy, hys⟩ := List.pairwise_cons.mp h
    simp only [insert]
    split
    · rename_i hxy
      refine List.pairwise_cons.mpr ⟨fun z hz => ?_, h⟩
      rcases List.mem_cons.mp hz with rfl | hz
      · exact hxy
      · exact hxy.trans (hy z hz)
    · rename_i hxy
      split
      · exact h
      · rename_i hne
        refine List.pairwise_cons.mpr ⟨fun z hz => ?_, ih hys⟩
        rcases mem_insert.mp hz with rfl | hz
        · exact lt_of_le_of_ne (not_lt.mp hxy) (Ne.symm hne)
        · exact hy z hz

theorem sorted_union {a b : List String} (h : b.Pairwise (· < ·)) :
    (union a b).Pairwise (· < ·) := by
  induction a with
  | nil => exact h
  | cons x xs ih => exact sorted_insert ih

end Names

namespace Constraints

/-- The names a list of entries speaks about. -/
def names (entries : Entries) : List String := entries.map Prod.fst

@[simp] theorem names_nil : names [] = [] := rfl

@[simp] theorem names_cons (e : String × IntervalList) (es : Entries) :
    names (e :: es) = e.1 :: names es := rfl

theorem mem_names_of_mem {e : String × IntervalList} {es : Entries} (h : e ∈ es) :
    e.1 ∈ names es := List.mem_map_of_mem h

/-! ## Alignment -/

/-- The sides that speak about a name, with what they say. -/
def Shared.FromSides (as bs : Entries) (x : String) : Shared → Prop
  | .left r => (x, r) ∈ as
  | .right r => (x, r) ∈ bs
  | .both l r => (x, l) ∈ as ∧ (x, r) ∈ bs

theorem Shared.FromSides.mono {as bs as' bs' : Entries} {x : String} {s : Shared}
    (h : s.FromSides as bs x) (ha : as ⊆ as') (hb : bs ⊆ bs') : s.FromSides as' bs' x := by
  cases s with
  | left r => exact ha h
  | right r => exact hb h
  | both l r => exact ⟨ha h.1, hb h.2⟩

theorem fromSides_of_mem_align {as bs : Entries} :
    ∀ e ∈ align as bs, e.2.FromSides as bs e.1 := by
  fun_induction align as bs with
  | case1 bs =>
    intro e he
    obtain ⟨b, hb, rfl⟩ := List.mem_map.mp he
    exact hb
  | case2 as _ =>
    intro e he
    obtain ⟨a, ha, rfl⟩ := List.mem_map.mp he
    exact ha
  | case3 x l as y r bs _ ih =>
    intro e he
    rcases List.mem_cons.mp he with rfl | he
    · exact List.mem_cons_self
    · exact (ih e he).mono (List.subset_cons_self _ _) (List.Subset.refl _)
  | case4 x l as y r bs _ _ ih =>
    intro e he
    rcases List.mem_cons.mp he with rfl | he
    · exact List.mem_cons_self
    · exact (ih e he).mono (List.Subset.refl _) (List.subset_cons_self _ _)
  | case5 x l as y r bs hxy hyx ih =>
    intro e he
    rcases List.mem_cons.mp he with rfl | he
    · have hx : x = y := le_antisymm (not_lt.mp hyx) (not_lt.mp hxy)
      exact ⟨List.mem_cons_self, hx ▸ List.mem_cons_self⟩
    · exact (ih e he).mono (List.subset_cons_self _ _) (List.subset_cons_self _ _)

theorem mem_names_align {as bs : Entries} {z : String} :
    z ∈ (align as bs).map Prod.fst ↔ z ∈ names as ∨ z ∈ names bs := by
  fun_induction align as bs with
  | case1 bs => simp [names]
  | case2 as _ => simp [names]
  | case3 x l as y r bs _ ih =>
    simp only [List.map_cons, List.mem_cons, ih, names_cons, or_assoc]
  | case4 x l as y r bs _ _ ih =>
    simp only [List.map_cons, List.mem_cons, ih, names_cons]
    grind
  | case5 x l as y r bs hxy hyx ih =>
    have hx : x = y := le_antisymm (not_lt.mp hyx) (not_lt.mp hxy)
    simp only [List.map_cons, List.mem_cons, ih, names_cons, hx]
    grind

theorem sorted_align {as bs : Entries} (ha : (names as).Pairwise (· < ·))
    (hb : (names bs).Pairwise (· < ·)) : ((align as bs).map Prod.fst).Pairwise (· < ·) := by
  fun_induction align as bs with
  | case1 bs => simpa [names, Function.comp_def] using hb
  | case2 as _ => simpa [names, Function.comp_def] using ha
  | case3 x l as y r bs hxy ih =>
    obtain ⟨hx, has⟩ := List.pairwise_cons.mp ha
    refine List.pairwise_cons.mpr ⟨fun z hz => ?_, ih has hb⟩
    rcases mem_names_align.mp hz with hz | hz
    · exact hx z hz
    · rcases List.mem_cons.mp hz with rfl | hz
      · exact hxy
      · exact hxy.trans (List.rel_of_pairwise_cons hb hz)
  | case4 x l as y r bs _ hyx ih =>
    obtain ⟨hy, hbs⟩ := List.pairwise_cons.mp hb
    refine List.pairwise_cons.mpr ⟨fun z hz => ?_, ih ha hbs⟩
    rcases mem_names_align.mp hz with hz | hz
    · rcases List.mem_cons.mp hz with rfl | hz
      · exact hyx
      · exact hyx.trans (List.rel_of_pairwise_cons ha hz)
    · exact hy z hz
  | case5 x l as y r bs hxy hyx ih =>
    have he : x = y := le_antisymm (not_lt.mp hyx) (not_lt.mp hxy)
    obtain ⟨hx, has⟩ := List.pairwise_cons.mp ha
    obtain ⟨hy, hbs⟩ := List.pairwise_cons.mp hb
    refine List.pairwise_cons.mpr ⟨fun z hz => ?_, ih has hbs⟩
    rcases mem_names_align.mp hz with hz | hz
    · exact hx z hz
    · exact he ▸ hy z hz

theorem mem_oneSided_iff {shared : List (String × Shared)} {z : String} :
    z ∈ oneSided shared ↔ (∃ r, (z, .left r) ∈ shared) ∨ ∃ r, (z, .right r) ∈ shared := by
  simp only [oneSided, List.mem_filterMap]
  constructor
  · rintro ⟨⟨x, s⟩, he, hs⟩
    cases s with
    | left r =>
      cases hs
      exact .inl ⟨r, he⟩
    | right r =>
      cases hs
      exact .inr ⟨r, he⟩
    | both l r => cases hs
  · rintro (⟨r, he⟩ | ⟨r, he⟩)
    · exact ⟨_, he, rfl⟩
    · exact ⟨_, he, rfl⟩

/-- A name that is not one-sided is spoken about by both sides. -/
theorem mem_names_of_not_oneSided {as bs : Entries} {z : String}
    (hz : z ∈ (align as bs).map Prod.fst) (hn : z ∉ oneSided (align as bs)) :
    z ∈ names as ∧ z ∈ names bs := by
  obtain ⟨⟨x, s⟩, he, rfl⟩ := List.mem_map.mp hz
  rw [mem_oneSided_iff, not_or] at hn
  have hs := fromSides_of_mem_align _ he
  cases s with
  | left r => exact (hn.1 ⟨r, he⟩).elim
  | right r => exact (hn.2 ⟨r, he⟩).elim
  | both l r => exact ⟨mem_names_of_mem hs.1, mem_names_of_mem hs.2⟩

theorem oneSided_subset (shared : List (String × Shared)) :
    oneSided shared ⊆ shared.map Prod.fst := by
  intro z hz
  rcases mem_oneSided_iff.mp hz with ⟨r, he⟩ | ⟨r, he⟩
  · exact List.mem_map_of_mem he
  · exact List.mem_map_of_mem he

/-! ## Combination -/

/-- An aligned name with its combined set. -/
def combinedEntry (c : Connective) (e : String × Shared) : String × IntervalList :=
  (e.1, e.2.combined c)

theorem names_map_combinedEntry (c : Connective) (shared : List (String × Shared)) :
    names (shared.map (combinedEntry c)) = shared.map Prod.fst := by
  simp [names, combinedEntry, Function.comp_def]

/-- Entries are only dropped, never changed or moved. -/
theorem combineEntries_sublist {c : Connective} {tainted : List String}
    {shared : List (String × Shared)} {entries : Entries}
    (h : combineEntries c tainted shared = some entries) :
    entries.Sublist (shared.map (combinedEntry c)) := by
  induction shared generalizing entries with
  | nil =>
    cases h
    exact List.Sublist.slnil
  | cons e rest ih =>
    obtain ⟨x, s⟩ := e
    have keep : (combineEntries c tainted rest).map ((x, s.combined c) :: ·) = some entries →
        entries.Sublist (((x, s) :: rest).map (combinedEntry c)) := by
      intro hk
      obtain ⟨es, hes, rfl⟩ := Option.map_eq_some_iff.mp hk
      exact (ih hes).cons_cons _
    simp only [combineEntries] at h
    split at h
    · exact keep h
    · split at h
      · cases h
      · split at h
        · exact (ih h).cons _
        · exact keep h

theorem combineEntries_of_tainted {c : Connective} {tainted : List String}
    {shared : List (String × Shared)} (h : ∀ z ∈ shared.map Prod.fst, z ∈ tainted) :
    combineEntries c tainted shared = some (shared.map (combinedEntry c)) := by
  induction shared with
  | nil => rfl
  | cons e rest ih =>
    have he : e.1 ∈ tainted := h e.1 List.mem_cons_self
    simp only [combineEntries, he, if_true, ih fun z hz => h z (List.mem_cons_of_mem _ hz)]
    rfl

end Constraints
end Foregone
