import Foregone.Proofs.BooleanAlgebra
import Foregone.Proofs.Join

/-! # The conditions an evaluation can meet

Joining and negating conditions keeps to a small part of all of them: a condition
speaks either about one variable, exactly, with a set that is neither empty nor full,
or about two or more, all of them tainted. No such condition is settled by its sets. -/

namespace Foregone

namespace Connective

theorem combine_isCanonical (c : Connective) {l r : IntervalList} (hl : l.isCanonical = true)
    (hr : r.isCanonical = true) : (c.combine l r).isCanonical = true := by
  rw [IntervalList.isCanonical_iff] at *
  cases c with
  | and => exact IntervalList.pairwise_intersect hl hr
  | or =>
    exact IntervalList.pairwise_union (IntervalList.sorted_of_pairwise hl)
      (IntervalList.sorted_of_pairwise hr)

/-- A set that says something still does after it was combined with another one. -/
theorem combine_ne_neutral (c : Connective) {l r : IntervalList} (hl : l.isCanonical = true)
    (hr : r.isCanonical = true) (hn : l ≠ c.neutral) : c.combine l r ≠ c.neutral := by
  let L : CanonicalList := ⟨l, IntervalList.isCanonical_iff.mp hl⟩
  let R : CanonicalList := ⟨r, IntervalList.isCanonical_iff.mp hr⟩
  intro he
  cases c with
  | and =>
    have htop : L ⊓ R = ⊤ := CanonicalList.ext he
    exact hn (congrArg CanonicalList.list (inf_eq_top_iff.mp htop).1)
  | or =>
    have hbot : L ⊔ R = ⊥ := CanonicalList.ext he
    exact hn (congrArg CanonicalList.list (sup_eq_bot_iff.mp hbot).1)

end Connective

namespace Constraints

/-- The conditions an evaluation can meet. -/
structure Proper (c : Constraints) : Prop where
  sorted : (names c.entries).Pairwise (· < ·)
  canonical : ∀ e ∈ c.entries, e.2.isCanonical = true
  shape : (∃ x a, c = single x a ∧ a ≠ .empty ∧ a ≠ .everything) ∨
    (2 ≤ c.entries.length ∧ c.tainted = names c.entries)

theorem proper_single_iff {x : String} {a : IntervalList} :
    (single x a).Proper ↔ a.isCanonical = true ∧ a ≠ .empty ∧ a ≠ .everything := by
  constructor
  · intro h
    refine ⟨h.canonical (x, a) List.mem_cons_self, ?_⟩
    rcases h.shape with ⟨y, b, he, hb⟩ | ⟨hlen, -⟩
    · cases he
      exact hb
    · exact absurd hlen (by simp [single])
  · rintro ⟨ha, he, hf⟩
    exact ⟨List.pairwise_singleton _ _, by simpa [single] using ha, .inl ⟨x, a, rfl, he, hf⟩⟩

/-- The sets of a proper condition never settle it. -/
theorem Proper.collapse {c : Constraints} (h : c.Proper) : c.collapse = none := by
  rcases h.shape with ⟨x, a, rfl, he, hf⟩ | ⟨hlen, ht⟩
  · simp [Constraints.collapse, untainted, single, IntervalList.toBool?, he, hf]
  · have hu : c.untainted = [] := by
      rw [untainted, List.filter_eq_nil_iff]
      intro e hm
      simpa [ht] using mem_names_of_mem hm
    have hne : c.tainted ≠ [] := by
      rw [ht, names]
      intro hnil
      rw [List.map_eq_nil_iff.mp hnil] at hlen
      cases hlen
    simp [Constraints.collapse, hu, hne]

theorem Proper.tainted_subset {c : Constraints} (h : c.Proper) : c.tainted ⊆ names c.entries := by
  rcases h.shape with ⟨x, a, rfl, -, -⟩ | ⟨-, ht⟩
  · exact List.nil_subset _
  · exact ht ▸ List.Subset.refl _

/-! ## Joining -/

/-- Combining keeps sets canonical, whatever is tainted. -/
theorem combinedEntry_isCanonical (c : Connective) {as bs : Entries}
    (ha : ∀ e ∈ as, e.2.isCanonical = true) (hb : ∀ e ∈ bs, e.2.isCanonical = true) :
    ∀ e ∈ (align as bs).map (combinedEntry c), e.2.isCanonical = true := by
  intro e he
  obtain ⟨⟨x, s⟩, hs, rfl⟩ := List.mem_map.mp he
  have hfrom := fromSides_of_mem_align _ hs
  cases s with
  | left r => exact ha _ hfrom
  | right r => exact hb _ hfrom
  | both l r => exact c.combine_isCanonical (ha _ hfrom.1) (hb _ hfrom.2)

/-- Two conditions on the same variable give a condition on it, or are settled. -/
theorem join?_single (c : Connective) {x : String} {l r : IntervalList}
    (hn : c.combine l r ≠ c.neutral) :
    join? c (single x l) (single x r) =
      if c.combine l r = c.absorbing then none else some (single x (c.combine l r)) := by
  have halign : align [(x, l)] [(x, r)] = [(x, .both l r)] := by
    simp only [align, lt_self_iff_false, if_false]
    rfl
  simp only [join?, single, halign]
  by_cases ha : c.combine l r = c.absorbing
  · simp [oneSided, Names.union, combineEntries, Shared.combined, ha]
  · simp [oneSided, Names.union, combineEntries, Shared.combined, ha, hn]

/-- The names that are tainted after a join. -/
def joinTaint (a b : Constraints) : List String :=
  Names.union (oneSided (align a.entries b.entries)) (Names.union a.tainted b.tainted)

theorem mem_joinTaint {a b : Constraints} {z : String} :
    z ∈ joinTaint a b ↔
      z ∈ oneSided (align a.entries b.entries) ∨ z ∈ a.tainted ∨ z ∈ b.tainted := by
  rw [joinTaint, Names.mem_union, Names.mem_union]

/-- Where every name of either side is tainted, the join keeps all of them. -/
theorem join?_of_tainted (c : Connective) {a b : Constraints} (ha : a.Proper) (hb : b.Proper)
    (hall : ∀ z ∈ (align a.entries b.entries).map Prod.fst, z ∈ joinTaint a b)
    (hlen : 2 ≤ (align a.entries b.entries).length) :
    ∃ j, join? c a b = some j ∧ j.Proper ∧ 2 ≤ j.entries.length := by
  have hsorted := sorted_align ha.sorted hb.sorted
  have htaint : joinTaint a b = (align a.entries b.entries).map Prod.fst := by
    refine (Names.sorted_union (Names.sorted_union ?_)).eq_of_mem_iff hsorted fun z => ?_
    · rcases hb.shape with ⟨x, r, rfl, -, -⟩ | ⟨-, ht⟩
      · exact List.Pairwise.nil
      · exact ht ▸ hb.sorted
    · refine ⟨fun hz => ?_, hall z⟩
      rcases mem_joinTaint.mp hz with hz | hz | hz
      · exact oneSided_subset _ hz
      · exact mem_names_align.mpr (.inl (ha.tainted_subset hz))
      · exact mem_names_align.mpr (.inr (hb.tainted_subset hz))
  refine ⟨⟨(align a.entries b.entries).map (combinedEntry c), joinTaint a b⟩, ?_, ?_, ?_⟩
  · change (combineEntries c (joinTaint a b) _).map _ = _
    rw [combineEntries_of_tainted hall]
    rfl
  · refine ⟨?_, combinedEntry_isCanonical c ha.canonical hb.canonical, .inr ⟨?_, ?_⟩⟩
    · rw [names_map_combinedEntry]
      exact hsorted
    · rw [List.length_map]
      exact hlen
    · rw [names_map_combinedEntry, htaint]
  · rw [List.length_map]
    exact hlen

theorem two_le_length_align {a b : Constraints} (ha : a.Proper) (hb : b.Proper)
    (hdiff : ¬ ∃ x l r, a = single x l ∧ b = single x r) :
    2 ≤ (align a.entries b.entries).length := by
  have hbound : ∀ s : List String, s.Nodup → s ⊆ (align a.entries b.entries).map Prod.fst →
      s.length ≤ (align a.entries b.entries).length := by
    intro s hs hsub
    simpa using (List.subperm_of_subset hs hsub).length_le
  have hleft : names a.entries ⊆ (align a.entries b.entries).map Prod.fst :=
    fun z hz => mem_names_align.mpr (.inl hz)
  have hright : names b.entries ⊆ (align a.entries b.entries).map Prod.fst :=
    fun z hz => mem_names_align.mpr (.inr hz)
  rcases ha.shape with ⟨x, l, rfl, -, -⟩ | ⟨hlen, -⟩
  · rcases hb.shape with ⟨y, r, rfl, -, -⟩ | ⟨hlen, -⟩
    · have hne : x ≠ y := by
        rintro rfl
        exact hdiff ⟨x, l, r, rfl, rfl⟩
      refine hbound [x, y] (by simpa using hne) fun z hz => ?_
      rcases List.mem_cons.mp hz with rfl | hz
      · exact hleft List.mem_cons_self
      · exact hright hz
    · have h := hbound _ hb.sorted.nodup hright
      rw [names, List.length_map] at h
      exact hlen.trans h
  · have h := hbound _ ha.sorted.nodup hleft
    rw [names, List.length_map] at h
    exact hlen.trans h

/-- Unless both sides speak about the same single variable, a join taints every name. -/
theorem mem_joinTaint_of_mem_align {a b : Constraints} (ha : a.Proper) (hb : b.Proper)
    (hdiff : ¬ ∃ x l r, a = single x l ∧ b = single x r) :
    ∀ z ∈ (align a.entries b.entries).map Prod.fst, z ∈ joinTaint a b := by
  intro z hz
  rw [mem_joinTaint]
  by_cases hone : z ∈ oneSided (align a.entries b.entries)
  · exact .inl hone
  · obtain ⟨hza, hzb⟩ := mem_names_of_not_oneSided hz hone
    rcases ha.shape with ⟨x, l, rfl, -, -⟩ | ⟨-, ht⟩
    · rcases hb.shape with ⟨y, r, rfl, -, -⟩ | ⟨-, ht⟩
      · have hx : z = x := by simpa [single] using hza
        have hy : z = y := by simpa [single] using hzb
        exact (hdiff ⟨x, l, r, rfl, by rw [← hx, hy]⟩).elim
      · exact .inr (.inr (ht ▸ hzb))
    · exact .inr (.inl (ht ▸ hza))

theorem combine_proper (c : Connective) {x : String} {l r : IntervalList}
    (hl : (single x l).Proper) (hr : (single x r).Proper) :
    c.combine l r ≠ c.neutral ∧
      (c.combine l r ≠ c.absorbing → (single x (c.combine l r)).Proper) := by
  obtain ⟨hlc, hne, hnf⟩ := proper_single_iff.mp hl
  have hrc := (proper_single_iff.mp hr).1
  have hn : c.combine l r ≠ c.neutral := c.combine_ne_neutral hlc hrc (by cases c <;> assumption)
  refine ⟨hn, fun ha => proper_single_iff.mpr ⟨c.combine_isCanonical hlc hrc, ?_⟩⟩
  cases c with
  | and => exact ⟨ha, hn⟩
  | or => exact ⟨hn, ha⟩

/-- All that a join of two proper conditions can come to. -/
theorem Proper.join?_cases (c : Connective) {a b : Constraints} (ha : a.Proper) (hb : b.Proper) :
    (∃ x l r, a = single x l ∧ b = single x r ∧
      join? c a b = if c.combine l r = c.absorbing then none
        else some (single x (c.combine l r))) ∨
    ∃ j, join? c a b = some j ∧ j.Proper ∧ 2 ≤ j.entries.length := by
  by_cases hsame : ∃ x l r, a = single x l ∧ b = single x r
  · obtain ⟨x, l, r, rfl, rfl⟩ := hsame
    exact .inl ⟨x, l, r, rfl, rfl, join?_single c (combine_proper c ha hb).1⟩
  · exact .inr (join?_of_tainted c ha hb (mem_joinTaint_of_mem_align ha hb hsame)
      (two_le_length_align ha hb hsame))

theorem Proper.join? {c : Connective} {a b j : Constraints} (ha : a.Proper) (hb : b.Proper)
    (h : Constraints.join? c a b = some j) : j.Proper := by
  rcases ha.join?_cases c hb with ⟨x, l, r, rfl, rfl, he⟩ | ⟨j', he, hj, -⟩
  · rw [he] at h
    split at h
    · cases h
    · rename_i habs
      cases h
      exact (combine_proper c ha hb).2 habs
  · cases he.symm.trans h
    exact hj

/-! ## Negation -/

theorem mapM_of_tainted {tainted : List String} {f : String × IntervalList →
    Except Interval.Fault (String × IntervalList)} {entries : Entries}
    (h : ∀ e ∈ entries, e.1 ∈ tainted) :
    entries.mapM (fun e => if e.1 ∈ tainted then pure e else f e) = .ok entries := by
  induction entries with
  | nil => rfl
  | cons e es ih =>
    simp only [List.mapM_cons, h e List.mem_cons_self, if_true,
      ih fun z hz => h z (List.mem_cons_of_mem _ hz)]
    rfl

/-- Negation of a proper condition succeeds: it complements a single set, and leaves
tainted ones alone. -/
theorem Proper.negate_cases {c : Constraints} (h : c.Proper) :
    (∃ x a a', c = single x a ∧ a.complement = .ok a' ∧ c.negate = .ok (single x a') ∧
      (single x a').Proper) ∨ (2 ≤ c.entries.length ∧ c.negate = .ok c) := by
  rcases h.shape with ⟨x, a, rfl, he, hf⟩ | ⟨hlen, ht⟩
  · let A : CanonicalList := ⟨a, IntervalList.isCanonical_iff.mp (proper_single_iff.mp h).1⟩
    have hok : a.complement = .ok Aᶜ.list := A.complement_list
    refine .inl ⟨x, a, Aᶜ.list, rfl, hok, ?_, proper_single_iff.mpr ⟨?_, ?_, ?_⟩⟩
    · simp only [negate, single, List.mapM_cons, List.mapM_nil, hok]
      rfl
    · exact IntervalList.isCanonical_iff.mpr Aᶜ.pairwise
    · intro hn
      exact hf (congrArg CanonicalList.list (compl_eq_bot.mp (CanonicalList.ext hn)))
    · intro hn
      exact he (congrArg CanonicalList.list (compl_eq_top.mp (CanonicalList.ext hn)))
  · refine .inr ⟨hlen, ?_⟩
    have hall : ∀ e ∈ c.entries, e.1 ∈ c.tainted := fun e hm => ht ▸ mem_names_of_mem hm
    rw [negate, mapM_of_tainted hall]
    rfl

end Constraints
end Foregone
