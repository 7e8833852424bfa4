import Foregone.Proofs.Spine

/-! # Well-formed values

A condition is well-formed when its names increase, its taint is a set and its sets are
canonical; it may have any number of entries and any taint. Every operation is defined on
well-formed values and yields well-formed ones. -/

namespace Foregone

theorem IntervalList.exists_canonical_complement {a : IntervalList} (h : a.isCanonical = true) :
    ∃ a', a.complement = .ok a' ∧ a'.isCanonical = true := by
  obtain ⟨a', hok, hp, -⟩ := exists_complement (isCanonical_iff.mp h)
  exact ⟨a', hok, isCanonical_iff.mpr hp⟩

namespace Constraints

/-- The names of the entries increase, and so do the tainted ones. -/
structure Ordered (c : Constraints) : Prop where
  names : (names c.entries).Pairwise (· < ·)
  tainted : c.tainted.Pairwise (· < ·)

structure WellFormed (c : Constraints) : Prop extends Ordered c where
  canonical : ∀ e ∈ c.entries, e.2.isCanonical = true

theorem Proper.wellFormed {c : Constraints} (h : c.Proper) : c.WellFormed := by
  refine ⟨⟨h.sorted, ?_⟩, h.canonical⟩
  rcases h.shape with ⟨x, a, rfl, -, -⟩ | ⟨-, ht⟩
  · exact List.Pairwise.nil
  · exact ht ▸ h.sorted

theorem Ordered.join? {c : Connective} {a b j : Constraints} (ha : a.Ordered) (hb : b.Ordered)
    (h : Constraints.join? c a b = some j) : j.Ordered := by
  obtain ⟨entries, he, rfl⟩ := Option.map_eq_some_iff.mp h
  refine ⟨?_, Names.sorted_union (Names.sorted_union hb.tainted)⟩
  have hsub := (combineEntries_sublist he).map Prod.fst
  rw [List.map_map] at hsub
  exact (sorted_align ha.names hb.names).sublist hsub

theorem WellFormed.join? {c : Connective} {a b j : Constraints} (ha : a.WellFormed)
    (hb : b.WellFormed) (h : Constraints.join? c a b = some j) : j.WellFormed := by
  refine ⟨ha.toOrdered.join? hb.toOrdered h, ?_⟩
  obtain ⟨entries, he, rfl⟩ := Option.map_eq_some_iff.mp h
  intro e hm
  exact combinedEntry_isCanonical c ha.canonical hb.canonical e
    ((combineEntries_sublist he).subset hm)

/-- Negation goes through the entries one by one and keeps their names. -/
theorem exists_negated_entries (tainted : List String) {es : Entries}
    (h : ∀ e ∈ es, e.2.isCanonical = true) :
    ∃ ds : Entries, es.mapM (fun e => if e.1 ∈ tainted then pure e
        else (IntervalList.complement e.2).map fun ranges => (e.1, ranges)) = .ok ds ∧
      names ds = names es ∧ ∀ d ∈ ds, d.2.isCanonical = true := by
  induction es with
  | nil => exact ⟨[], rfl, rfl, by simp⟩
  | cons e es ih =>
    obtain ⟨ds, hds, hnames, hcan⟩ := ih fun d hd => h d (List.mem_cons_of_mem _ hd)
    obtain ⟨d, hd, hname, hdc⟩ : ∃ d : String × IntervalList,
        (if e.1 ∈ tainted then pure e
          else (IntervalList.complement e.2).map fun ranges => (e.1, ranges)) = .ok d ∧
        d.1 = e.1 ∧ d.2.isCanonical = true := by
      split
      · exact ⟨e, rfl, rfl, h e List.mem_cons_self⟩
      · obtain ⟨a, ha, hac⟩ :=
          IntervalList.exists_canonical_complement (h e List.mem_cons_self)
        exact ⟨(e.1, a), by rw [ha]; rfl, rfl, hac⟩
    refine ⟨d :: ds, ?_, ?_, ?_⟩
    · rw [List.mapM_cons, hd, hds]
      rfl
    · rw [names_cons, names_cons, hname, hnames]
    · intro d' hd'
      rcases List.mem_cons.mp hd' with rfl | hd'
      · exact hdc
      · exact hcan d' hd'

theorem WellFormed.negate {c : Constraints} (h : c.WellFormed) :
    ∃ d, c.negate = .ok d ∧ d.WellFormed := by
  obtain ⟨ds, hds, hnames, hcan⟩ := exists_negated_entries c.tainted h.canonical
  refine ⟨⟨ds, c.tainted⟩, ?_, ⟨hnames ▸ h.names, h.tainted⟩, hcan⟩
  rw [Constraints.negate, hds]
  rfl

end Constraints

namespace Value

/-- The condition that the value is, if it is one, satisfies `P`. -/
def Satisfies (P : Constraints → Prop) : Value → Prop
  | .ranges c => P c
  | _ => True

def Ordered : Value → Prop := Satisfies Constraints.Ordered

def WellFormed : Value → Prop := Satisfies Constraints.WellFormed

theorem Satisfies.mono {P Q : Constraints → Prop} (h : ∀ c, P c → Q c) {v : Value}
    (hv : v.Satisfies P) : v.Satisfies Q := by
  cases v with
  | ranges c => exact h c hv
  | _ => trivial

theorem WellFormed.ordered {v : Value} (h : v.WellFormed) : v.Ordered :=
  Satisfies.mono (fun _ hc => hc.toOrdered) h

theorem Proper.wellFormed {v : Value} (h : v.Proper) : v.WellFormed := by
  cases v with
  | ranges c => exact Constraints.Proper.wellFormed h
  | _ => trivial

theorem Satisfies.connect {P : Constraints → Prop} {c : Connective}
    (hjoin : ∀ a b j, P a → P b → Constraints.join? c a b = some j → P j) {l r : Value}
    (hl : l.Satisfies P) (hr : r.Satisfies P) : (connect c l r).Satisfies P := by
  rcases connect_cases c l r with h | ⟨n, h⟩ | ⟨b, h⟩ | h | ⟨a, b, j, rfl, rfl, hj, h⟩
  · exact h ▸ trivial
  · exact h ▸ trivial
  · exact h ▸ trivial
  · rw [h]
    exact hr
  · exact h ▸ hjoin a b j hl hr hj

theorem Ordered.connect (c : Connective) {l r : Value} (hl : l.Ordered) (hr : r.Ordered) :
    (connect c l r).Ordered :=
  Satisfies.connect (fun _ _ _ ha hb hj => ha.join? hb hj) hl hr

theorem WellFormed.connect (c : Connective) {l r : Value} (hl : l.WellFormed)
    (hr : r.WellFormed) : (connect c l r).WellFormed :=
  Satisfies.connect (fun _ _ _ ha hb hj => ha.join? hb hj) hl hr

theorem WellFormed.not {v : Value} (h : v.WellFormed) : ∃ u, v.not = .ok u ∧ u.WellFormed := by
  unfold Value.not
  split
  · exact ⟨_, rfl, trivial⟩
  · split
    · obtain ⟨d, hd, hw⟩ := Constraints.WellFormed.negate h
      exact ⟨.ranges d, by rw [hd]; rfl, hw⟩
    · exact ⟨_, rfl, trivial⟩

theorem WellFormed.chain {l : Value} (hl : l.WellFormed) (m : Value) (c : Comparison) (r : Value) :
    (l.chain m c r).WellFormed := by
  rcases chain_cases l m c r with h | h
  · exact h ▸ trivial
  · exact h ▸ hl.connect .and (proper_compare m c r).wellFormed

theorem WellFormed.unary {v : Value} (h : v.WellFormed) (op : UnaryOp) :
    ∃ u, Value.unary op v = .ok u ∧ u.WellFormed := by
  cases op with
  | not => exact h.not
  | plus =>
    refine ⟨_, rfl, ?_⟩
    split
    · trivial
    · trivial
  | minus =>
    refine ⟨_, rfl, ?_⟩
    split
    · exact (proper_checked _).wellFormed
    · trivial
  | unsupported s => exact ⟨_, rfl, trivial⟩

theorem WellFormed.binary {l r : Value} (hl : l.WellFormed) (hr : r.WellFormed) (op : BinaryOp) :
    (Value.binary op l r).WellFormed := by
  cases op with
  | logical c => exact hl.connect c hr
  | compare c => exact (proper_compare l c r).wellFormed
  | arith a => exact (proper_arith l a r).wellFormed
  | unsupported s => trivial

end Value
end Foregone
