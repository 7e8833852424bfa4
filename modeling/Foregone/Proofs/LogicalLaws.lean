import Foregone.Proofs.NameIndependence

/-! # Laws of the connectives

Negation, conjunction and disjunction of conditions obey the laws of logic as far as a
verdict can tell: a double negation changes nothing, and a negation can be pushed through
a connective. Values differ on the two ways, since a negated condition on several
variables keeps its sets, but a verdict on such a condition is open on either way. Two
conditions can be swapped, and then even the values are the same. -/

namespace Foregone

/-! ## Sets of one variable -/

namespace Connective

/-- The connective that a negation turns `c` into. -/
def dual : Connective → Connective
  | .and => .or
  | .or => .and

theorem verdict_dual (c : Connective) : c.dual.verdict = !c.verdict := by
  cases c <;> rfl

theorem combine_comm (c : Connective) {a b : IntervalList} (ha : a.isCanonical = true)
    (hb : b.isCanonical = true) : c.combine a b = c.combine b a := by
  let A : CanonicalList := ⟨a, IntervalList.isCanonical_iff.mp ha⟩
  let B : CanonicalList := ⟨b, IntervalList.isCanonical_iff.mp hb⟩
  cases c with
  | and => exact congrArg CanonicalList.list (inf_comm A B)
  | or => exact congrArg CanonicalList.list (sup_comm A B)

/-- Complements combined by the dual connective settle a condition exactly where the sets
themselves do. -/
theorem combine_dual_eq_absorbing_iff (c : Connective) {a b a' b' : IntervalList}
    (ha : a.isCanonical = true) (hb : b.isCanonical = true) (ha' : a.complement = .ok a')
    (hb' : b.complement = .ok b') :
    c.dual.combine a' b' = c.dual.absorbing ↔ c.combine a b = c.absorbing := by
  let A : CanonicalList := ⟨a, IntervalList.isCanonical_iff.mp ha⟩
  let B : CanonicalList := ⟨b, IntervalList.isCanonical_iff.mp hb⟩
  obtain rfl : Aᶜ.list = a' := Except.ok.inj (A.complement_list.symm.trans ha')
  obtain rfl : Bᶜ.list = b' := Except.ok.inj (B.complement_list.symm.trans hb')
  have lists {x y : CanonicalList} : x.list = y.list ↔ x = y :=
    ⟨CanonicalList.ext, congrArg CanonicalList.list⟩
  cases c with
  | and =>
    calc (Aᶜ ⊔ Bᶜ).list = (⊤ : CanonicalList).list
        ↔ (A ⊓ B)ᶜ = ⊤ := by rw [lists, compl_inf]
      _ ↔ (A ⊓ B).list = (⊥ : CanonicalList).list := by rw [compl_eq_top, lists]
  | or =>
    calc (Aᶜ ⊓ Bᶜ).list = (⊥ : CanonicalList).list
        ↔ (A ⊔ B)ᶜ = ⊥ := by rw [lists, compl_sup]
      _ ↔ (A ⊔ B).list = (⊤ : CanonicalList).list := by rw [compl_eq_bot, lists]

end Connective

/-! ## Conditions -/

namespace Constraints

theorem Shared.combined_ofSides?_comm (c : Connective) {l r : Option IntervalList}
    (hl : ∀ a, l = some a → a.isCanonical = true) (hr : ∀ b, r = some b → b.isCanonical = true) :
    (ofSides? l r).map (combined c) = (ofSides? r l).map (combined c) := by
  cases l with
  | none => cases r <;> rfl
  | some a =>
    cases r with
    | none => rfl
    | some b => exact congrArg some (c.combine_comm (hl a rfl) (hr b rfl))

/-- The sides of a join can be swapped. -/
theorem Proper.join?_comm (c : Connective) {a b : Constraints} (ha : a.Proper) (hb : b.Proper) :
    Constraints.join? c a b = Constraints.join? c b a := by
  by_cases hsame : ∃ x l r, a = single x l ∧ b = single x r
  · obtain ⟨x, l, r, rfl, rfl⟩ := hsame
    rw [join?_single c (combine_proper c ha hb).1, join?_single c (combine_proper c hb ha).1,
      c.combine_comm (proper_single_iff.mp ha).1 (proper_single_iff.mp hb).1]
  · have hswap : ¬ ∃ x l r, b = single x l ∧ a = single x r := by
      rintro ⟨x, l, r, hl, hr⟩
      exact hsame ⟨x, r, l, hr, hl⟩
    obtain ⟨j, hj, hp, hlen, he⟩ := ha.join?_entries c hb hsame
    obtain ⟨k, hk, hq, -, hf⟩ := hb.join?_entries c ha hswap
    have canonical {d : Constraints} (hd : d.Proper) (x : String) (r : IntervalList)
        (hr : d.entries.lookup x = some r) : r.isCanonical = true :=
      hd.canonical (x, r) ((lookup_eq_some_iff hd.sorted).mp hr)
    rw [hj, hk, hp.eq_of_entries hq hlen]
    refine entries_ext hp.sorted hq.sorted fun x r => ?_
    rw [he, hf, mem_joined_iff ha.sorted hb.sorted, mem_joined_iff hb.sorted ha.sorted,
      Shared.combined_ofSides?_comm c (canonical ha x) (canonical hb x)]

/-- Two conditions on one variable leave nothing open together. -/
def Settles (c : Connective) (a b : Constraints) : Prop :=
  ∃ x l r, a = single x l ∧ b = single x r ∧ c.combine l r = c.absorbing

theorem settles_single_iff (c : Connective) {x y : String} {l r : IntervalList} :
    Settles c (single x l) (single y r) ↔ x = y ∧ c.combine l r = c.absorbing := by
  constructor
  · rintro ⟨z, l', r', hl, hr, habs⟩
    cases hl
    cases hr
    exact ⟨rfl, habs⟩
  · rintro ⟨rfl, habs⟩
    exact ⟨x, l, r, rfl, rfl, habs⟩

theorem length_of_settles {c : Connective} {a b : Constraints} (h : Settles c a b) :
    a.entries.length = 1 ∧ b.entries.length = 1 := by
  obtain ⟨x, l, r, rfl, rfl, -⟩ := h
  exact ⟨rfl, rfl⟩

/-- Negated conditions settle each other under the dual connective, and only then. -/
theorem Proper.settles_negate_iff (c : Connective) {a b a' b' : Constraints} (ha : a.Proper)
    (hb : b.Proper) (hna : a.negate = .ok a') (hnb : b.negate = .ok b') :
    Settles c.dual a' b' ↔ Settles c a b := by
  rcases ha.negate_cases with ⟨x, l, l', rfl, hl, hn, -⟩ | ⟨hlen, hn⟩
  · cases hn.symm.trans hna
    rcases hb.negate_cases with ⟨y, r, r', rfl, hr, hm, -⟩ | ⟨hlen, hm⟩
    · cases hm.symm.trans hnb
      rw [settles_single_iff, settles_single_iff,
        c.combine_dual_eq_absorbing_iff (proper_single_iff.mp ha).1 (proper_single_iff.mp hb).1
          hl hr]
    · cases hm.symm.trans hnb
      constructor
      · intro h
        have := (length_of_settles h).2
        omega
      · intro h
        have := (length_of_settles h).2
        omega
  · cases hn.symm.trans hna
    have hlen' : b'.entries.length = b.entries.length := by
      rcases hb.negate_cases with ⟨y, r, r', rfl, -, hm, -⟩ | ⟨-, hm⟩
      · cases hm.symm.trans hnb
        rfl
      · cases hm.symm.trans hnb
        rfl
    constructor
    · intro h
      have := (length_of_settles h).1
      omega
    · intro h
      have := (length_of_settles h).1
      omega

end Constraints

/-! ## Values -/

namespace Value

/-- The verdict on two joined conditions is open unless they settle each other. -/
theorem toBool?_connect_ranges (c : Connective) {a b : Constraints} (ha : (ranges a).Proper)
    (hb : (ranges b).Proper) :
    (Constraints.Settles c a b ∧ (connect c (.ranges a) (.ranges b)).toBool? = some c.verdict) ∨
    (¬ Constraints.Settles c a b ∧ (connect c (.ranges a) (.ranges b)).toBool? = none) := by
  have hp : (connect c (.ranges a) (.ranges b)).Proper := ha.connect c hb
  rcases Constraints.Proper.join?_cases c ha hb with ⟨x, l, r, rfl, rfl, -⟩ | ⟨j, hj, -, h2⟩
  · rw [connect_single c ha hb] at hp ⊢
    by_cases habs : c.combine l r = c.absorbing
    · rw [if_pos habs]
      exact .inl ⟨⟨x, l, r, rfl, rfl, habs⟩, rfl⟩
    · rw [if_neg habs] at hp ⊢
      refine .inr ⟨?_, hp.toBool?_ranges⟩
      rintro ⟨y, l', r', hl, hr, h⟩
      cases hl
      cases hr
      exact habs h
  · have hconnect : connect c (.ranges a) (.ranges b) = .ranges j := by
      simp only [connect, ha.toBool?_ranges, hj]
    rw [hconnect] at hp ⊢
    refine .inr ⟨?_, hp.toBool?_ranges⟩
    rintro ⟨x, l, r, rfl, rfl, habs⟩
    rw [Constraints.join?_single c (Constraints.combine_proper c ha hb).1, if_pos habs] at hj
    cases hj

theorem not_ranges {a : Constraints} {v : Value} (h : (ranges a).Proper)
    (hv : (ranges a).not = .ok v) :
    ∃ a', v = .ranges a' ∧ a.negate = .ok a' ∧ (ranges a').Proper := by
  obtain ⟨u, hu, hp⟩ := h.not
  cases hu.symm.trans hv
  simp only [Value.not, h.toBool?_ranges] at hv
  cases hn : a.negate with
  | error f =>
    rw [hn] at hv
    cases hv
  | ok a' =>
    rw [hn] at hv
    cases hv
    exact ⟨a', rfl, rfl, hp⟩

theorem Proper.toBool?_not {v u : Value} (h : v.Proper) (hu : v.not = .ok u) :
    u.toBool? = v.toBool?.map (!·) := by
  cases hv : v.toBool? with
  | some b =>
    simp only [Value.not, hv] at hu
    cases hu
    rfl
  | none =>
    cases v with
    | ranges c =>
      obtain ⟨d, rfl, -, hp⟩ := not_ranges h hu
      exact hp.toBool?_ranges
    | unknown =>
      cases hu
      rfl
    | var x =>
      cases hu
      rfl
    | int n => cases hv
    | bool b => cases hv

/-- What decides a connective has the truth that decided it. -/
theorem toBool?_settled {v : Value} {b : Bool} (h : v.toBool? = some b) :
    (v.settled b).toBool? = some b := by
  cases v with
  | int n => exact h
  | bool b' => exact h
  | _ => rfl

/-- A condition followed by anything but a condition stays open. -/
theorem connect_ranges_eq_unknown (c : Connective) {a : Constraints} {r : Value}
    (ha : (ranges a).Proper) (hr : ∀ b, r ≠ .ranges b) :
    connect c (.ranges a) r = .unknown := by
  simp only [connect, ha.toBool?_ranges]
  split
  · rename_i b _
    exact (hr b rfl).elim
  · rfl

theorem not_ne_ranges {v u : Value} (h : ∀ b, v ≠ .ranges b) (hu : v.not = .ok u) :
    ∀ b, u ≠ .ranges b := by
  rintro b rfl
  unfold Value.not at hu
  split at hu
  · cases hu
  · split at hu
    · rename_i c _
      exact h c rfl
    · cases hu

/-- For a verdict, a negated connection is the dual connection of the negated values. -/
theorem toBool?_connect_not (c : Connective) {l r l' r' : Value} (pl : l.Proper)
    (pr : r.Proper) (hl : l.not = .ok l') (hr : r.not = .ok r') :
    (connect c.dual l' r').toBool? = (connect c l r).toBool?.map (!·) := by
  cases hb : l.toBool? with
  | some b =>
    -- the left operand decides on both ways, or hands over on both ways
    have hl' : l' = .bool !b := by
      simp only [Value.not, hb] at hl
      exact (Except.ok.inj hl).symm
    have hdual : ((!b) = c.dual.verdict) ↔ b = c.verdict := by
      rw [c.verdict_dual, Bool.not_inj_iff]
    by_cases hv : b = c.verdict
    · have hleft : connect c l r = l.settled b := by simp only [connect, hb, hv, if_true]
      have hright : connect c.dual l' r' = .bool !b := by
        simp only [connect, hl', toBool?, hdual.mpr hv, if_true, settled]
      rw [hleft, hright, toBool?_settled hb]
      rfl
    · have hleft : connect c l r = r := by simp only [connect, hb, hv, if_false]
      have hright : connect c.dual l' r' = r' := by
        simp only [connect, hl', toBool?, hdual.not.mpr hv, if_false]
      rw [hleft, hright, pr.toBool?_not hr]
  | none =>
    cases l with
    | ranges a =>
      obtain ⟨a', rfl, hna, pa⟩ := not_ranges pl hl
      by_cases hr' : ∃ b, r = .ranges b
      · obtain ⟨b, rfl⟩ := hr'
        obtain ⟨b', rfl, hnb, pb⟩ := not_ranges pr hr
        have hiff := Constraints.Proper.settles_negate_iff c pl pr hna hnb
        rcases toBool?_connect_ranges c pl pr with ⟨hs, h⟩ | ⟨hs, h⟩
        · rcases toBool?_connect_ranges c.dual pa pb with ⟨-, h'⟩ | ⟨hs', -⟩
          · rw [h, h', c.verdict_dual]
            rfl
          · exact (hs' (hiff.mpr hs)).elim
        · rcases toBool?_connect_ranges c.dual pa pb with ⟨hs', -⟩ | ⟨-, h'⟩
          · exact (hs (hiff.mp hs')).elim
          · rw [h, h']
            rfl
      · rw [not_exists] at hr'
        rw [connect_ranges_eq_unknown c pl hr',
          connect_ranges_eq_unknown c.dual pa (not_ne_ranges hr' hr)]
        rfl
    | unknown =>
      cases hl
      rfl
    | var x =>
      cases hl
      rfl
    | int n => cases hb
    | bool b => cases hb

/-- Two conditions can be swapped. -/
theorem connect_ranges_comm (c : Connective) {a b : Constraints} (ha : (ranges a).Proper)
    (hb : (ranges b).Proper) :
    connect c (.ranges a) (.ranges b) = connect c (.ranges b) (.ranges a) := by
  simp only [connect, ha.toBool?_ranges, hb.toBool?_ranges,
    Constraints.Proper.join?_comm c ha hb]

end Value

/-! ## Expressions -/

namespace Expr

theorem exists_proper_evaluate (e : Expr) : ∃ v, e.evaluate = .ok v ∧ v.Proper := by
  obtain ⟨a, ha, hp⟩ := e.exists_ascend
  exact ⟨a.result, evaluate_of_ascend ha, hp⟩

theorem evaluate_not {e : Expr} {v u : Value} (he : e.evaluate = .ok v) (hu : v.not = .ok u) :
    (unary .not e).evaluate = .ok u := evaluate_unary he hu

theorem evaluate_connective (c : Connective) {a b : Expr} {l r : Value}
    (ha : a.evaluate = .ok l) (hb : b.evaluate = .ok r) :
    (binary (.logical c) a b false).evaluate = .ok (Value.connect c l r) :=
  evaluate_unchained (.logical c) ha hb

theorem verdict?_of_evaluate {e : Expr} {v : Value} (h : e.evaluate = .ok v) :
    e.verdict? = .ok v.toBool? := by
  rw [verdict?, h]
  rfl

/-- A double negation keeps the verdict. -/
theorem verdict?_not_not (e : Expr) :
    ∃ t, (unary .not (unary .not e)).verdict? = .ok t ∧ e.verdict? = .ok t := by
  obtain ⟨v, hv, pv⟩ := e.exists_proper_evaluate
  obtain ⟨u, hu, pu⟩ := pv.not
  obtain ⟨t, ht, -⟩ := pu.not
  have htruth : t.toBool? = v.toBool? := by
    rw [pu.toBool?_not ht, pv.toBool?_not hu]
    cases v.toBool? <;> simp
  have htwice : (unary .not (unary .not e)).verdict? = .ok t.toBool? :=
    verdict?_of_evaluate (evaluate_not (evaluate_not hv hu) ht)
  exact ⟨v.toBool?, htruth ▸ htwice, verdict?_of_evaluate hv⟩

/-- A negation can be pushed through a connective. -/
theorem verdict?_not_connective (c : Connective) (a b : Expr) :
    ∃ t, (unary .not (binary (.logical c) a b false)).verdict? = .ok t ∧
      (binary (.logical c.dual) (unary .not a) (unary .not b) false).verdict? = .ok t := by
  obtain ⟨l, hl, pl⟩ := a.exists_proper_evaluate
  obtain ⟨r, hr, pr⟩ := b.exists_proper_evaluate
  obtain ⟨l', hl', -⟩ := pl.not
  obtain ⟨r', hr', -⟩ := pr.not
  have pc : (Value.connect c l r).Proper := pl.connect c pr
  obtain ⟨u, hu, -⟩ := pc.not
  refine ⟨u.toBool?, verdict?_of_evaluate (evaluate_not (evaluate_connective c hl hr) hu), ?_⟩
  rw [pc.toBool?_not hu, ← Value.toBool?_connect_not c pl pr hl' hr']
  exact verdict?_of_evaluate (evaluate_connective c.dual (evaluate_not hl hl')
    (evaluate_not hr hr'))

/-- Two conditions on variables can be swapped. -/
theorem evaluate_connective_comm (c : Connective) {a b : Expr} {x y : Constraints}
    (ha : a.evaluate = .ok (.ranges x)) (hb : b.evaluate = .ok (.ranges y)) :
    ∃ v, (binary (.logical c) a b false).evaluate = .ok v ∧
      (binary (.logical c) b a false).evaluate = .ok v := by
  obtain ⟨l, hl, pl⟩ := a.exists_proper_evaluate
  obtain ⟨r, hr, pr⟩ := b.exists_proper_evaluate
  cases hl.symm.trans ha
  cases hr.symm.trans hb
  refine ⟨_, evaluate_connective c ha hb, ?_⟩
  rw [Value.connect_ranges_comm c pl pr]
  exact evaluate_connective c hb ha

/-- Verdicts do not change when a condition is rewritten by double negation or by De
Morgan's laws, and two conditions on variables can be swapped on either side of a
connective without any change to the value. -/
theorem verdict?_rewriting (a b : Expr) :
    (∃ t, (unary .not (unary .not a)).verdict? = .ok t ∧ a.verdict? = .ok t) ∧
    (∃ t, (unary .not (binary (.logical .and) a b false)).verdict? = .ok t ∧
      (binary (.logical .or) (unary .not a) (unary .not b) false).verdict? = .ok t) ∧
    (∃ t, (unary .not (binary (.logical .or) a b false)).verdict? = .ok t ∧
      (binary (.logical .and) (unary .not a) (unary .not b) false).verdict? = .ok t) ∧
    ∀ x y, a.evaluate = .ok (.ranges x) → b.evaluate = .ok (.ranges y) →
      (∃ v, (binary (.logical .and) a b false).evaluate = .ok v ∧
        (binary (.logical .and) b a false).evaluate = .ok v) ∧
      ∃ v, (binary (.logical .or) a b false).evaluate = .ok v ∧
        (binary (.logical .or) b a false).evaluate = .ok v := by
  refine ⟨verdict?_not_not a, verdict?_not_connective .and a b, verdict?_not_connective .or a b,
    fun x y ha hb => ?_⟩
  exact ⟨evaluate_connective_comm .and ha hb, evaluate_connective_comm .or ha hb⟩

/-- `(x < 3 or y > 5)` and `x != 0`: the value of their conjunction has two tainted
variables, in either order. -/
theorem verdict?_rewriting_two_variables :
    let a : Expr := .binary (.logical .or)
      (.binary (.compare .lt) (.name "x") (.num (some 3) true) false)
      (.binary (.compare .gt) (.name "y") (.num (some 5) true) false) false
    let b : Expr := .binary (.compare .ne) (.name "x") (.num (some 0) true) false
    a.evaluate = .ok (.ranges ⟨[("x", .ofComparison .lt 3), ("y", .ofComparison .gt 5)],
      ["x", "y"]⟩) ∧
    b.evaluate = .ok (.ranges (.single "x" (.ofComparison .ne 0))) ∧
    ∃ v, (binary (.logical .and) a b false).evaluate = .ok v ∧
      (binary (.logical .and) b a false).evaluate = .ok v := by
  intro a b
  have ha : a.evaluate = .ok (.ranges ⟨[("x", .ofComparison .lt 3),
      ("y", .ofComparison .gt 5)], ["x", "y"]⟩) := by decide +kernel
  have hb : b.evaluate = .ok (.ranges (.single "x" (.ofComparison .ne 0))) := by decide +kernel
  obtain ⟨-, -, -, hswap⟩ := verdict?_rewriting a b
  exact ⟨ha, hb, (hswap _ _ ha hb).1⟩

end Expr
end Foregone
