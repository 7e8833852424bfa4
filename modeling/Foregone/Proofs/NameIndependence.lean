import Foregone.Proofs.OneVariable
import Foregone.Proofs.Renaming

/-! # Verdicts do not depend on names

A renaming may give two variables the same name. A condition on both of them then
becomes a condition on one, which can be settled where the former was open; so of a
value that is unknown, or about several variables, nothing can be said. But a value
that is known exactly, without any taint, stays what it is up to the names. -/

namespace Foregone

variable {s : String → String}

namespace Value

/-- `w` is what becomes of `v` under a renaming, where `v` is known exactly. -/
def Survives (s : String → String) : Value → Value → Prop
  | .unknown, _ => True
  | .int n, w => w = .int n
  | .bool b, w => w = .bool b
  | .var x, w => w = .var (s x)
  | .ranges c, w => ∀ x a, c = .single x a → w = .ranges (.single (s x) a)

theorem survives_single (x : String) (a : IntervalList) :
    Survives s (.ranges (.single x a)) (.ranges (.single (s x) a)) := by
  intro y b he
  cases he
  rfl

theorem Survives.single {x : String} {a : IntervalList} {w : Value}
    (h : Survives s (.ranges (.single x a)) w) : w = .ranges (.single (s x) a) := h x a rfl

theorem survives_of_two_le {c : Constraints} {w : Value} (h : 2 ≤ c.entries.length) :
    Survives s (.ranges c) w := by
  rintro x a rfl
  exact absurd h (by simp [Constraints.single])

theorem Nameless.survives {v : Value} (h : v.Nameless) : Survives s v v := by
  rcases h with rfl | ⟨n, rfl⟩
  · trivial
  · rfl

theorem Survives.eq_of_toInt? {v w : Value} {n : Int} (h : Survives s v w)
    (hn : v.toInt? = some n) : w = v := by
  cases v with
  | int m => exact h
  | bool b => exact h
  | unknown => cases hn
  | var x => cases hn
  | ranges c => cases hn

/-! ## Operations -/

theorem connect_single (c : Connective) {x : String} {a b : IntervalList}
    (pl : (ranges (.single x a)).Proper) (pr : (ranges (.single x b)).Proper) :
    connect c (.ranges (.single x a)) (.ranges (.single x b)) =
      if c.combine a b = c.absorbing then .bool c.verdict
      else .ranges (.single x (c.combine a b)) := by
  simp only [connect, pl.toBool?_ranges,
    Constraints.join?_single c (Constraints.combine_proper c pl pr).1]
  by_cases habs : c.combine a b = c.absorbing
  · rw [if_pos habs, if_pos habs]
  · rw [if_neg habs, if_neg habs]

theorem Survives.connect (c : Connective) {l l' r r' : Value} (pl : l.Proper) (pr : r.Proper)
    (hl : Survives s l l') (hr : Survives s r r') :
    Survives s (Value.connect c l r) (Value.connect c l' r') := by
  cases l with
  | unknown => trivial
  | var x => trivial
  | int n =>
    cases hl
    simp only [Value.connect, toBool?]
    split
    · rfl
    · exact hr
  | bool b =>
    cases hl
    simp only [Value.connect, toBool?]
    split
    · rfl
    · exact hr
  | ranges a =>
    cases r with
    | ranges b =>
      rcases Constraints.Proper.join?_cases c pl pr with ⟨x, p, q, rfl, rfl, -⟩ | ⟨j, hj, -, h2⟩
      · rw [hl.single, hr.single, connect_single c pl pr,
          connect_single c (Constraints.proper_single_iff.mpr (Constraints.proper_single_iff.mp pl))
            (Constraints.proper_single_iff.mpr (Constraints.proper_single_iff.mp pr))]
        split
        · rfl
        · exact survives_single x _
      · simp only [Value.connect, pl.toBool?_ranges, hj]
        exact survives_of_two_le h2
    | _ =>
      simp only [Value.connect, pl.toBool?_ranges]
      trivial

theorem Survives.compare (c : Comparison) {l l' r r' : Value} (hl : Survives s l l')
    (hr : Survives s r r') : Survives s (l.compare c r) (l'.compare c r') := by
  cases hm : l.toInt? with
  | none =>
    cases hn : r.toInt? with
    | none =>
      simp only [Value.compare, hm, hn]
      trivial
    | some n =>
      rw [hr.eq_of_toInt? hn]
      cases l with
      | var x =>
        cases hl
        rw [compare_var hn, compare_var hn]
        exact survives_single x _
      | _ =>
        simp only [Value.compare, hm, hn]
        trivial
  | some m =>
    rw [hl.eq_of_toInt? hm]
    cases hn : r.toInt? with
    | none =>
      cases r with
      | var x =>
        cases hr
        rw [compare_var_right hm, compare_var_right hm]
        exact survives_single x _
      | _ =>
        simp only [Value.compare, hm, hn]
        trivial
    | some n =>
      rw [hr.eq_of_toInt? hn]
      simp only [Value.compare, hm, hn]
      rfl

theorem Survives.arith (op : Arithmetic) {l l' r r' : Value} (hl : Survives s l l')
    (hr : Survives s r r') : Survives s (l.arith op r) (l'.arith op r') := by
  cases hm : l.toInt? with
  | none =>
    simp only [Value.arith, hm]
    trivial
  | some m =>
    cases hn : r.toInt? with
    | none =>
      simp only [Value.arith, hm, hn]
      trivial
    | some n =>
      rw [hl.eq_of_toInt? hm, hr.eq_of_toInt? hn]
      exact (nameless_arith l op r).survives

theorem Survives.chain (c : Comparison) {l l' m m' r r' : Value} (pl : l.Proper)
    (hl : Survives s l l') (hm : Survives s m m') (hr : Survives s r r') :
    Survives s (l.chain m c r) (l'.chain m' c r') := by
  cases l with
  | unknown => trivial
  | var x => trivial
  | int n =>
    cases hl
    exact Survives.connect .and pl (proper_compare m c r) rfl (hm.compare c hr)
  | bool b =>
    cases hl
    exact Survives.connect .and pl (proper_compare m c r) rfl (hm.compare c hr)
  | ranges a =>
    rcases Constraints.Proper.shape pl with ⟨x, p, rfl, -⟩ | ⟨hlen, -⟩
    · by_cases hx : m = .var x
      · subst hx
        cases hm
        rw [hl.single, chain_single, chain_single]
        exact Survives.connect .and pl (proper_compare _ c r) (survives_single x p)
          (Survives.compare c rfl hr)
      · have hopen : (ranges (.single x p)).chain m c r = .unknown := by
          simp [Value.chain, Constraints.singleVariable?, Constraints.single, hx]
        rw [hopen]
        trivial
    · have hopen : (ranges a).chain m c r = .unknown := by
        simp only [Value.chain, Constraints.singleVariable?_of_two_le hlen]
      rw [hopen]
      trivial

theorem Survives.binary (op : BinaryOp) {l l' r r' : Value} (pl : l.Proper) (pr : r.Proper)
    (hl : Survives s l l') (hr : Survives s r r') :
    Survives s (Value.binary op l r) (Value.binary op l' r') := by
  cases op with
  | logical c => exact hl.connect c pl pr hr
  | compare c => exact hl.compare c hr
  | arith a => exact hl.arith a hr
  | unsupported symbol => trivial

theorem Survives.not {v w u u' : Value} (pv : v.Proper) (h : Survives s v w)
    (hu : v.not = .ok u) (hu' : w.not = .ok u') : Survives s u u' := by
  cases v with
  | unknown =>
    cases hu
    trivial
  | var x =>
    cases hu
    trivial
  | int n =>
    cases h
    cases hu.symm.trans hu'
    cases hu
    rfl
  | bool b =>
    cases h
    cases hu.symm.trans hu'
    cases hu
    rfl
  | ranges c =>
    simp only [Value.not, pv.toBool?_ranges] at hu
    rcases Constraints.Proper.negate_cases pv with ⟨x, a, a', rfl, hc, hn, hp⟩ | ⟨hlen, hn⟩
    · rw [hn] at hu
      cases hu
      have pw : (ranges (.single (s x) a)).Proper :=
        Constraints.proper_single_iff.mpr (Constraints.proper_single_iff.mp pv)
      simp only [h.single, Value.not, pw.toBool?_ranges, Constraints.negate_single hc] at hu'
      cases hu'
      exact survives_single x a'
    · rw [hn] at hu
      cases hu
      exact survives_of_two_le hlen

theorem Survives.unary (op : UnaryOp) {v w u u' : Value} (pv : v.Proper) (h : Survives s v w)
    (hu : Value.unary op v = .ok u) (hu' : Value.unary op w = .ok u') : Survives s u u' := by
  cases op with
  | not => exact h.not pv hu hu'
  | plus =>
    cases hn : v.toInt? with
    | none =>
      simp only [Value.unary, hn] at hu
      cases hu
      trivial
    | some n =>
      cases h.eq_of_toInt? hn
      cases hu.symm.trans hu'
      simp only [Value.unary, hn] at hu
      cases hu
      rfl
  | minus =>
    cases hn : v.toInt? with
    | none =>
      simp only [Value.unary, hn] at hu
      cases hu
      trivial
    | some n =>
      cases h.eq_of_toInt? hn
      cases hu.symm.trans hu'
      simp only [Value.unary, hn] at hu
      cases hu
      exact (nameless_checked _).survives
  | unsupported symbol =>
    cases hu
    trivial

end Value

namespace Expr

/-- What is known exactly of an expression survives any renaming, in its value and in the
operand it shares with a chain. -/
theorem ascend_survives (s : String → String) (e : Expr) :
    ∃ a a', e.ascend = .ok a ∧ (e.rename s).ascend = .ok a' ∧
      Value.Survives s a.result a'.result ∧ Value.Survives s a.middle a'.middle := by
  induction e with
  | num v isInteger =>
    have hn := nameless_literal v isInteger
    exact ⟨_, _, rfl, rfl, hn.survives, hn.survives⟩
  | bool b => exact ⟨_, _, rfl, rfl, rfl, rfl⟩
  | name x => exact ⟨_, _, rfl, rfl, rfl, rfl⟩
  | foreign kind => exact ⟨_, _, rfl, rfl, trivial, trivial⟩
  | paren e ih =>
    obtain ⟨a, a', ha, ha', hv, -⟩ := ih
    exact ⟨_, _, ascend_paren ha, ascend_paren ha', hv, hv⟩
  | unary op e ih =>
    obtain ⟨a, a', ha, ha', hv, -⟩ := ih
    obtain ⟨u, hu, -⟩ := (proper_of_ascend ha).unary op
    obtain ⟨u', hu', -⟩ := (proper_of_ascend ha').unary op
    have hs := hv.unary op (proper_of_ascend ha) hu hu'
    exact ⟨_, _, ascend_unary ha hu, ascend_unary ha' hu', hs, hs⟩
  | binary op l r chained ihl ihr =>
    obtain ⟨below, below', hl, hl', hb, hm⟩ := ihl
    obtain ⟨right, right', hr, hr', hv, -⟩ := ihr
    have hrenamed : (Expr.rename s (.binary op l r chained)).ascend =
        .ok (Link.apply below' ⟨op, chained && l.isBinary, right'.result⟩) := by
      rw [Expr.rename, ascend_binary hl' hr', isBinary_rename]
    refine ⟨_, _, ascend_binary hl hr, hrenamed, ?_, hv⟩
    rcases Link.apply_cases op (chained && l.isBinary) with ⟨c, -, -, happly⟩ | happly
    · rw [happly, happly]
      exact hb.chain c (proper_of_ascend hl) hm hv
    · rw [happly, happly]
      exact hb.binary op (proper_of_ascend hl) (proper_of_ascend hr) hv

/-- Under any renaming, also one that gives different variables the same name, known
integers and truth values stay the same; and under a renaming that keeps the variables
of the expression apart, the value is the same up to the names. -/
theorem evaluate_rename (s : String → String) (e : Expr) :
    ∃ v w, e.evaluate = .ok v ∧ (e.rename s).evaluate = .ok w ∧
      (∀ n, v = .int n → w = .int n) ∧ (∀ b, v = .bool b → w = .bool b) ∧
      (Set.InjOn s {x | x ∈ e.names} → w = v.rename s) := by
  obtain ⟨a, a', ha, ha', hv, -⟩ := ascend_survives s e
  refine ⟨_, _, evaluate_of_ascend ha, evaluate_of_ascend ha', fun n hn => ?_, fun b hb => ?_,
    fun hs => ?_⟩
  · rw [hn] at hv
    exact hv
  · rw [hb] at hv
    exact hv
  · obtain ⟨b, hb, hb', -⟩ := ascend_rename hs e fun x hx => hx
    cases ha.symm.trans hb
    cases ha'.symm.trans hb'
    rfl

/-- Two variables under one name: what was settled stays settled. Two variables that
change places: the entries change places too. -/
theorem evaluate_rename_two_variables :
    let below (x : String) (n : Int) := binary (.compare .lt) (.name x) (.num (some n) true) false
    let settled := binary (.logical .and) (binary (.logical .and) (below "x" 3)
      (.unary .not (below "x" 5)) false) (below "y" 7) false
    let undecided := binary (.logical .and) (below "x" 3) (below "y" 7) false
    let swap := fun x => if x = "x" then "y" else "x"
    settled.evaluate = .ok (.bool false) ∧
    (settled.rename fun _ => "z").evaluate = .ok (.bool false) ∧
    Set.InjOn swap {x | x ∈ undecided.names} ∧
    (undecided.rename swap).evaluate = undecided.evaluate.map (Value.rename swap) := by
  intro below settled undecided swap
  have hsettled : settled.evaluate = .ok (.bool false) := by decide +kernel
  have hswap : Set.InjOn swap {x | x ∈ undecided.names} := by
    intro x hx y hy hxy
    have hx : x = "x" ∨ x = "y" := by simpa [undecided, below, names] using hx
    have hy : y = "x" ∨ y = "y" := by simpa [undecided, below, names] using hy
    rcases hx with rfl | rfl <;> rcases hy with rfl | rfl <;> simp_all [swap]
  obtain ⟨v, w, hv, hw, -, hbool, -⟩ := evaluate_rename (fun _ => "z") settled
  have hv : v = .bool false := Except.ok.inj (hv.symm.trans hsettled)
  obtain ⟨v', w', hv', hw', -, -, hapart⟩ := evaluate_rename swap undecided
  refine ⟨hsettled, ?_, hswap, ?_⟩
  · rw [hw, hbool false hv]
  · rw [hw', hv', hapart hswap]
    rfl

end Expr
end Foregone
