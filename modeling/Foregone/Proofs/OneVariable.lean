import Foregone.Proofs.Soundness

/-! # Completeness for conditions on one variable

On conditions that compare one variable with literals, the analysis misses nothing:
it gives a verdict wherever the condition has the same truth at every number, and
elsewhere it knows exactly the numbers that make the condition true. A right operand
of a connective must not be constant itself: nothing is known of a set that is joined
with a truth value. -/

namespace Foregone

variable {Obj Err : Type} {w : World Obj Err} {x : String}

namespace Expr

/-- The number of a truth value or of an integer that is a signed word. -/
def literal? : Expr → Option Int
  | .bool b => some (if b then 1 else 0)
  | .num (some n) true => if Word.fits n then some n else none
  | _ => none

/-- The number of a literal, or of a literal under a minus. -/
def operand? : Expr → Option Int
  | .unary .minus e => e.literal?.map fun n => -n
  | e => e.literal?

/-- The condition yields `b` whatever number `x` holds. -/
def Always (w : World Obj Err) (x : String) (e : Expr) (b : Bool) : Prop :=
  ∀ q, e.run (w.assign x q) = .ok (.bool b)

def Constant (w : World Obj Err) (x : String) (e : Expr) : Prop := ∃ b, e.Always w x b

/-- The conditions on `x` alone whose operands stand for `allowed` numbers. -/
inductive OneVariable (w : World Obj Err) (x : String) (allowed : Int → Prop) : Expr → Prop
  /-- `x c k` -/
  | left (c : Comparison) {k : Expr} {n : Int} (hk : k.operand? = some n) (hn : allowed n) :
      OneVariable w x allowed (.binary (.compare c) (.name x) k false)
  /-- `k c x` -/
  | right (c : Comparison) {k : Expr} {n : Int} (hk : k.operand? = some n) (hn : allowed n) :
      OneVariable w x allowed (.binary (.compare c) k (.name x) false)
  /-- `k c x d j` -/
  | between (c d : Comparison) {k j : Expr} {m n : Int} (hk : k.operand? = some m)
      (hm : allowed m) (hj : j.operand? = some n) (hn : allowed n) :
      OneVariable w x allowed
        (.binary (.compare d) (.binary (.compare c) k (.name x) false) j true)
  | paren {e : Expr} (h : OneVariable w x allowed e) : OneVariable w x allowed (.paren e)
  | not {e : Expr} (h : OneVariable w x allowed e) : OneVariable w x allowed (.unary .not e)
  | connect (c : Connective) {l r : Expr} (hl : OneVariable w x allowed l)
      (hr : OneVariable w x allowed r) (hc : ¬ r.Constant w x) :
      OneVariable w x allowed (.binary (.logical c) l r false)

/-! ## Operands -/

theorem chainsLinked_of_literal {k : Expr} {n : Int} (h : k.literal? = some n) :
    k.chainsLinked = true := by
  unfold literal? at h
  split at h
  · rfl
  · rfl
  · cases h

theorem chainsLinked_of_operand {k : Expr} {n : Int} (h : k.operand? = some n) :
    k.chainsLinked = true := by
  unfold operand? at h
  split at h
  · rename_i e
    obtain ⟨m, hm, -⟩ := Option.map_eq_some_iff.mp h
    change e.chainsLinked = true
    exact chainsLinked_of_literal hm
  · exact chainsLinked_of_literal h

theorem ascend_of_literal {k : Expr} {n : Int} (h : k.literal? = some n) :
    ∃ v, k.ascend = .ok ⟨v, v⟩ ∧ v.toInt? = some n := by
  unfold literal? at h
  split at h
  · exact ⟨_, rfl, h⟩
  · rename_i m
    split at h
    · rename_i hm
      cases h
      refine ⟨.int n, ?_, rfl⟩
      simp only [ascend, literalValue, Value.checked, hm, if_true]
    · cases h
  · cases h

/-- An operand that stands for a signed word is known to the analysis. -/
theorem ascend_of_operand {k : Expr} {n : Int} (h : k.operand? = some n)
    (hn : Word.fits n = true) : ∃ v, k.ascend = .ok ⟨v, v⟩ ∧ v.toInt? = some n := by
  unfold operand? at h
  split at h
  · rename_i e
    obtain ⟨m, hm, rfl⟩ := Option.map_eq_some_iff.mp h
    obtain ⟨v, hv, hint⟩ := ascend_of_literal hm
    refine ⟨.int (-m), ascend_unary hv ?_, rfl⟩
    simp only [Value.unary, hint, Value.checked, hn, if_true]
  · exact ascend_of_literal h

theorem OneVariable.chainsLinked {allowed : Int → Prop} {e : Expr}
    (h : OneVariable w x allowed e) : e.chainsLinked = true := by
  induction h with
  | left c hk hn => simp [Expr.chainsLinked, chainsLinked_of_operand hk]
  | right c hk hn => simp [Expr.chainsLinked, chainsLinked_of_operand hk]
  | between c d hk hm hj hn =>
    simp [Expr.chainsLinked, isComparison, chainsLinked_of_operand hk,
      chainsLinked_of_operand hj]
  | paren h ih => exact ih
  | not h ih => exact ih
  | connect c hl hr hc ihl ihr => simp [Expr.chainsLinked, ihl, ihr]

end Expr

/-! ## Values about one variable -/

namespace Value

/-- A truth value, or a set for `x` alone. -/
def AboutOnly (x : String) (v : Value) : Prop :=
  (∃ b, v = .bool b) ∨ ∃ a, v = .ranges (.single x a)

theorem compare_var {c : Comparison} {v : Value} {n : Int} (h : v.toInt? = some n) :
    (var x).compare c v = .ranges (.single x (.ofComparison c n)) := by
  have hx : (var x).toInt? = none := rfl
  simp only [compare, h, hx]

theorem compare_var_right {c : Comparison} {v : Value} {n : Int} (h : v.toInt? = some n) :
    v.compare c (var x) = .ranges (.single x (.ofComparison c.swapped n)) := by
  have hx : (var x).toInt? = none := rfl
  simp only [compare, h, hx]

theorem chain_single {c : Comparison} {a : IntervalList} {v : Value} :
    (ranges (.single x a)).chain (.var x) c v =
      connect .and (.ranges (.single x a)) ((var x).compare c v) := by
  simp [chain, Constraints.singleVariable?, Constraints.single, and]

theorem AboutOnly.connect {l : Value} {b : IntervalList} (c : Connective) (h : l.AboutOnly x)
    (pl : l.Proper) (pr : (ranges (.single x b)).Proper) :
    (connect c l (.ranges (.single x b))).AboutOnly x := by
  rcases h with ⟨t, rfl⟩ | ⟨a, rfl⟩
  · have ht : (Value.bool t).toBool? = some t := rfl
    simp only [Value.connect, ht]
    split
    · exact .inl ⟨t, rfl⟩
    · exact .inr ⟨b, rfl⟩
  · simp only [Value.connect, pl.toBool?_ranges,
      Constraints.join?_single c (Constraints.combine_proper c pl pr).1]
    by_cases habs : c.combine a b = c.absorbing
    · rw [if_pos habs]
      exact .inl ⟨c.verdict, rfl⟩
    · rw [if_neg habs]
      exact .inr ⟨c.combine a b, rfl⟩

theorem AboutOnly.not {v : Value} (h : v.AboutOnly x) (pv : v.Proper) :
    ∃ u, v.not = .ok u ∧ u.AboutOnly x := by
  rcases h with ⟨t, rfl⟩ | ⟨a, rfl⟩
  · exact ⟨.bool !t, rfl, .inl ⟨!t, rfl⟩⟩
  · rcases Constraints.Proper.negate_cases pv with ⟨y, b, a', he, -, hn, -⟩ | ⟨h2, -⟩
    · cases he
      refine ⟨.ranges (.single x a'), ?_, .inr ⟨a', rfl⟩⟩
      simp only [Value.not, pv.toBool?_ranges, hn]
      rfl
    · exact absurd h2 (by simp [Constraints.single])

end Value

namespace Expr

theorem always_of_evaluate {e : Expr} {b : Bool} (hl : e.chainsLinked = true)
    (h : e.evaluate = .ok (.bool b)) : e.Always w x b :=
  fun _ => (evaluate_describes hl h).2

/-- Where evaluation yields a set for `x`, the condition is true at the numbers in it. -/
theorem run_of_evaluate {e : Expr} {a : IntervalList} (hl : e.chainsLinked = true)
    (h : e.evaluate = .ok (.ranges (.single x a))) (q : ℚ) :
    ∃ b, e.run (w.assign x q) = .ok (.bool b) ∧ (b = true ↔ a.Holds q) := by
  have hd := Value.describes_single.mp (evaluate_describes (w := w.assign x q) hl h).2
  simpa only [World.assign, if_true] using hd

/-- A set that evaluation yields for `x` is neither empty nor full, so the condition has
both truths. -/
theorem not_constant_of_evaluate {e : Expr} {a : IntervalList} (hl : e.chainsLinked = true)
    (h : e.evaluate = .ok (.ranges (.single x a))) : ¬ e.Constant w x := by
  obtain ⟨hcan, hempty, hfull⟩ :=
    Constraints.proper_single_iff.mp (evaluate_describes (w := w) hl h).1
  have hrun : ∀ b, e.Always w x b → ∀ q, b = true ↔ a.Holds q := by
    intro b hb q
    obtain ⟨b', hb', hq⟩ := run_of_evaluate (w := w) hl h q
    cases (hb q).symm.trans hb'
    exact hq
  rintro ⟨b, hb⟩
  cases b with
  | false =>
    refine hempty (IntervalList.eq_empty_of_not_holds fun q hq => ?_)
    cases (hrun false hb q).mpr hq
  | true => exact hfull (IntervalList.eq_everything_of_holds hcan fun q => (hrun true hb q).mp rfl)

/-- Evaluation knows a condition on `x` alone: it settles it or finds a set for `x`. -/
theorem OneVariable.ascend {e : Expr} (h : OneVariable w x (fun n => Word.fits n = true) e) :
    ∃ a, e.ascend = .ok a ∧ a.result.AboutOnly x := by
  induction h with
  | left c hk hn =>
    obtain ⟨v, hv, hint⟩ := ascend_of_operand hk hn
    exact ⟨_, ascend_binary rfl hv, .inr ⟨_, Value.compare_var hint⟩⟩
  | right c hk hn =>
    obtain ⟨v, hv, hint⟩ := ascend_of_operand hk hn
    exact ⟨_, ascend_binary hv rfl, .inr ⟨_, Value.compare_var_right hint⟩⟩
  | between c d hk hm hj hn =>
    obtain ⟨v, hv, hint⟩ := ascend_of_operand hk hm
    obtain ⟨u, hu, hint'⟩ := ascend_of_operand hj hn
    refine ⟨_, ascend_binary (ascend_binary hv rfl) hu, ?_⟩
    change ((v.compare c (.var x)).chain (.var x) d u).AboutOnly x
    rw [Value.compare_var_right hint, Value.chain_single, Value.compare_var hint']
    exact Value.AboutOnly.connect .and (.inr ⟨_, rfl⟩) (Constraints.proper_ofComparison x _ _)
      (Constraints.proper_ofComparison x d _)
  | paren h ih =>
    obtain ⟨a, ha, hx⟩ := ih
    exact ⟨_, ascend_paren ha, hx⟩
  | not h ih =>
    obtain ⟨a, ha, hx⟩ := ih
    obtain ⟨u, hu, hux⟩ := hx.not (proper_of_ascend ha)
    exact ⟨_, ascend_unary ha hu, hux⟩
  | @connect c l r hl hr hc ihl ihr =>
    obtain ⟨below, hbelow, hx⟩ := ihl
    obtain ⟨right, hright, hrx⟩ := ihr
    have pr := proper_of_ascend hright
    refine ⟨_, ascend_binary hbelow hright, ?_⟩
    change (Value.connect c below.result right.result).AboutOnly x
    rcases hrx with ⟨b, hb⟩ | ⟨a, ha⟩
    · have hev : r.evaluate = .ok (.bool b) := by
        rw [evaluate_eq, hright, ← hb]
        rfl
      exact (hc ⟨b, always_of_evaluate hr.chainsLinked hev⟩).elim
    · rw [ha] at pr ⊢
      exact hx.connect c (proper_of_ascend hbelow) pr

theorem OneVariable.evaluate {e : Expr} (h : OneVariable w x (fun n => Word.fits n = true) e) :
    (∃ b, e.evaluate = .ok (.bool b)) ∨ ∃ a, e.evaluate = .ok (.ranges (.single x a)) := by
  obtain ⟨a, ha, hx⟩ := h.ascend
  rw [evaluate_eq, ha]
  rcases hx with ⟨b, hb⟩ | ⟨s, hs⟩
  · exact .inl ⟨b, congrArg Except.ok hb⟩
  · exact .inr ⟨s, congrArg Except.ok hs⟩

/-- Completeness. A condition on `x` alone has a verdict exactly where it is constant, and
one that is not constant evaluates to the set of the numbers that make it true. -/
theorem verdict_complete (w : World Obj Err) (x : String) {e : Expr}
    (h : OneVariable w x (fun n => Word.fits n = true) e) :
    (∀ b, e.verdict? = .ok (some b) ↔ e.Always w x b) ∧
    (¬ e.Constant w x → ∃ a, e.evaluate = .ok (.ranges ⟨[(x, a)], []⟩) ∧
      ∀ q, ∃ b, e.run (w.assign x q) = .ok (.bool b) ∧ (b = true ↔ a.Holds q)) := by
  have hl := h.chainsLinked
  rcases h.evaluate with ⟨b, hb⟩ | ⟨a, ha⟩
  · have hverdict : e.verdict? = .ok (some b) := by
      rw [verdict?, hb]
      rfl
    have halways : e.Always w x b := always_of_evaluate hl hb
    refine ⟨fun b' => ?_, fun hc => (hc ⟨b, halways⟩).elim⟩
    rw [hverdict]
    constructor
    · intro hb'
      cases hb'
      exact halways
    · intro hb'
      cases (halways 0).symm.trans (hb' 0)
      rfl
  · have hc : ¬ e.Constant w x := not_constant_of_evaluate hl ha
    refine ⟨fun b => ?_, fun _ => ⟨a, ha, run_of_evaluate hl ha⟩⟩
    constructor
    · intro hb
      rw [verdict?, ha] at hb
      cases (evaluate_describes (w := w) hl ha).1.toBool?_ranges.symm.trans (Except.ok.inj hb)
    · intro hb
      exact (hc ⟨b, hb⟩).elim

/-- `(x < 3 and 5 < x) or 0 < x <= 7`: the left condition has come to a constant, and the
chain is what remains. -/
theorem verdict_complete_constant_left :
    let w : World Empty Unit := .raising fun _ => 0
    let l : Expr := .binary (.logical .and)
      (.binary (.compare .lt) (.name "x") (.num (some 3) true) false)
      (.binary (.compare .lt) (.num (some 5) true) (.name "x") false) false
    let r : Expr := .binary (.compare .le)
      (.binary (.compare .lt) (.num (some 0) true) (.name "x") false) (.num (some 7) true) true
    let e : Expr := .binary (.logical .or) (.paren l) r false
    OneVariable w "x" (fun n => Word.fits n = true) e ∧ l.Always w "x" false ∧
      ∃ a, e.evaluate = .ok (.ranges ⟨[("x", a)], []⟩) ∧
        ∀ q, ∃ b, e.run (w.assign "x" q) = .ok (.bool b) ∧ (b = true ↔ a.Holds q) := by
  intro w l r e
  have hfive : ¬ Constant w "x" (.binary (.compare .lt) (.num (some 5) true) (.name "x") false) :=
    not_constant_of_evaluate (a := .ofComparison .gt 5) (by decide) (by decide +kernel)
  have hchain : ¬ r.Constant w "x" :=
    not_constant_of_evaluate (a := .intersect (.ofComparison .gt 0) (.ofComparison .le 7))
      (by decide) (by decide +kernel)
  have hwhole : ¬ e.Constant w "x" :=
    not_constant_of_evaluate (a := .intersect (.ofComparison .gt 0) (.ofComparison .le 7))
      (by decide) (by decide +kernel)
  have hl : OneVariable w "x" (fun n => Word.fits n = true) l :=
    .connect .and (.left .lt rfl (by decide)) (.right .lt rfl (by decide)) hfive
  have he : OneVariable w "x" (fun n => Word.fits n = true) e :=
    .connect .or (.paren hl) (.between .lt .le rfl (by decide) rfl (by decide)) hchain
  exact ⟨he, ((verdict_complete w "x" hl).1 false).mp (by decide +kernel),
    (verdict_complete w "x" he).2 hwhole⟩

/-- `x < -k` for the least word `k`: the operand is a literal under a minus, but not a
word itself, and nothing is known of the condition. -/
theorem unknown_of_negated_least_word :
    let w : World Empty Unit := .raising fun _ => 0
    let e : Expr := .binary (.compare .lt) (.name "x")
      (.unary .minus (.num (some (-9223372036854775808)) true)) false
    OneVariable w "x" (fun _ => True) e ∧ ¬ e.Constant w "x" ∧ e.evaluate = .ok .unknown := by
  intro w e
  refine ⟨.left .lt rfl trivial, ?_, by decide +kernel⟩
  rintro ⟨b, hb⟩
  have hzero : e.run (w.assign "x" 0) = .ok (.bool true) := by decide +kernel
  have hlarge : e.run (w.assign "x" 9223372036854775808) = .ok (.bool false) := by
    decide +kernel
  cases hzero.symm.trans ((hb 0).trans (hlarge.symm.trans (hb _)).symm)

end Expr
end Foregone
