import Foregone.Proofs.Ascent
import Foregone.Proofs.Describes

/-! # Soundness of the analysis

Whatever a world does with the parts that are not understood, the value of an
expression describes what its run yields. The induction also carries what a chain
needs: the operand a comparison shares with the next link is described too, and a
comparison that has stopped is not true. -/

namespace Foregone

variable {Obj Err : Type} {w : World Obj Err} {p : Place}

/-! ## Runs part by part -/

namespace World

theorem map_value_comparison (c : Comparison) (a b : Datum Obj) :
    (w.comparison p c a b).map Trail.value = w.compare p c a b := by
  unfold comparison
  cases w.compare p c a b <;> rfl

theorem shared_of_comparison {c : Comparison} {a b : Datum Obj} {t : Trail Obj}
    (h : w.comparison p c a b = .ok t) : t.shared = some b := by
  unfold comparison at h
  cases hc : w.compare p c a b with
  | error e =>
    rw [hc] at h
    cases h
  | ok v =>
    rw [hc] at h
    cases h
    rfl

/-- A link is the conjunction of the links before it with its own comparison. -/
theorem map_value_link {c : Comparison} {t : Trail Obj} {ro : Except Err (Datum Obj)}
    (hs : t.shared = none → w.truth p t.value = .ok false) :
    (w.link p c t ro).map Trail.value = w.connect p .and (.ok t.value)
      (match t.shared with
        | none => ro
        | some m => do let b ← ro; w.compare p c m b) := by
  unfold link
  cases hm : t.shared with
  | none =>
    simp only [connect, bind, Except.bind, hs hm]
    rfl
  | some m =>
    simp only [connect, bind, Except.bind]
    cases w.truth p t.value with
    | error e => rfl
    | ok b =>
      cases b with
      | false => rfl
      | true =>
        cases ro with
        | error e => rfl
        | ok d => exact map_value_comparison c m d

/-- After a link the shared operand is its right one, unless the chain has stopped at
a value that is not true. -/
theorem link_cases {c : Comparison} {t u : Trail Obj} {ro : Except Err (Datum Obj)}
    (h : w.link p c t ro = .ok u) :
    (∃ b, ro = .ok b ∧ u.shared = some b) ∨ (u.shared = none ∧ u.value = t.value ∧
      (t.shared = none ∨ w.truth p t.value = .ok false)) := by
  unfold link at h
  split at h
  · rename_i hs
    cases h
    exact .inr ⟨hs, rfl, .inl hs⟩
  · cases ht : w.truth p t.value with
    | error e =>
      rw [ht] at h
      cases h
    | ok b =>
      rw [ht] at h
      cases b with
      | false =>
        cases h
        exact .inr ⟨rfl, rfl, .inr rfl⟩
      | true =>
        cases ro with
        | error e => cases h
        | ok d => exact .inl ⟨d, rfl, shared_of_comparison h⟩

end World

namespace Expr

theorem runAt_paren (e : Expr) : (paren e).runAt w p = e.runAt w (0 :: p) := by
  simp only [runAt, follow]
  cases e.follow w (0 :: p) <;> rfl

theorem runAt_unary {op : UnaryOp} (e : Expr) (h : ∀ s, op ≠ .unsupported s) :
    (unary op e).runAt w p = (do let a ← e.runAt w (0 :: p); w.unary p op a) := by
  have hf : (unary op e).follow w p = (do
      let a ← e.follow w (0 :: p)
      return ⟨← w.unary p op a.value, none⟩) := by
    cases op with
    | unsupported s => exact (h s rfl).elim
    | not | plus | minus => rfl
  simp only [runAt, hf]
  cases e.follow w (0 :: p) with
  | error e => rfl
  | ok t =>
    simp only [bind, Except.bind, Except.map]
    cases w.unary p op t.value <;> rfl

theorem runAt_logical (c : Connective) (l r : Expr) (chained : Bool) :
    (binary (.logical c) l r chained).runAt w p =
      w.connect p c (l.runAt w (0 :: p)) (r.runAt w (1 :: p)) := by
  simp only [runAt, follow]
  cases w.connect p c ((l.follow w (0 :: p)).map Trail.value)
    ((r.follow w (1 :: p)).map Trail.value) <;> rfl

theorem runAt_arith (op : Arithmetic) (l r : Expr) (chained : Bool) :
    (binary (.arith op) l r chained).runAt w p = (do
      let a ← l.runAt w (0 :: p)
      let b ← r.runAt w (1 :: p)
      w.arith p op a b) := by
  simp only [runAt, follow]
  cases l.follow w (0 :: p) with
  | error e => rfl
  | ok a =>
    cases r.follow w (1 :: p) with
    | error e => rfl
    | ok b =>
      simp only [bind, Except.bind, Except.map]
      cases w.arith p op a.value b.value <;> rfl

/-- A comparison that continues no other one. -/
theorem follow_compare {c : Comparison} {l r : Expr} {chained : Bool}
    (h : (chained && l.isComparison) = false) :
    (binary (.compare c) l r chained).follow w p = (do
      let a ← l.runAt w (0 :: p)
      let b ← r.runAt w (1 :: p)
      w.comparison p c a b) := by
  simp only [runAt, follow, h]
  cases l.follow w (0 :: p) <;> rfl

theorem runAt_compare {c : Comparison} {l r : Expr} {chained : Bool}
    (h : (chained && l.isComparison) = false) :
    (binary (.compare c) l r chained).runAt w p = (do
      let a ← l.runAt w (0 :: p)
      let b ← r.runAt w (1 :: p)
      w.compare p c a b) := by
  rw [runAt, follow_compare h]
  cases l.runAt w (0 :: p) with
  | error e => rfl
  | ok a =>
    cases r.runAt w (1 :: p) with
    | error e => rfl
    | ok b => exact World.map_value_comparison c a b

/-- It shares its right operand with the next link. -/
theorem shared_of_compare {c : Comparison} {l r : Expr} {chained : Bool} {t : Trail Obj}
    (h : (chained && l.isComparison) = false)
    (ht : (binary (.compare c) l r chained).follow w p = .ok t) :
    ∃ b, r.runAt w (1 :: p) = .ok b ∧ t.shared = some b := by
  rw [follow_compare h] at ht
  cases hlo : l.runAt w (0 :: p) with
  | error e =>
    rw [hlo] at ht
    cases ht
  | ok a =>
    cases hro : r.runAt w (1 :: p) with
    | error e =>
      rw [hlo, hro] at ht
      cases ht
    | ok b =>
      rw [hlo, hro] at ht
      exact ⟨b, rfl, World.shared_of_comparison ht⟩

/-- A comparison that continues the one on its left. -/
theorem follow_link {c : Comparison} {l r : Expr} {chained : Bool}
    (h : (chained && l.isComparison) = true) :
    (binary (.compare c) l r chained).follow w p = (do
      let t ← l.follow w (0 :: p)
      w.link p c t (r.runAt w (1 :: p))) := by
  simp only [runAt, follow, h]
  rfl

end Expr

/-! ## Chains -/

/-- Not true, as far as the analysis understands it. -/
def Datum.Falsy : Datum Obj → Prop
  | .bool b => b = false
  | .num q => q = 0
  | .obj _ => True

theorem World.truth_of_falsy {d : Datum Obj} (h : d.Falsy) (ho : ∀ o, d ≠ .obj o) :
    w.truth p d = .ok false := by
  cases d with
  | bool b =>
    cases h
    rfl
  | num q =>
    cases h
    simp [World.truth]
  | obj o => exact (ho o rfl).elim

theorem World.falsy_of_truth {d : Datum Obj} (h : w.truth p d = .ok false) : d.Falsy := by
  cases d with
  | bool b =>
    cases h
    rfl
  | num q =>
    have hq : decide (q ≠ 0) = false := Except.ok.inj h
    simpa [Datum.Falsy] using hq
  | obj o => trivial

namespace Value

/-- The next link of a chain, where the links before it yield a number or a truth
value. -/
theorem describes_and_link {l m r : Value} {c : Comparison} {t : Trail Obj}
    {ro : Except Err (Datum Obj)} (pl : l.Proper) (hl : l.Describes w (.ok t.value))
    (ho : ∀ o, t.value ≠ .obj o) (hm : ∀ d, t.shared = some d → m.Describes w (.ok d))
    (hs : t.shared = none → t.value.Falsy) (hr : r.Describes w ro) :
    (l.and (m.compare c r)).Describes w ((w.link p c t ro).map Trail.value) := by
  have hfalse : t.shared = none → w.truth p t.value = .ok false :=
    fun hn => World.truth_of_falsy (hs hn) ho
  rw [World.map_value_link hfalse]
  refine describes_connect pl (proper_compare m c r) hl fun d hd ht => ?_
  cases hd
  cases hsh : t.shared with
  | none => cases ht.symm.trans (hfalse hsh)
  | some d => exact describes_compare c (hm d hsh) hr

theorem describes_chain {l m r : Value} {c : Comparison} {before : Except Err (Trail Obj)}
    {ro : Except Err (Datum Obj)} (pl : l.Proper) (hl : l.Describes w (before.map Trail.value))
    (hm : ∀ t d, before = .ok t → t.shared = some d → m.Describes w (.ok d))
    (hs : ∀ t, before = .ok t → t.shared = none → t.value.Falsy) (hr : r.Describes w ro) :
    (l.chain m c r).Describes w ((do let t ← before; w.link p c t ro).map Trail.value) := by
  have step : ∀ d : Datum Obj, before.map Trail.value = .ok d → (∀ o, d ≠ .obj o) →
      (l.and (m.compare c r)).Describes w
        ((do let t ← before; w.link p c t ro).map Trail.value) := by
    intro d hd ho
    cases before with
    | error e => cases hd
    | ok t =>
      cases hd
      exact describes_and_link pl hl ho (fun d => hm t d rfl) (hs t rfl) hr
  cases l with
  | unknown => trivial
  | var x => trivial
  | int n => exact step _ hl (fun o => by simp)
  | bool b => exact step _ hl (fun o => by simp)
  | ranges k =>
    rcases Constraints.Proper.shape pl with ⟨x, a, rfl, -, -⟩ | ⟨hlen, ht⟩
    · obtain ⟨b, hb, -⟩ := describes_single.mp hl
      have hand := step _ hb (fun o => by simp)
      simp only [chain, Constraints.singleVariable?, Constraints.single]
      split
      · rename_i hx
        rw [hx] at hand
        exact hand
      · trivial
    · have hnone : k.singleVariable? = none := by
        unfold Constraints.singleVariable?
        split
        · rename_i he
          rw [he] at hlen
          exact absurd hlen (by simp)
        · rfl
      simp only [chain, hnone]
      trivial

end Value

/-! ## Expressions -/

/-- What the induction carries for an expression at a place. -/
structure SoundAt (w : World Obj Err) (p : Place) (e : Expr) (a : Ascent) : Prop where
  value : a.result.Describes w (e.runAt w p)
  shared : e.isComparison = true → ∀ t d, e.follow w p = .ok t → t.shared = some d →
    a.middle.Describes w (.ok d)
  stopped : e.isComparison = true → ∀ t, e.follow w p = .ok t → t.shared = none → t.value.Falsy

theorem SoundAt.of_value {e : Expr} {a : Ascent} (he : e.isComparison = false)
    (h : a.result.Describes w (e.runAt w p)) : SoundAt w p e a :=
  ⟨h, by simp [he], by simp [he]⟩

theorem soundAt_compare {c : Comparison} {l r : Expr} {chained : Bool} {below right : Ascent}
    (h : (chained && l.isComparison) = false)
    (hl : below.result.Describes w (l.runAt w (0 :: p)))
    (hr : right.result.Describes w (r.runAt w (1 :: p))) :
    SoundAt w p (.binary (.compare c) l r chained)
      (Link.apply below ⟨.compare c, false, right.result⟩) := by
  refine ⟨?_, fun _ t d ht hd => ?_, fun _ t ht hn => ?_⟩
  · rw [Expr.runAt_compare h]
    exact Value.describes_compare c hl hr
  · obtain ⟨b, hb, hs⟩ := Expr.shared_of_compare h ht
    cases hs.symm.trans hd
    rw [hb] at hr
    exact hr
  · obtain ⟨b, -, hs⟩ := Expr.shared_of_compare h ht
    cases hs.symm.trans hn

theorem soundAt_link {c : Comparison} {l r : Expr} {chained : Bool} {below right : Ascent}
    (h : (chained && l.isComparison) = true) (pl : below.result.Proper)
    (hl : SoundAt w (0 :: p) l below)
    (hr : right.result.Describes w (r.runAt w (1 :: p))) :
    SoundAt w p (.binary (.compare c) l r chained)
      (Link.apply below ⟨.compare c, true, right.result⟩) := by
  have hcomp : l.isComparison = true := (Bool.and_eq_true_iff.mp h).2
  have hfollow := Expr.follow_link (w := w) (p := p) (c := c) (r := r) h
  have hlink : ∀ u, (Expr.binary (.compare c) l r chained).follow w p = .ok u →
      ∃ t, l.follow w (0 :: p) = .ok t ∧ w.link p c t (r.runAt w (1 :: p)) = .ok u := by
    intro u hu
    rw [hfollow] at hu
    cases ht : l.follow w (0 :: p) with
    | error e =>
      rw [ht] at hu
      cases hu
    | ok t =>
      rw [ht] at hu
      exact ⟨t, rfl, hu⟩
  refine ⟨?_, fun _ u d hu hd => ?_, fun _ u hu hn => ?_⟩
  · rw [Expr.runAt, hfollow]
    exact Value.describes_chain pl hl.value (hl.shared hcomp) (hl.stopped hcomp) hr
  · obtain ⟨t, -, ht⟩ := hlink u hu
    rcases World.link_cases ht with ⟨b, hb, hs⟩ | ⟨hs, -⟩
    · cases hs.symm.trans hd
      rw [hb] at hr
      exact hr
    · cases hs.symm.trans hd
  · obtain ⟨t, hfl, ht⟩ := hlink u hu
    rcases World.link_cases ht with ⟨b, -, hs⟩ | ⟨-, hv, hstop⟩
    · cases hs.symm.trans hn
    · rw [hv]
      rcases hstop with hstop | hstop
      · exact hl.stopped hcomp t hfl hstop
      · exact World.falsy_of_truth hstop

theorem Expr.isBinary_of_isComparison {e : Expr} (h : e.isComparison = true) :
    e.isBinary = true := by
  unfold isComparison at h
  split at h
  · rfl
  · cases h

theorem soundAt_binary {op : BinaryOp} {l r : Expr} {chained : Bool} {below right : Ascent}
    (hlinked : (Expr.binary op l r chained).chainsLinked = true)
    (pl : below.result.Proper) (pr : right.result.Proper)
    (hl : SoundAt w (0 :: p) l below) (hr : SoundAt w (1 :: p) r right) :
    SoundAt w p (.binary op l r chained)
      (Link.apply below ⟨op, chained && l.isBinary, right.result⟩) := by
  cases op with
  | logical c =>
    refine .of_value rfl ?_
    rw [Expr.runAt_logical]
    exact Value.describes_connect pl pr hl.value fun _ _ _ => hr.value
  | arith op =>
    refine .of_value rfl ?_
    rw [Expr.runAt_arith]
    exact Value.describes_arith op hl.value hr.value
  | unsupported s => exact .of_value rfl trivial
  | compare c =>
    simp only [Expr.chainsLinked, Bool.and_eq_true, Bool.or_eq_true, Bool.not_eq_true'] at hlinked
    obtain ⟨⟨hchain, -⟩, -⟩ := hlinked
    rcases hchain with rfl | hcomp
    · exact soundAt_compare rfl hl.value hr.value
    · have hbin := Expr.isBinary_of_isComparison hcomp
      cases chained with
      | false => exact soundAt_compare rfl hl.value hr.value
      | true =>
        rw [hbin]
        exact soundAt_link (by simp [hcomp]) pl hl hr.value

theorem Expr.chainsLinked_of_binary {op : BinaryOp} {l r : Expr} {chained : Bool}
    (h : (Expr.binary op l r chained).chainsLinked = true) :
    l.chainsLinked = true ∧ r.chainsLinked = true := by
  cases op <;> simp_all [chainsLinked]

/-- In every world, at every place, the value of an expression describes its run. -/
theorem soundAt (e : Expr) (p : Place) (h : e.chainsLinked = true) {a : Ascent}
    (ha : e.ascend = .ok a) : SoundAt w p e a := by
  induction e generalizing p a with
  | num v isInteger =>
    cases ha
    refine .of_value rfl ?_
    unfold Expr.literalValue
    split
    · exact Value.describes_checked rfl
    · trivial
  | bool b =>
    cases ha
    exact .of_value rfl rfl
  | name x =>
    cases ha
    exact .of_value rfl rfl
  | foreign kind =>
    cases ha
    exact .of_value rfl trivial
  | paren e ih =>
    obtain ⟨b, hb, -⟩ := e.exists_ascend
    rw [Expr.ascend_paren hb] at ha
    cases ha
    refine .of_value rfl ?_
    rw [Expr.runAt_paren]
    exact (ih (0 :: p) h hb).value
  | unary op e ih =>
    obtain ⟨b, hb, hp⟩ := e.exists_ascend
    obtain ⟨v, hv, -⟩ := hp.unary op
    rw [Expr.ascend_unary hb hv] at ha
    cases ha
    refine .of_value rfl ?_
    by_cases hop : ∀ s, op ≠ .unsupported s
    · rw [Expr.runAt_unary e hop]
      exact Value.describes_unary hp (ih (0 :: p) h hb).value hv
    · rw [not_forall] at hop
      obtain ⟨s, hs⟩ := hop
      rw [not_not] at hs
      subst hs
      cases hv
      trivial
  | binary op l r chained ihl ihr =>
    obtain ⟨below, hbelow, pl⟩ := l.exists_ascend
    obtain ⟨right, hright, pr⟩ := r.exists_ascend
    obtain ⟨hl, hr⟩ := Expr.chainsLinked_of_binary h
    rw [Expr.ascend_binary hbelow hright] at ha
    cases ha
    exact soundAt_binary h pl pr (ihl (0 :: p) hl hbelow) (ihr (1 :: p) hr hright)

theorem Expr.evaluate_describes {e : Expr} (h : e.chainsLinked = true) {v : Value}
    (hv : e.evaluate = .ok v) : v.Proper ∧ v.Describes w (e.run w) := by
  obtain ⟨a, ha, hp⟩ := e.exists_ascend
  rw [Expr.evaluate_eq, ha] at hv
  cases hv
  exact ⟨hp, (soundAt e [] h ha).value⟩

/-- Soundness. In every world, an integer, truth value or variable that evaluation yields
is what the run yields; a condition on one untainted variable tells whether the run
yields true; and a verdict is the truth of the outcome. -/
theorem Expr.evaluate_sound (w : World Obj Err) {e : Expr} (h : e.chainsLinked = true) :
    (∀ n, e.evaluate = .ok (.int n) → e.run w = .ok (.num n)) ∧
    (∀ b, e.evaluate = .ok (.bool b) → e.run w = .ok (.bool b)) ∧
    (∀ x, e.evaluate = .ok (.var x) → e.run w = .ok (.num (w.number x))) ∧
    (∀ x a, e.evaluate = .ok (.ranges ⟨[(x, a)], []⟩) →
      ∃ b, e.run w = .ok (.bool b) ∧ (b = true ↔ a.Holds (w.number x))) ∧
    ∀ b, e.verdict? = .ok (some b) → ∃ d, e.run w = .ok d ∧ w.truth [] d = .ok b := by
  refine ⟨fun n hv => ?_, fun b hv => ?_, fun x hv => ?_, fun x a hv => ?_, fun b hv => ?_⟩
  · exact (evaluate_describes h hv).2
  · exact (evaluate_describes h hv).2
  · exact (evaluate_describes h hv).2
  · exact Value.describes_single.mp (evaluate_describes h hv).2
  · unfold verdict? at hv
    cases he : e.evaluate with
    | error f =>
      rw [he] at hv
      cases hv
    | ok v =>
      rw [he] at hv
      obtain ⟨hp, hd⟩ := evaluate_describes (w := w) h he
      exact hd.truth hp (Except.ok.inj hv)

/-- `not 5 < x < 3 or f()` where `x` holds `7 / 2` and the call raises: the chain is
false at its first link, and the call is never reached. -/
theorem Expr.evaluate_sound_stopped_chain :
    let w : World Empty Unit := .raising fun _ => 7 / 2
    let e : Expr := .binary (.logical .or) (.unary .not (.binary (.compare .lt)
      (.binary (.compare .lt) (.num (some 5) true) (.name "x") false)
      (.num (some 3) true) true)) (.foreign "call") false
    e.chainsLinked = true ∧ e.evaluate = .ok (.bool true) ∧ e.run w = .ok (.bool true) := by
  intro w e
  have hlinked : e.chainsLinked = true := by decide
  have hvalue : e.evaluate = .ok (.bool true) := by decide +kernel
  exact ⟨hlinked, hvalue, (evaluate_sound w hlinked).2.1 true hvalue⟩

end Foregone
