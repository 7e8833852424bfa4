import Foregone.Proofs.Renaming
import Foregone.Proofs.WellFormed

/-! # How long interval lists get

No operation makes up a number: the finite ends of a result are ends of its operands, and
the first ones are the numbers that variables are compared with. In a canonical list every
interval but the first starts at a number of its own. So a condition with `k` comparisons
never meets a list of more than `k + 1` intervals, however often it is joined and negated. -/

namespace Foregone

/-! ## The numbers at the ends -/

/-- The bound is an infinity or sits at one of the numbers. -/
def Bound.Among (s : List Int) : Bound → Prop
  | .finite v _ => v ∈ s
  | _ => True

/-- The number a bound sits at. -/
def Bound.value? : Bound → Option Int
  | .finite v _ => some v
  | _ => none

theorem Bound.exists_of_value? {b : Bound} {v : Int} (h : b.value? = some v) :
    ∃ e, b = .finite v e := by
  cases b with
  | negInf => cases h
  | finite w e =>
    cases h
    exact ⟨e, rfl⟩
  | posInf => cases h

theorem Bound.Among.mono {s t : List Int} (hst : s ⊆ t) {b : Bound} (h : b.Among s) :
    b.Among t := by
  cases b with
  | negInf => trivial
  | finite v e => exact hst h
  | posInf => trivial

theorem Bound.Among.max {s : List Int} {a b : Bound} (ha : a.Among s) (hb : b.Among s) :
    (Max.max a b).Among s := by
  rcases max_eq_or a b with h | h
  · rwa [h]
  · rwa [h]

theorem Bound.Among.min {s : List Int} {a b : Bound} (ha : a.Among s) (hb : b.Among s) :
    (Min.min a b).Among s := by
  rcases min_eq_or a b with h | h
  · rwa [h]
  · rwa [h]

/-- The finite ends of an interval are among the numbers. -/
structure Interval.EndsAmong (s : List Int) (i : Interval) : Prop where
  low : i.low.Among s
  high : i.high.Among s

namespace Interval

variable {s : List Int}

theorem EndsAmong.overlap {x y i : Interval} (hx : x.EndsAmong s) (hy : y.EndsAmong s)
    (h : i ∈ (x.overlap? y).toList) : i.EndsAmong s := by
  rw [Option.mem_toList, overlap?] at h
  split at h
  · cases h
    exact ⟨hx.low.max hy.low, hx.high.min hy.high⟩
  · cases h

theorem EndsAmong.extend {x y : Interval} (hx : x.EndsAmong s) (hy : y.EndsAmong s) :
    (x.extend y).EndsAmong s := ⟨hx.low, hx.high.max hy.high⟩

theorem EndsAmong.ofBounds {low high : Bound} {i : Interval} (hl : low.Among s)
    (hh : high.Among s) (h : ofBounds low high = .ok i) : i.EndsAmong s := by
  unfold Interval.ofBounds at h
  split_ifs at h
  cases h
  exact ⟨hl, hh⟩

end Interval

namespace IntervalList

variable {s : List Int}

/-- All finite ends of a list are among the numbers. -/
def EndsAmong (s : List Int) (a : IntervalList) : Prop := ∀ i ∈ a, i.EndsAmong s

theorem EndsAmong.mono {t : List Int} (hst : s ⊆ t) {a : IntervalList} (h : a.EndsAmong s) :
    a.EndsAmong t :=
  fun i hi => ⟨(h i hi).low.mono hst, (h i hi).high.mono hst⟩

theorem endsAmong_cons {x : Interval} {a : IntervalList} :
    EndsAmong s (x :: a) ↔ x.EndsAmong s ∧ EndsAmong s a := List.forall_mem_cons

theorem endsAmong_ofComparison (c : Comparison) (v : Int) : (ofComparison c v).EndsAmong [v] := by
  have hv : v ∈ [v] := List.mem_singleton_self v
  intro i hi
  cases c with
  | ne =>
    rcases List.mem_cons.mp hi with rfl | hi
    · exact ⟨trivial, hv⟩
    · cases List.mem_singleton.mp hi
      exact ⟨hv, trivial⟩
  | eq =>
    cases List.mem_singleton.mp hi
    exact ⟨hv, hv⟩
  | lt | le =>
    cases List.mem_singleton.mp hi
    exact ⟨trivial, hv⟩
  | gt | ge =>
    cases List.mem_singleton.mp hi
    exact ⟨hv, trivial⟩

theorem EndsAmong.intersect {a b : IntervalList} (ha : a.EndsAmong s) (hb : b.EndsAmong s) :
    (intersect a b).EndsAmong s := by
  fun_induction IntervalList.intersect a b with
  | case1 => exact ha
  | case2 => exact hb
  | case3 x xs y ys ihx ihy ihxy =>
    obtain ⟨hx, hxs⟩ := endsAmong_cons.mp ha
    obtain ⟨hy, hys⟩ := endsAmong_cons.mp hb
    intro i hi
    rcases List.mem_append.mp hi with hi | hi
    · exact hx.overlap hy hi
    · split_ifs at hi with hlt hgt
      · exact ihx hxs hb i hi
      · exact ihy ha hys i hi
      · exact ihxy hxs hys i hi

theorem EndsAmong.absorb {x : Interval} {a : IntervalList} (hx : x.EndsAmong s)
    (ha : a.EndsAmong s) : (absorb x a).EndsAmong s := by
  fun_induction IntervalList.absorb x a with
  | case1 x => exact endsAmong_cons.mpr ⟨hx, ha⟩
  | case2 x y ys _ ih =>
    obtain ⟨hy, hys⟩ := endsAmong_cons.mp ha
    exact ih (hx.extend hy) hys
  | case3 x y ys _ ih =>
    obtain ⟨hy, hys⟩ := endsAmong_cons.mp ha
    exact endsAmong_cons.mpr ⟨hx, ih hy hys⟩

theorem EndsAmong.union {a b : IntervalList} (ha : a.EndsAmong s) (hb : b.EndsAmong s) :
    (union a b).EndsAmong s := by
  have hmerge : EndsAmong s (a.merge b fun x y => decide (x.low ≤ y.low)) := by
    intro i hi
    rcases List.mem_merge.mp hi with hi | hi
    · exact ha i hi
    · exact hb i hi
  unfold IntervalList.union
  split
  · exact List.forall_mem_nil _
  · rename_i x xs hxs
    rw [hxs] at hmerge
    obtain ⟨hx, hxs⟩ := endsAmong_cons.mp hmerge
    exact .absorb hx hxs

/-! ### Gaps

A gap ends at the number where an interval begins, on the other side of it. -/

theorem among_justAbove {b g : Bound} (hb : b.Among s) (h : b.justAbove = .ok g) : g.Among s := by
  cases b with
  | finite v e => cases e <;> cases h <;> exact hb
  | negInf => cases h
  | posInf => cases h

theorem among_justBelow {b g : Bound} (hb : b.Among s) (h : b.justBelow = .ok g) : g.Among s := by
  cases b with
  | finite v e => cases e <;> cases h <;> exact hb
  | negInf => cases h
  | posInf => cases h

theorem among_gapAfter {i : Interval} {start : Option Bound} (hi : i.EndsAmong s)
    (h : gapAfter i = .ok start) : ∀ g ∈ start, g.Among s := by
  unfold gapAfter at h
  split at h
  · cases h
    exact fun _ hg => nomatch hg
  · split at h
    · rename_i g hg
      cases h
      rintro _ ⟨⟩
      exact among_justAbove hi.high hg
    · cases h

theorem endsAmong_ofBounds {low high : Bound} {gaps : IntervalList} (hl : low.Among s)
    (hh : high.Among s) (h : (Interval.ofBounds low high).map (fun gap => [gap]) = .ok gaps) :
    gaps.EndsAmong s := by
  cases hgap : Interval.ofBounds low high with
  | error e =>
    rw [hgap] at h
    cases h
  | ok gap =>
    rw [hgap] at h
    cases h
    exact endsAmong_cons.mpr ⟨.ofBounds hl hh hgap, List.forall_mem_nil _⟩

theorem endsAmong_gapBefore {start : Option Bound} {i : Interval} {gaps : IntervalList}
    (hstart : ∀ g ∈ start, g.Among s) (hi : i.EndsAmong s) (h : gapBefore start i = .ok gaps) :
    gaps.EndsAmong s := by
  unfold gapBefore at h
  split at h
  · cases h
    exact List.forall_mem_nil _
  · split at h
    · cases h
    · rename_i g
      split at h
      · cases h
      · rename_i b hb
        exact endsAmong_ofBounds (hstart g rfl) (among_justBelow hi.low hb) h

/-- The gaps of a list are those before its first interval and those after it. -/
theorem gapsFrom_cons_eq_ok {start : Option Bound} {i : Interval} {a gaps : IntervalList}
    (h : gapsFrom start (i :: a) = .ok gaps) :
    ∃ before next rest, gapBefore start i = .ok before ∧ gapAfter i = .ok next ∧
      gapsFrom next a = .ok rest ∧ gaps = before ++ rest := by
  simp only [gapsFrom, bind, Except.bind] at h
  split at h
  · cases h
  · rename_i before hbefore
    split at h
    · cases h
    · rename_i next hnext
      split at h
      · cases h
      · rename_i rest hrest
        cases h
        exact ⟨before, next, rest, hbefore, hnext, hrest, rfl⟩

theorem EndsAmong.gapsFrom {start : Option Bound} {a gaps : IntervalList} (ha : a.EndsAmong s)
    (hstart : ∀ g ∈ start, g.Among s) (h : gapsFrom start a = .ok gaps) : gaps.EndsAmong s := by
  induction a generalizing start gaps with
  | nil =>
    cases start with
    | none =>
      cases h
      exact List.forall_mem_nil _
    | some g =>
      have hinf : Bound.posInf.Among s := trivial
      exact endsAmong_ofBounds (hstart g rfl) hinf h
  | cons i a ih =>
    obtain ⟨hi, ha⟩ := endsAmong_cons.mp ha
    obtain ⟨before, next, rest, hbefore, hnext, hrest, rfl⟩ := gapsFrom_cons_eq_ok h
    intro j hj
    rcases List.mem_append.mp hj with hj | hj
    · exact endsAmong_gapBefore hstart hi hbefore j hj
    · exact ih ha (among_gapAfter hi hnext) hrest j hj

theorem EndsAmong.complement {a c : IntervalList} (ha : a.EndsAmong s)
    (h : complement a = .ok c) : c.EndsAmong s := by
  refine ha.gapsFrom (fun g hg => ?_) h
  cases hg
  trivial

/-! ### Counting

Between two intervals that are apart lies a position of its own, so they cannot start at the
same number: an integer has only three positions, and no interval starts at the first. -/

theorem value_lt_of_apart {x y : Interval} {v w : Int} {e f : Edge} (h : x.Apart y)
    (hx : x.low = .finite v e) (hy : y.low = .finite w f) : v < w := by
  obtain ⟨p, hxp, hpy⟩ := h
  have hlow : Bound.finite v e < p := hx ▸ x.low_le_high.trans_lt hxp
  rw [hy] at hpy
  have hedge : 1 ≤ e.rank := by
    have hl := x.low_isLow
    rw [hx] at hl
    cases e with
    | below => cases hl
    | exact => decide
    | above => decide
  have htop : f.rank ≤ 2 := by cases f <;> decide
  cases p with
  | negInf => exact (Bound.not_lt_negInf _ hlow).elim
  | posInf => exact (Bound.not_posInf_lt _ hpy).elim
  | finite u g =>
    rw [Bound.finite_lt] at hlow hpy
    omega

/-- The numbers at which the intervals of a list start. -/
def starts (a : IntervalList) : List Int := a.filterMap fun i => i.low.value?

theorem mem_of_mem_starts {a : IntervalList} (ha : a.EndsAmong s) {v : Int}
    (hv : v ∈ starts a) : v ∈ s := by
  obtain ⟨i, hi, hv⟩ := List.mem_filterMap.mp hv
  obtain ⟨e, he⟩ := Bound.exists_of_value? hv
  have hlow := (ha i hi).low
  rw [he] at hlow
  exact hlow

theorem starts_increasing {a : IntervalList} (ha : a.Pairwise Interval.Apart) :
    (starts a).Pairwise (· < ·) := by
  refine List.pairwise_filterMap.mpr (ha.imp fun {x y} hxy v hv w hw => ?_)
  obtain ⟨e, he⟩ := Bound.exists_of_value? hv
  obtain ⟨f, hf⟩ := Bound.exists_of_value? hw
  exact value_lt_of_apart hxy he hf

/-- Only the first interval can start at an infinity. -/
theorem length_starts_of_apart {x : Interval} {a : IntervalList} (hx : ∀ y ∈ a, x.Apart y) :
    (starts a).length = a.length := by
  induction a with
  | nil => rfl
  | cons y a ih =>
    have hvalue : ∃ v, y.low.value? = some v := by
      cases hy : y.low with
      | negInf => exact (Bound.not_lt_negInf _ (hy ▸ (hx y List.mem_cons_self).lt)).elim
      | finite v e => exact ⟨v, rfl⟩
      | posInf =>
        have hl := y.low_isLow
        rw [hy] at hl
        cases hl
    obtain ⟨v, hv⟩ := hvalue
    have hstarts : starts (y :: a) = v :: starts a := by simp [starts, hv]
    rw [hstarts, List.length_cons, List.length_cons,
      ih fun z hz => hx z (List.mem_cons_of_mem _ hz)]

/-- A canonical list has at most one interval more than there are numbers its ends sit at. -/
theorem length_le_of_endsAmong {a : IntervalList} (hc : a.isCanonical = true)
    (ha : a.EndsAmong s) : a.length ≤ 1 + s.length := by
  have hp := isCanonical_iff.mp hc
  cases a with
  | nil => exact Nat.zero_le _
  | cons x a =>
    obtain ⟨hx, hpa⟩ := List.pairwise_cons.mp hp
    have hsub : starts a ⊆ s := fun v hv => mem_of_mem_starts (endsAmong_cons.mp ha).2 hv
    have hle := (List.subperm_of_subset (starts_increasing hpa).nodup hsub).length_le
    rw [length_starts_of_apart hx] at hle
    rw [List.length_cons]
    omega

end IntervalList

/-! ## Conditions and values -/

namespace Constraints

variable {s : List Int}

/-- All finite ends of the sets of a condition are among the numbers. -/
def EndsAmong (s : List Int) (c : Constraints) : Prop := ∀ e ∈ c.entries, e.2.EndsAmong s

theorem EndsAmong.mono {t : List Int} (hst : s ⊆ t) {c : Constraints} (h : c.EndsAmong s) :
    c.EndsAmong t := fun e he => (h e he).mono hst

theorem endsAmong_single {x : String} {a : IntervalList} (h : a.EndsAmong s) :
    (single x a).EndsAmong s := by
  intro e he
  cases List.mem_singleton.mp he
  exact h

theorem EndsAmong.join? {k : Connective} {a b j : Constraints} (ha : a.EndsAmong s)
    (hb : b.EndsAmong s) (h : Constraints.join? k a b = some j) : j.EndsAmong s := by
  obtain ⟨entries, he, rfl⟩ := Option.map_eq_some_iff.mp h
  intro e hm
  obtain ⟨⟨x, shared⟩, hs, rfl⟩ := List.mem_map.mp ((combineEntries_sublist he).subset hm)
  have hfrom := fromSides_of_mem_align _ hs
  cases shared with
  | left r => exact ha _ hfrom
  | right r => exact hb _ hfrom
  | both l r =>
    cases k with
    | and => exact (ha _ hfrom.1).intersect (hb _ hfrom.2)
    | or => exact (ha _ hfrom.1).union (hb _ hfrom.2)

theorem EndsAmong.negate {c d : Constraints} (hp : c.Proper) (hc : c.EndsAmong s)
    (h : c.negate = .ok d) : d.EndsAmong s := by
  rcases hp.negate_cases with ⟨x, a, a', rfl, ha', hd, -⟩ | ⟨-, hd⟩
  · cases hd.symm.trans h
    exact endsAmong_single ((hc (x, a) List.mem_cons_self).complement ha')
  · cases hd.symm.trans h
    exact hc

end Constraints

namespace Value

/-- The number that a comparison of two values compares a variable with. -/
def comparedNumber? : Value → Value → Option Int
  | .var _, v => v.toInt?
  | u, .var _ => u.toInt?
  | _, _ => none

/-- The condition that a value is, if it is one, has its ends among the numbers. -/
def EndsAmong (s : List Int) : Value → Prop := Satisfies (Constraints.EndsAmong s)

variable {s : List Int}

theorem EndsAmong.mono {t : List Int} (hst : s ⊆ t) {v : Value} (h : v.EndsAmong s) :
    v.EndsAmong t := Satisfies.mono (fun _ hc => hc.mono hst) h

theorem EndsAmong.connect (k : Connective) {l r : Value} (hl : l.EndsAmong s)
    (hr : r.EndsAmong s) : (connect k l r).EndsAmong s :=
  Satisfies.connect (fun _ _ _ ha hb hj => ha.join? hb hj) hl hr

theorem endsAmong_compare (l : Value) (c : Comparison) (r : Value) :
    (l.compare c r).EndsAmong (comparedNumber? l r).toList := by
  unfold compare
  split
  · trivial
  · rename_i b hl hr
    split
    · rw [comparedNumber?, hr]
      exact Constraints.endsAmong_single (IntervalList.endsAmong_ofComparison c b)
    · trivial
  · rename_i a hl hr
    split
    · rename_i x
      have hnumber : comparedNumber? l (.var x) = some a := by
        cases l with
        | var y => cases hl
        | _ => exact hl
      rw [hnumber]
      exact Constraints.endsAmong_single (IntervalList.endsAmong_ofComparison c.swapped a)
    · trivial
  · trivial

theorem EndsAmong.not {v u : Value} (hp : v.Proper) (h : v.EndsAmong s) (hu : v.not = .ok u) :
    u.EndsAmong s := by
  unfold Value.not at hu
  split at hu
  · cases hu
    trivial
  · split at hu
    · rename_i c _
      cases hd : c.negate with
      | error e =>
        rw [hd] at hu
        cases hu
      | ok d =>
        rw [hd] at hu
        cases hu
        exact Constraints.EndsAmong.negate hp h hd
    · cases hu
      trivial

theorem Nameless.endsAmong {v : Value} (h : v.Nameless) : v.EndsAmong s := by
  rcases h with rfl | ⟨n, rfl⟩
  · trivial
  · trivial

theorem EndsAmong.unary {op : UnaryOp} {v u : Value} (hp : v.Proper) (h : v.EndsAmong s)
    (hu : Value.unary op v = .ok u) : u.EndsAmong s := by
  cases op with
  | not => exact h.not hp hu
  | plus =>
    cases hu
    split
    · trivial
    · trivial
  | minus =>
    cases hu
    split
    · exact (nameless_checked _).endsAmong
    · trivial
  | unsupported symbol =>
    cases hu
    trivial

end Value

/-! ## Expressions -/

namespace Expr

/-- How many operators of an expression are comparisons. -/
def comparisons : Expr → Nat
  | .paren e | .unary _ e => e.comparisons
  | .binary op l r _ =>
    l.comparisons + r.comparisons + match op with
      | .compare _ => 1
      | _ => 0
  | _ => 0

/-- What a comparison with `l` on its left compares: `l` itself, or the right operand of `l`
if it continues a comparison. -/
def comparedOperand (l : Expr) (chained : Bool) : Expr :=
  match l, chained with
  | .binary _ _ m _, true => m
  | _, _ => l

/-- The number that the comparison of two expressions compares a variable with. -/
def comparedNumber? (a b : Expr) : Option Int :=
  match a.evaluate, b.evaluate with
  | .ok u, .ok v => Value.comparedNumber? u v
  | _, _ => none

/-- The numbers that the comparisons of an expression compare a variable with. -/
def comparedNumbers : Expr → List Int
  | .paren e | .unary _ e => e.comparedNumbers
  | .binary op l r chained =>
    l.comparedNumbers ++ r.comparedNumbers ++ match op with
      | .compare _ => (comparedNumber? (l.comparedOperand chained) r).toList
      | _ => []
  | _ => []

theorem length_comparedNumbers_le (e : Expr) : e.comparedNumbers.length ≤ e.comparisons := by
  induction e with
  | paren e ih => exact ih
  | unary op e ih => exact ih
  | binary op l r chained ihl ihr =>
    cases op with
    | compare c =>
      have hown := Option.length_toList_le (o := comparedNumber? (l.comparedOperand chained) r)
      simp only [comparedNumbers, comparisons, List.length_append]
      omega
    | _ =>
      simp only [comparedNumbers, comparisons, List.length_append, List.length_nil]
      omega
  | _ => exact Nat.le_refl 0

/-- What a comparison compares is what the walk up carries to it. -/
theorem evaluate_comparedOperand {l : Expr} {chained : Bool} {below : Ascent}
    (hl : l.ascend = .ok below) :
    (l.comparedOperand chained).evaluate =
      .ok (if chained && l.isBinary then below.middle else below.result) := by
  cases chained with
  | false =>
    have hself : l.comparedOperand false = l := by cases l <;> rfl
    rw [hself]
    exact evaluate_of_ascend hl
  | true =>
    cases l with
    | binary op l m chained => exact evaluate_right_of_ascend hl
    | _ => exact evaluate_of_ascend hl

/-- An operator adds at most the number that it compares a variable with. -/
theorem endsAmong_apply {s : List Int} {op : BinaryOp} {l r : Expr} {chained : Bool}
    {below right : Ascent} (hl : l.ascend = .ok below) (hr : r.ascend = .ok right)
    (hbelow : below.result.EndsAmong s) (hright : right.result.EndsAmong s)
    (hown : ∀ c, op = .compare c → ∀ n ∈ comparedNumber? (l.comparedOperand chained) r, n ∈ s) :
    (Link.apply below ⟨op, chained && l.isBinary, right.result⟩).result.EndsAmong s := by
  cases op with
  | logical k => exact hbelow.connect k hright
  | arith a => exact (Value.nameless_arith _ a _).endsAmong
  | unsupported symbol => trivial
  | compare c =>
    have hcompare : Value.EndsAmong s (Value.compare
        (if chained && l.isBinary then below.middle else below.result) c right.result) := by
      refine (Value.endsAmong_compare _ c _).mono fun n hn => hown c rfl n ?_
      rw [comparedNumber?, evaluate_comparedOperand hl, evaluate_of_ascend hr]
      exact Option.mem_toList.mp hn
    cases hlink : chained && l.isBinary with
    | true =>
      rw [hlink, if_pos rfl] at hcompare
      change Value.EndsAmong s (below.result.chain below.middle c right.result)
      rcases Value.chain_cases below.result below.middle c right.result with h | h
      · exact h ▸ trivial
      · exact h ▸ hbelow.connect .and hcompare
    | false =>
      rw [hlink, if_neg Bool.false_ne_true] at hcompare
      rw [Link.apply_plain]
      exact hcompare

theorem endsAmong_of_ascend {e : Expr} {a : Ascent} (h : e.ascend = .ok a) :
    a.result.EndsAmong e.comparedNumbers := by
  induction e generalizing a with
  | num v isInteger =>
    cases h
    exact (nameless_literal v isInteger).endsAmong
  | bool b =>
    cases h
    trivial
  | name x =>
    cases h
    trivial
  | foreign kind =>
    cases h
    trivial
  | paren e ih =>
    obtain ⟨b, hb, -⟩ := e.exists_ascend
    cases (ascend_paren hb).symm.trans h
    have hinner := ih hb
    exact hinner
  | unary op e ih =>
    obtain ⟨b, hb, hp⟩ := e.exists_ascend
    obtain ⟨v, hv, -⟩ := hp.unary op
    cases (ascend_unary hb hv).symm.trans h
    exact (ih hb).unary hp hv
  | binary op l r chained ihl ihr =>
    obtain ⟨below, hl, -⟩ := l.exists_ascend
    obtain ⟨right, hr, -⟩ := r.exists_ascend
    cases (ascend_binary hl hr).symm.trans h
    refine endsAmong_apply hl hr ((ihl hl).mono ?_) ((ihr hr).mono ?_) ?_
    · exact fun n hn => List.mem_append_left _ (List.mem_append_left _ hn)
    · exact fun n hn => List.mem_append_left _ (List.mem_append_right _ hn)
    · rintro c rfl n hn
      exact List.mem_append_right _ (Option.mem_toList.mpr hn)

/-- Every set of a condition that an expression comes to, tainted ones included, has at most
one interval more than the expression has comparisons, and all its finite ends sit at numbers
that some comparison of the expression compares a variable with. -/
theorem evaluate_ranges_bounded {e : Expr} {c : Constraints} (h : e.evaluate = .ok (.ranges c)) :
    ∀ entry ∈ c.entries, entry.2.length ≤ 1 + e.comparisons ∧
      ∀ i ∈ entry.2, ∀ v edge, i.low = .finite v edge ∨ i.high = .finite v edge →
        v ∈ e.comparedNumbers := by
  obtain ⟨⟨result, middle⟩, ha, hp⟩ := e.exists_ascend
  cases (evaluate_of_ascend ha).symm.trans h
  have hends : c.EndsAmong e.comparedNumbers := endsAmong_of_ascend ha
  intro entry hentry
  constructor
  · have hcanonical := Constraints.Proper.canonical hp entry hentry
    have hlength := IntervalList.length_le_of_endsAmong hcanonical (hends entry hentry)
    have hcount := e.length_comparedNumbers_le
    omega
  · intro i hi v edge hv
    have hi := hends entry hentry i hi
    rcases hv with hv | hv
    · have hlow := hi.low
      rw [hv] at hlow
      exact hlow
    · have hhigh := hi.high
      rw [hv] at hhigh
      exact hhigh

/-- Neither `3` nor `5`, or else a second variable below `2`: both sets are tainted, the first
has three intervals, and the negation in front of a comparison adds none. -/
theorem evaluate_ranges_bounded_tainted :
    let compared (x : String) (c : Comparison) (n : Int) : Expr :=
      .binary (.compare c) (.name x) (.num (some n) true) false
    let e : Expr := .binary (.logical .or)
      (.binary (.logical .and) (compared "x" .ne 3) (.unary .not (compared "x" .eq 5)) false)
      (compared "y" .lt 2) false
    let between : Interval := ⟨.finite 3 .above, .finite 5 .below, by decide, rfl, rfl⟩
    let c : Constraints :=
      ⟨[("x", [.lessThan 3, between, .greaterThan 5]), ("y", [.lessThan 2])], ["x", "y"]⟩
    e.evaluate = .ok (.ranges c) ∧ e.comparisons = 3 ∧ e.comparedNumbers = [3, 5, 2] ∧
      ∀ entry ∈ c.entries, entry.2.length ≤ 1 + e.comparisons ∧
        ∀ i ∈ entry.2, ∀ v edge, i.low = .finite v edge ∨ i.high = .finite v edge →
          v ∈ e.comparedNumbers := by
  intro compared e between c
  have h : e.evaluate = .ok (.ranges c) := by decide +kernel
  exact ⟨h, rfl, by decide +kernel, evaluate_ranges_bounded h⟩

end Expr
end Foregone
