import Foregone.Proofs.Alignment
import Foregone.Proofs.WellFormed

/-! # Joining with every check in place

Elsewhere an interval is built together with the proof that it is one, and two conditions
are walked side by side. Here the same operations make their checks while they run, and
each check can fail: an interval is made from two bounds by `Interval.ofBounds`, operators
are looked up by their symbols, and a join goes through the names of both sides and asks
each side for its entry. No check fails, on any lists of intervals, canonical or not. -/

namespace Foregone

/-- A check that fails. -/
inductive Breach where
  /-- two bounds make no interval, or a gap was asked for where there is none -/
  | interval (cause : Interval.Fault)
  /-- a symbol stands for no comparison -/
  | operator (symbol : String)
  /-- a name has no entry -/
  | entry (name : String)
  | zeroDivision
  deriving DecidableEq, Repr

namespace Asserting

/-! ## Interval lists -/

theorem ofBounds_bounds (i : Interval) : Interval.ofBounds i.low i.high = .ok i :=
  IntervalList.ofBounds_eq_ok i.low_le_high i.low_isLow i.high_isHigh

def overlap (x y : Interval) : Except Interval.Fault IntervalList :=
  if max x.low y.low ≤ min x.high y.high then do
    return [← Interval.ofBounds (max x.low y.low) (min x.high y.high)]
  else .ok []

theorem overlap_eq (x y : Interval) : overlap x y = .ok (x.overlap? y).toList := by
  unfold overlap Interval.overlap?
  split
  · rename_i h
    rw [IntervalList.ofBounds_eq_ok h]
    rfl
  · rfl

def intersect : IntervalList → IntervalList → Except Interval.Fault IntervalList
  | [], _ => .ok []
  | _ :: _, [] => .ok []
  | x :: xs, y :: ys => do
    let here ← overlap x y
    let rest ←
      if x.high < y.high then intersect xs (y :: ys)
      else if y.high < x.high then intersect (x :: xs) ys
      else intersect xs ys
    return here ++ rest
termination_by a b => a.length + b.length

/-- The common part of two intervals is an interval, whether or not the lists are
canonical. -/
theorem intersect_eq (a b : IntervalList) : intersect a b = .ok (a.intersect b) := by
  fun_induction IntervalList.intersect a b with
  | case1 b => rw [intersect]
  | case2 x xs => rw [intersect]
  | case3 x xs y ys ihx ihy ihxy =>
    rw [intersect, overlap_eq, ihx, ihy, ihxy]
    split
    · rfl
    · split
      · rfl
      · rfl

def absorb (current : Interval) : IntervalList → Except Interval.Fault IntervalList
  | [] => .ok [current]
  | x :: xs =>
    if x.low ≤ current.high ∨ current.high.touches x.low then do
      let grown ← Interval.ofBounds current.low (max current.high x.high)
      absorb grown xs
    else do return current :: (← absorb x xs)

theorem absorb_eq (current : Interval) (a : IntervalList) :
    absorb current a = .ok (IntervalList.absorb current a) := by
  fun_induction IntervalList.absorb current a with
  | case1 current => rfl
  | case2 current x xs h ih =>
    have hgrown : Interval.ofBounds current.low (max current.high x.high) =
        .ok (current.extend x) := ofBounds_bounds (current.extend x)
    rw [absorb, if_pos h, hgrown]
    exact ih
  | case3 current x xs h ih =>
    rw [absorb, if_neg h, ih]
    rfl

def union (a b : IntervalList) : Except Interval.Fault IntervalList :=
  match a.merge b (fun x y => decide (x.low ≤ y.low)) with
  | [] => .ok []
  | x :: xs => absorb x xs

theorem union_eq (a b : IntervalList) : union a b = .ok (a.union b) := by
  unfold union IntervalList.union
  cases a.merge b fun x y => decide (x.low ≤ y.low) with
  | nil => rfl
  | cons x xs => exact absorb_eq x xs

def combine : Connective → IntervalList → IntervalList → Except Interval.Fault IntervalList
  | .and => intersect
  | .or => union

theorem combine_eq (c : Connective) (a b : IntervalList) : combine c a b = .ok (c.combine a b) := by
  cases c with
  | and => exact intersect_eq a b
  | or => exact union_eq a b

def interval (low high : Bound) : Except Breach Interval :=
  (Interval.ofBounds low high).mapError .interval

theorem interval_bounds (i : Interval) : interval i.low i.high = .ok i := by
  rw [interval, ofBounds_bounds]
  rfl

/-- The comparison a symbol stands for. -/
def comparison (symbol : String) : Except Breach Comparison :=
  match Comparison.ofSymbol? symbol with
  | some c => .ok c
  | none => .error (.operator symbol)

theorem comparison_symbol (c : Comparison) : comparison c.symbol = .ok c := by
  rw [comparison, Comparison.ofSymbol?_symbol]

def ofComparison (symbol : String) (v : Int) : Except Breach IntervalList := do
  match ← comparison symbol with
  | .eq => return [← interval (.finite v .exact) (.finite v .exact)]
  | .ne => return [← interval .negInf (.finite v .below), ← interval (.finite v .above) .posInf]
  | .lt => return [← interval .negInf (.finite v .below)]
  | .le => return [← interval .negInf (.finite v .exact)]
  | .gt => return [← interval (.finite v .above) .posInf]
  | .ge => return [← interval (.finite v .exact) .posInf]

theorem ofComparison_symbol (c : Comparison) (v : Int) :
    ofComparison c.symbol v = .ok (IntervalList.ofComparison c v) := by
  have below : interval .negInf (.finite v .below) = .ok (.lessThan v) :=
    interval_bounds (.lessThan v)
  have above : interval (.finite v .above) .posInf = .ok (.greaterThan v) :=
    interval_bounds (.greaterThan v)
  rw [ofComparison, comparison_symbol]
  cases c with
  | eq => exact congrArg (Except.map fun i => [i]) (interval_bounds (.point v))
  | ne =>
    simp only [bind, Except.bind, below, above]
    rfl
  | lt => exact congrArg (Except.map fun i => [i]) below
  | gt => exact congrArg (Except.map fun i => [i]) above
  | le => exact congrArg (Except.map fun i => [i]) (interval_bounds (.atMost v))
  | ge => exact congrArg (Except.map fun i => [i]) (interval_bounds (.atLeast v))

/-! ## Joining conditions -/

section Join

open Constraints

def entry (es : Entries) (x : String) : Except Breach IntervalList :=
  match es.lookup x with
  | some r => .ok r
  | none => .error (.entry x)

/-- The set of a name after a join, and the taint from then on. -/
def joinName (c : Connective) (as bs : Entries) (x : String) (tainted : List String) :
    Except Breach (IntervalList × List String) :=
  if x ∈ names as ∧ x ∈ names bs then do
    let combined ← (combine c (← entry as x) (← entry bs x)).mapError .interval
    return (combined, tainted)
  else if x ∈ names as then do
    return (← entry as x, Names.insert x tainted)
  else do
    return (← entry bs x, Names.insert x tainted)

/-- Join name by name. An untainted set that absorbs ends the walk (`none`). -/
def joinNames (c : Connective) (as bs : Entries) :
    List String → List String → Except Breach (Option Constraints)
  | [], tainted => .ok (some ⟨[], tainted⟩)
  | x :: xs, tainted => do
    let (ranges, tainted) ← joinName c as bs x tainted
    if x ∉ tainted ∧ ranges = c.absorbing then return none
    let rest ← joinNames c as bs xs tainted
    if x ∉ tainted ∧ ranges = c.neutral then return rest
    return rest.map fun j => ⟨(x, ranges) :: j.entries, j.tainted⟩

def join (c : Connective) (a b : Constraints) : Except Breach (Option Constraints) :=
  joinNames c a.entries b.entries (Names.union (names a.entries) (names b.entries))
    (Names.union a.tainted b.tainted)

/-- The taint after a name: one side alone taints it. -/
def taintAfter (tainted : List String) (e : String × Shared) : List String :=
  match e.2 with
  | .both _ _ => tainted
  | _ => Names.insert e.1 tainted

theorem entry_eq {es : Entries} {x : String} {r : IntervalList} (h : es.lookup x = some r) :
    entry es x = .ok r := by
  rw [entry, h]

theorem joinName_eq (c : Connective) {as bs : Entries} {x : String} {s : Shared}
    (h : Shared.ofSides? (as.lookup x) (bs.lookup x) = some s) (tainted : List String) :
    joinName c as bs x tainted = .ok (s.combined c, taintAfter tainted (x, s)) := by
  unfold joinName
  cases hl : as.lookup x with
  | none =>
    have hxl : x ∉ names as := lookup_eq_none_iff.mp hl
    rw [if_neg fun hx => hxl hx.1, if_neg hxl]
    cases hr : bs.lookup x with
    | none =>
      rw [hl, hr] at h
      cases h
    | some r =>
      rw [hl, hr] at h
      cases h
      rw [entry_eq hr]
      rfl
  | some l =>
    have hxl : x ∈ names as := mem_names_of_lookup hl
    cases hr : bs.lookup x with
    | none =>
      have hxr : x ∉ names bs := lookup_eq_none_iff.mp hr
      rw [hl, hr] at h
      cases h
      rw [if_neg fun hx => hxr hx.2, if_pos hxl, entry_eq hl]
      rfl
    | some r =>
      rw [hl, hr] at h
      cases h
      rw [if_pos ⟨hxl, mem_names_of_lookup hr⟩, entry_eq hl, entry_eq hr]
      simp only [bind, Except.bind, combine_eq]
      rfl

theorem mem_taintAfter {tainted : List String} {e : String × Shared} {y : String} (hy : y ≠ e.1) :
    y ∈ taintAfter tainted e ↔ y ∈ tainted := by
  unfold taintAfter
  split
  · rfl
  · simp [Names.mem_insert, hy]

/-- Whether a name is tainted after its own step depends on nothing but what was known of
it before. -/
theorem mem_taintAfter_self {tainted tainted' : List String} {e : String × Shared}
    (h : e.1 ∈ tainted ↔ e.1 ∈ tainted') :
    e.1 ∈ taintAfter tainted e ↔ e.1 ∈ taintAfter tainted' e := by
  unfold taintAfter
  split
  · exact h
  · simp [Names.mem_insert]

theorem sorted_taintAfter {tainted : List String} (h : tainted.Pairwise (· < ·))
    (e : String × Shared) : (taintAfter tainted e).Pairwise (· < ·) := by
  unfold taintAfter
  split
  · exact h
  · exact Names.sorted_insert h

/-- The walk over the names of both sides is the walk over the aligned entries, if the
final taint `T` says of each name what is known of it when the walk comes to it. -/
theorem joinNames_eq (c : Connective) {as bs : Entries} {T : List String}
    {shared : List (String × Shared)} {tainted : List String}
    (hside : ∀ e ∈ shared, Shared.ofSides? (as.lookup e.1) (bs.lookup e.1) = some e.2)
    (hnodup : (shared.map Prod.fst).Nodup)
    (hT : ∀ e ∈ shared, e.1 ∈ T ↔ e.1 ∈ taintAfter tainted e) :
    joinNames c as bs (shared.map Prod.fst) tainted =
      .ok ((combineEntries c T shared).map fun entries =>
        ⟨entries, shared.foldl taintAfter tainted⟩) := by
  induction shared generalizing tainted with
  | nil => rfl
  | cons e shared ih =>
    obtain ⟨x, s⟩ := e
    obtain ⟨hx, hrest⟩ := List.nodup_cons.mp hnodup
    have hT' : ∀ e ∈ shared, e.1 ∈ T ↔ e.1 ∈ taintAfter (taintAfter tainted (x, s)) e := by
      intro e he
      have hne : e.1 ≠ x := fun heq => hx (heq ▸ List.mem_map.mpr ⟨e, he, rfl⟩)
      rw [hT e (List.mem_cons_of_mem _ he)]
      exact mem_taintAfter_self (mem_taintAfter hne).symm
    have ih := ih (fun e he => hside e (List.mem_cons_of_mem _ he)) hrest hT'
    have hxT : x ∈ T ↔ x ∈ taintAfter tainted (x, s) := hT (x, s) List.mem_cons_self
    rw [List.map_cons, joinNames, joinName_eq c (hside (x, s) List.mem_cons_self)]
    simp only [bind, Except.bind, ih, combineEntries, ← hxT, List.foldl_cons]
    have keep : (((combineEntries c T shared).map fun entries => (⟨entries,
          shared.foldl taintAfter (taintAfter tainted (x, s))⟩ : Constraints)).map fun j =>
          (⟨(x, s.combined c) :: j.entries, j.tainted⟩ : Constraints)) =
        ((combineEntries c T shared).map ((x, s.combined c) :: ·)).map fun entries =>
          ⟨entries, shared.foldl taintAfter (taintAfter tainted (x, s))⟩ := by
      cases combineEntries c T shared with
      | none => rfl
      | some entries => rfl
    by_cases htaint : x ∈ T
    · simp only [htaint, not_true_eq_false, false_and, if_true, if_false, keep]
      rfl
    · simp only [htaint, not_false_eq_true, true_and, if_false, keep]
      split
      · rfl
      · split
        · rfl
        · rfl

/-- The taint at the end of the walk: what was tainted, and the one-sided names. -/
theorem mem_foldl_taintAfter {shared : List (String × Shared)} {tainted : List String}
    {y : String} :
    y ∈ shared.foldl taintAfter tainted ↔ y ∈ oneSided shared ∨ y ∈ tainted := by
  induction shared generalizing tainted with
  | nil => simp [oneSided]
  | cons e shared ih =>
    obtain ⟨x, s⟩ := e
    rw [List.foldl_cons, ih]
    cases s with
    | both l r => simp [taintAfter, oneSided]
    | left r =>
      simp only [taintAfter, oneSided, Names.mem_insert, List.filterMap_cons, List.mem_cons]
      grind
    | right r =>
      simp only [taintAfter, oneSided, Names.mem_insert, List.filterMap_cons, List.mem_cons]
      grind

theorem sorted_foldl_taintAfter (shared : List (String × Shared)) {tainted : List String}
    (h : tainted.Pairwise (· < ·)) : (shared.foldl taintAfter tainted).Pairwise (· < ·) := by
  induction shared generalizing tainted with
  | nil => exact h
  | cons e shared ih => exact ih (sorted_taintAfter h e)

/-- A name is one-sided exactly if its own entry is. -/
theorem mem_joinTaint_iff {a b : Constraints} (ha : a.Ordered) (hb : b.Ordered)
    {e : String × Shared} (he : e ∈ align a.entries b.entries) :
    e.1 ∈ joinTaint a b ↔ e.1 ∈ taintAfter (Names.union a.tainted b.tainted) e := by
  obtain ⟨x, s⟩ := e
  have unique {s' : Shared} (h : (x, s') ∈ align a.entries b.entries) : s' = s :=
    Option.some.inj (((mem_align_iff ha.names hb.names).mp h).symm.trans
      ((mem_align_iff ha.names hb.names).mp he))
  rw [mem_joinTaint, mem_oneSided_iff, ← Names.mem_union]
  cases s with
  | both l r =>
    refine or_iff_right ?_
    rintro (⟨q, hq⟩ | ⟨q, hq⟩)
    · cases unique hq
    · cases unique hq
  | left r => exact iff_of_true (.inl (.inl ⟨r, he⟩)) (Names.mem_insert.mpr (.inl rfl))
  | right r => exact iff_of_true (.inl (.inr ⟨r, he⟩)) (Names.mem_insert.mpr (.inl rfl))

/-- A join finds the entry of every name it asks for, and every interval it makes. -/
theorem join_eq (c : Connective) {a b : Constraints} (ha : a.Ordered) (hb : b.Ordered) :
    join c a b = .ok (join? c a b) := by
  have hsorted := sorted_align ha.names hb.names
  have hkeys : Names.union (names a.entries) (names b.entries) =
      (align a.entries b.entries).map Prod.fst := by
    refine (Names.sorted_union hb.names).eq_of_mem_iff hsorted fun z => ?_
    rw [Names.mem_union, mem_names_align]
  have htaint : (align a.entries b.entries).foldl taintAfter (Names.union a.tainted b.tainted) =
      joinTaint a b := by
    refine (sorted_foldl_taintAfter _ (Names.sorted_union hb.tainted)).eq_of_mem_iff
      (Names.sorted_union (Names.sorted_union hb.tainted)) fun z => ?_
    rw [mem_foldl_taintAfter, Names.mem_union, mem_joinTaint]
  rw [join, hkeys, joinNames_eq c (fun e he => (mem_align_iff ha.names hb.names).mp he)
    hsorted.nodup (fun e he => mem_joinTaint_iff ha hb he), htaint]
  rfl

end Join

end Asserting
end Foregone
