import Foregone.Proofs.Alignment
import Foregone.Proofs.Spine

/-! # Renaming variables

A renaming that keeps the variables of an expression apart changes nothing but the names
in its value. Entries are kept in the order of their names, so renaming puts them in a
new order, and joins meet the names in another order than before; what a join yields is
found name by name (`mem_joined_iff`), in whatever order. -/

namespace Foregone

namespace Names

theorem mem_ofList {x : String} {xs : List String} : x ∈ ofList xs ↔ x ∈ xs := by
  change x ∈ union xs [] ↔ x ∈ xs
  simp [mem_union]

theorem sorted_ofList (xs : List String) : (ofList xs).Pairwise (· < ·) :=
  sorted_union (a := xs) List.Pairwise.nil

end Names

variable {s : String → String} {S : Set String}

namespace Constraints

/-- Every name replaced, and the entries put in order again. -/
def rename (s : String → String) (c : Constraints) : Constraints :=
  .of (c.entries.map fun e => (s e.1, e.2)) (c.tainted.map s)

theorem rename_single (x : String) (a : IntervalList) :
    (single x a).rename s = single (s x) a := by
  simp [rename, of, single, Names.ofList]

theorem mem_rename {c : Constraints} {y : String} {r : IntervalList} :
    (y, r) ∈ (c.rename s).entries ↔ ∃ x, (x, r) ∈ c.entries ∧ s x = y := by
  simp [rename, of, List.mem_mergeSort]

theorem mem_names_rename {c : Constraints} {y : String} :
    y ∈ names (c.rename s).entries ↔ ∃ x ∈ names c.entries, s x = y := by
  constructor
  · intro hy
    obtain ⟨⟨y, r⟩, he, rfl⟩ := List.mem_map.mp hy
    obtain ⟨x, hx, hxy⟩ := mem_rename.mp he
    exact ⟨x, mem_names_of_mem hx, hxy⟩
  · rintro ⟨x, hx, rfl⟩
    obtain ⟨⟨x, r⟩, he, rfl⟩ := List.mem_map.mp hx
    exact mem_names_of_mem (mem_rename.mpr ⟨x, he, rfl⟩)

theorem length_rename (c : Constraints) : (c.rename s).entries.length = c.entries.length := by
  simp [rename, of, List.length_mergeSort]

/-- All names of the condition lie in `S`. -/
def Within (S : Set String) (c : Constraints) : Prop := ∀ x ∈ names c.entries, x ∈ S

theorem sorted_rename (hs : Set.InjOn s S) {c : Constraints} (hc : c.Within S)
    (hsort : (names c.entries).Pairwise (· < ·)) :
    (names (c.rename s).entries).Pairwise (· < ·) := by
  have hle : (names (c.rename s).entries).Pairwise (· ≤ ·) := by
    have h := @List.pairwise_mergeSort (String × IntervalList) (fun a b => decide (a.1 ≤ b.1))
      (fun a b c => by simpa using le_trans) (fun a b => by simpa using le_total a.1 b.1)
      (c.entries.map fun e => (s e.1, e.2))
    exact List.pairwise_map.mpr (h.imp fun {a b} hab => by simpa using hab)
  have hnodup : (names (c.rename s).entries).Nodup := by
    have hperm : (names (c.rename s).entries).Perm ((names c.entries).map s) := by
      have h := (List.mergeSort_perm (c.entries.map fun e => (s e.1, e.2))
        (fun a b => decide (a.1 ≤ b.1))).map Prod.fst
      simpa [names, rename, of, Function.comp_def] using h
    refine hperm.nodup_iff.mpr (hsort.nodup.map_on fun x hx y hy => ?_)
    exact hs (hc x hx) (hc y hy)
  exact (hle.and hnodup).imp fun h => lt_of_le_of_ne h.1 h.2

/-- A name that is renamed keeps its set. -/
theorem lookup_rename (hs : Set.InjOn s S) {c : Constraints} (hc : c.Within S)
    (hsort : (names c.entries).Pairwise (· < ·)) {x : String} (hx : x ∈ S) :
    (c.rename s).entries.lookup (s x) = c.entries.lookup x := by
  refine Option.ext fun r => ?_
  rw [lookup_eq_some_iff (sorted_rename hs hc hsort), lookup_eq_some_iff hsort, mem_rename]
  constructor
  · rintro ⟨y, hy, he⟩
    exact hs (hc y (mem_names_of_mem hy)) hx he ▸ hy
  · intro h
    exact ⟨x, h, rfl⟩

theorem Proper.rename (hs : Set.InjOn s S) {c : Constraints} (h : c.Proper) (hc : c.Within S) :
    (c.rename s).Proper := by
  have hsort := sorted_rename hs hc h.sorted
  rcases h.shape with ⟨x, a, rfl, ha⟩ | ⟨hlen, ht⟩
  · rw [rename_single]
    exact proper_single_iff.mpr (proper_single_iff.mp h)
  · refine ⟨hsort, ?_, .inr ⟨by rwa [length_rename], ?_⟩⟩
    · rintro ⟨y, r⟩ he
      obtain ⟨x, hx, -⟩ := mem_rename.mp he
      exact h.canonical (x, r) hx
    · refine (Names.sorted_ofList (c.tainted.map s)).eq_of_mem_iff hsort fun y => ?_
      rw [Names.mem_ofList, ht, mem_names_rename, List.mem_map]

/-! ## Joining -/

/-- A condition on several variables is known by its entries: all of them are tainted. -/
theorem Proper.eq_of_entries {a b : Constraints} (ha : a.Proper) (hb : b.Proper)
    (hlen : 2 ≤ a.entries.length) (h : a.entries = b.entries) : a = b := by
  have tainted {c : Constraints} (hc : c.Proper) (h2 : 2 ≤ c.entries.length) :
      c.tainted = names c.entries := by
    rcases hc.shape with ⟨x, r, rfl, -⟩ | ⟨-, ht⟩
    · exact absurd h2 (by simp [single])
    · exact ht
  have ht : a.tainted = b.tainted := by rw [tainted ha hlen, tainted hb (h ▸ hlen), h]
  cases a
  cases b
  cases h
  cases ht
  rfl

/-- Unless both sides speak about the same single variable, a join keeps every entry. -/
theorem Proper.join?_entries (c : Connective) {a b : Constraints} (ha : a.Proper) (hb : b.Proper)
    (hdiff : ¬ ∃ x l r, a = single x l ∧ b = single x r) :
    ∃ j, Constraints.join? c a b = some j ∧ j.Proper ∧ 2 ≤ j.entries.length ∧
      j.entries = (align a.entries b.entries).map (combinedEntry c) := by
  have hall := mem_joinTaint_of_mem_align ha hb hdiff
  obtain ⟨j, hj, hp, hlen⟩ := join?_of_tainted c ha hb hall (two_le_length_align ha hb hdiff)
  refine ⟨j, hj, hp, hlen, ?_⟩
  change (combineEntries c (joinTaint a b) _).map _ = _ at hj
  rw [combineEntries_of_tainted hall] at hj
  cases hj
  rfl

/-- Variables that are kept apart stay different. -/
theorem Proper.not_same_rename (hs : Set.InjOn s S) {a b : Constraints} (ha : a.Proper)
    (hb : b.Proper) (wa : a.Within S) (wb : b.Within S)
    (hdiff : ¬ ∃ x l r, a = single x l ∧ b = single x r) :
    ¬ ∃ y l r, a.rename s = single y l ∧ b.rename s = single y r := by
  have single_of {c : Constraints} {y : String} {q : IntervalList} (hc : c.Proper)
      (h : c.rename s = single y q) : ∃ x r, c = single x r ∧ s x = y := by
    rcases hc.shape with ⟨x, r, rfl, -⟩ | ⟨hlen, -⟩
    · rw [rename_single] at h
      cases h
      exact ⟨x, _, rfl, rfl⟩
    · rw [← length_rename (s := s), h] at hlen
      exact absurd hlen (by simp [single])
  rintro ⟨y, l, r, hl, hr⟩
  obtain ⟨x, p, rfl, hx⟩ := single_of ha hl
  obtain ⟨z, q, rfl, hz⟩ := single_of hb hr
  have hxz : x = z := hs (wa x List.mem_cons_self) (wb z List.mem_cons_self) (hx.trans hz.symm)
  exact hdiff ⟨x, p, q, rfl, by rw [hxz]⟩

theorem join?_rename (hs : Set.InjOn s S) (c : Connective) {a b : Constraints} (ha : a.Proper)
    (hb : b.Proper) (wa : a.Within S) (wb : b.Within S) :
    join? c (a.rename s) (b.rename s) = (join? c a b).map (rename s) := by
  by_cases hsame : ∃ x l r, a = single x l ∧ b = single x r
  · obtain ⟨x, l, r, rfl, rfl⟩ := hsame
    have hn := (combine_proper c ha hb).1
    rw [rename_single, rename_single, join?_single c hn, join?_single c hn]
    split
    · rfl
    · rw [Option.map_some, rename_single]
  · obtain ⟨j, hj, hp, hlen, he⟩ := ha.join?_entries c hb hsame
    obtain ⟨j', hj', hp', hlen', he'⟩ := (ha.rename hs wa).join?_entries c (hb.rename hs wb)
      (ha.not_same_rename hs hb wa wb hsame)
    have wj : j.Within S := by
      intro x hx
      rw [he, names_map_combinedEntry, mem_names_align] at hx
      exact hx.elim (wa x) (wb x)
    rw [hj, hj', Option.map_some, hp'.eq_of_entries (hp.rename hs wj) hlen']
    refine entries_ext hp'.sorted (sorted_rename hs wj hp.sorted) fun y r => ?_
    have hmem : ∀ x ∈ S, ((s x, r) ∈ j'.entries ↔ (x, r) ∈ j.entries) := by
      intro x hx
      rw [he', he, mem_joined_iff (sorted_rename hs wa ha.sorted) (sorted_rename hs wb hb.sorted),
        mem_joined_iff ha.sorted hb.sorted, lookup_rename hs wa ha.sorted hx,
        lookup_rename hs wb hb.sorted hx]
    rw [mem_rename]
    constructor
    · intro hy
      have hn := mem_names_of_mem hy
      rw [he', names_map_combinedEntry, mem_names_align, mem_names_rename, mem_names_rename] at hn
      obtain ⟨x, hx, rfl⟩ : ∃ x ∈ S, s x = y := by
        rcases hn with ⟨x, hx, hxy⟩ | ⟨x, hx, hxy⟩
        · exact ⟨x, wa x hx, hxy⟩
        · exact ⟨x, wb x hx, hxy⟩
      exact ⟨x, (hmem x hx).mp hy, rfl⟩
    · rintro ⟨x, hx, rfl⟩
      exact (hmem x (wj x (mem_names_of_mem hx))).mpr hx

theorem within_join? {c : Connective} {a b j : Constraints} (wa : a.Within S) (wb : b.Within S)
    (h : join? c a b = some j) : j.Within S := by
  obtain ⟨entries, he, rfl⟩ := Option.map_eq_some_iff.mp h
  intro x hx
  have hsub := (combineEntries_sublist he).map Prod.fst |>.subset hx
  change x ∈ names _ at hsub
  rw [names_map_combinedEntry, mem_names_align] at hsub
  exact hsub.elim (wa x) (wb x)

/-! ## Negation -/

theorem negate_single {x : String} {a a' : IntervalList} (h : a.complement = .ok a') :
    (single x a).negate = .ok (single x a') := by
  simp only [negate, single, List.mapM_cons, List.mapM_nil, h]
  rfl

theorem Proper.negate_rename (hs : Set.InjOn s S) {c : Constraints} (h : c.Proper)
    (wc : c.Within S) : (c.rename s).negate = c.negate.map (Constraints.rename s) := by
  rcases h.negate_cases with ⟨x, a, a', rfl, hc, hn, -⟩ | ⟨hlen, hn⟩
  · rw [hn, rename_single, negate_single hc, Except.map, rename_single]
  · rw [hn]
    rcases (h.rename hs wc).negate_cases with ⟨x, a, a', he, -⟩ | ⟨-, hn'⟩
    · rw [← length_rename (s := s), he] at hlen
      exact absurd hlen (by simp [single])
    · exact hn'

theorem singleVariable?_of_two_le {c : Constraints} (h : 2 ≤ c.entries.length) :
    c.singleVariable? = none := by
  unfold singleVariable?
  split
  · rename_i he
    rw [he] at h
    exact absurd h (by simp)
  · rfl

/-- The only variable of a condition is renamed with it. -/
theorem Proper.singleVariable?_rename {c : Constraints} (h : c.Proper) :
    (c.rename s).singleVariable? = c.singleVariable?.map s := by
  rcases h.shape with ⟨x, a, rfl, -⟩ | ⟨hlen, -⟩
  · rw [rename_single]
    rfl
  · rw [singleVariable?_of_two_le hlen, singleVariable?_of_two_le (by rwa [length_rename])]
    rfl

end Constraints

/-! ## Values -/

namespace Value

def rename (s : String → String) : Value → Value
  | .var x => .var (s x)
  | .ranges c => .ranges (c.rename s)
  | v => v

theorem rename_ranges (c : Constraints) : (ranges c).rename s = .ranges (c.rename s) := rfl

/-- All names of the value lie in `S`. -/
def Within (S : Set String) : Value → Prop
  | .var x => x ∈ S
  | .ranges c => c.Within S
  | _ => True

@[simp] theorem toInt?_rename (v : Value) : (v.rename s).toInt? = v.toInt? := by
  cases v <;> rfl

theorem Proper.toBool?_rename (hs : Set.InjOn s S) {v : Value} (h : v.Proper) (hv : v.Within S) :
    (v.rename s).toBool? = v.toBool? := by
  cases v with
  | ranges c =>
    have hc : (ranges (c.rename s)).Proper := Constraints.Proper.rename hs h hv
    rw [h.toBool?_ranges]
    exact hc.toBool?_ranges
  | unknown => rfl
  | int n => rfl
  | bool b => rfl
  | var x => rfl

theorem Proper.connect_rename (hs : Set.InjOn s S) (c : Connective) {l r : Value} (hl : l.Proper)
    (hr : r.Proper) (wl : l.Within S) (wr : r.Within S) :
    Value.connect c (l.rename s) (r.rename s) = (Value.connect c l r).rename s := by
  unfold Value.connect
  rw [hl.toBool?_rename hs wl]
  split
  · split
    · cases l <;> rfl
    · rfl
  · cases l with
    | ranges a =>
      cases r with
      | ranges b =>
        simp only [rename, Constraints.join?_rename hs c hl hr wl wr]
        cases Constraints.join? c a b with
        | none => rfl
        | some j => rfl
      | _ => rfl
    | _ => rfl

theorem within_connect (c : Connective) {l r : Value} (wl : l.Within S) (wr : r.Within S) :
    (connect c l r).Within S := by
  rcases connect_cases c l r with h | ⟨n, h⟩ | ⟨b, h⟩ | h | ⟨a, b, j, rfl, rfl, hj, h⟩
  · exact h ▸ trivial
  · exact h ▸ trivial
  · exact h ▸ trivial
  · rw [h]
    exact wr
  · exact h ▸ Constraints.within_join? wl wr hj

theorem Proper.not_rename (hs : Set.InjOn s S) {v : Value} (h : v.Proper) (wv : v.Within S) :
    (v.rename s).not = v.not.map (rename s) := by
  unfold Value.not
  rw [h.toBool?_rename hs wv]
  split
  · rfl
  · cases v with
    | ranges c =>
      simp only [rename, Constraints.Proper.negate_rename hs h wv]
      cases c.negate with
      | error f => rfl
      | ok d => rfl
    | _ => rfl

theorem compare_rename (l : Value) (c : Comparison) (r : Value) :
    (l.rename s).compare c (r.rename s) = (l.compare c r).rename s := by
  cases l <;> cases r <;> simp [compare, rename, toInt?, Constraints.rename_single]

theorem within_single {x : String} {a : IntervalList} (hx : x ∈ S) :
    (ranges (.single x a)).Within S := by
  intro y hy
  rw [List.mem_singleton.mp hy]
  exact hx

theorem within_compare (c : Comparison) {l r : Value} (wl : l.Within S) (wr : r.Within S) :
    (l.compare c r).Within S := by
  unfold compare
  split
  · trivial
  · split
    · exact within_single wl
    · trivial
  · split
    · exact within_single wr
    · trivial
  · trivial

theorem Proper.within_not {v u : Value} (h : v.Proper) (wv : v.Within S) (hu : v.not = .ok u) :
    u.Within S := by
  unfold Value.not at hu
  split at hu
  · cases hu
    trivial
  · split at hu
    · rcases Constraints.Proper.negate_cases h with ⟨x, a, a', rfl, -, hn, -⟩ | ⟨-, hn⟩
      · rw [hn] at hu
        cases hu
        exact within_single (wv x List.mem_cons_self)
      · rw [hn] at hu
        cases hu
        exact wv
    · cases hu
      trivial

/-- The shared operand of a chain is the variable of the links so far exactly if it is so
after renaming. -/
theorem rename_eq_var_iff (hs : Set.InjOn s S) {m : Value} {x : String} (wm : m.Within S)
    (hx : x ∈ S) : m.rename s = .var (s x) ↔ m = .var x := by
  cases m with
  | var y =>
    simp only [rename, var.injEq]
    exact hs.eq_iff wm hx
  | _ => simp [rename]

theorem Proper.chain_rename (hs : Set.InjOn s S) (c : Comparison) {l m r : Value} (hl : l.Proper)
    (wl : l.Within S) (wm : m.Within S) (wr : r.Within S) :
    (l.rename s).chain (m.rename s) c (r.rename s) = (l.chain m c r).rename s := by
  have extend {v : Value} (wv : v.Within S) :
      (l.rename s).and ((v.rename s).compare c (r.rename s)) =
        (l.and (v.compare c r)).rename s := by
    rw [compare_rename]
    exact hl.connect_rename hs .and (proper_compare v c r) wl (within_compare c wv wr)
  cases l with
  | ranges a =>
    have hvar := Constraints.Proper.singleVariable?_rename (s := s) hl
    simp only [rename_ranges] at extend ⊢
    simp only [Value.chain, hvar]
    cases hx : a.singleVariable? with
    | none => rfl
    | some x =>
      have wx : x ∈ S := by
        unfold Constraints.singleVariable? at hx
        split at hx
        · rename_i he
          cases hx
          exact wl _ (by rw [he]; exact List.mem_cons_self)
        · cases hx
      simp only [Option.map_some, rename_eq_var_iff hs wm wx]
      split
      · exact extend (v := .var x) wx
      · rfl
  | unknown => exact extend wm
  | int n => exact extend wm
  | bool b => exact extend wm
  | var x => exact extend wm

theorem within_chain (c : Comparison) {l m r : Value} (wl : l.Within S) (wm : m.Within S)
    (wr : r.Within S) : (l.chain m c r).Within S := by
  rcases chain_cases l m c r with h | h
  · exact h ▸ trivial
  · exact h ▸ within_connect .and wl (within_compare c wm wr)

/-- Nothing or an integer is known: no names occur in the value. -/
def Nameless (v : Value) : Prop := v = .unknown ∨ ∃ n, v = .int n

theorem nameless_checked (n : Int) : (checked n).Nameless := by
  unfold checked
  split
  · exact .inr ⟨n, rfl⟩
  · exact .inl rfl

theorem nameless_power (base exponent : Int) : (power base exponent).Nameless := by
  rw [power_eq_ite]
  split
  · exact .inl rfl
  · split
    · exact .inl rfl
    · exact nameless_checked _

theorem nameless_arith (l : Value) (op : Arithmetic) (r : Value) : (l.arith op r).Nameless := by
  unfold arith
  split
  · cases op with
    | add => exact nameless_checked _
    | sub => exact nameless_checked _
    | mul => exact nameless_checked _
    | pow => exact nameless_power _ _
    | div | floorDiv | mod =>
      dsimp only
      split
      · exact .inl rfl
      · exact nameless_checked _
  · exact .inl rfl

theorem Nameless.rename {v : Value} (h : v.Nameless) : v.rename s = v := by
  rcases h with rfl | ⟨n, rfl⟩
  · rfl
  · rfl

theorem Nameless.within {v : Value} (h : v.Nameless) : v.Within S := by
  rcases h with rfl | ⟨n, rfl⟩
  · trivial
  · trivial

theorem Proper.binary_rename (hs : Set.InjOn s S) (op : BinaryOp) {l r : Value} (hl : l.Proper)
    (hr : r.Proper) (wl : l.Within S) (wr : r.Within S) :
    Value.binary op (l.rename s) (r.rename s) = (Value.binary op l r).rename s := by
  cases op with
  | logical c => exact hl.connect_rename hs c hr wl wr
  | compare c => exact compare_rename l c r
  | arith a =>
    change (l.rename s).arith a (r.rename s) = (l.arith a r).rename s
    rw [(nameless_arith l a r).rename]
    simp only [arith, toInt?_rename]
  | unsupported symbol => rfl

theorem within_binary (op : BinaryOp) {l r : Value} (wl : l.Within S) (wr : r.Within S) :
    (binary op l r).Within S := by
  cases op with
  | logical c => exact within_connect c wl wr
  | compare c => exact within_compare c wl wr
  | arith a => exact (nameless_arith l a r).within
  | unsupported symbol => trivial

theorem Proper.unary_rename (hs : Set.InjOn s S) (op : UnaryOp) {v u : Value} (h : v.Proper)
    (wv : v.Within S) (hu : Value.unary op v = .ok u) :
    Value.unary op (v.rename s) = .ok (u.rename s) ∧ u.Within S := by
  cases op with
  | not =>
    refine ⟨?_, h.within_not wv hu⟩
    change (v.rename s).not = _
    rw [h.not_rename hs wv, show v.not = .ok u from hu]
    rfl
  | plus =>
    cases hu
    simp only [Value.unary, toInt?_rename]
    cases v.toInt? with
    | none => exact ⟨rfl, trivial⟩
    | some n => exact ⟨rfl, trivial⟩
  | minus =>
    cases hu
    simp only [Value.unary, toInt?_rename]
    cases v.toInt? with
    | none => exact ⟨rfl, trivial⟩
    | some n => exact ⟨by rw [(nameless_checked _).rename], (nameless_checked _).within⟩
  | unsupported symbol =>
    cases hu
    exact ⟨rfl, trivial⟩

end Value

/-! ## Expressions -/

namespace Expr

/-- Every variable replaced. -/
def rename (s : String → String) : Expr → Expr
  | .name x => .name (s x)
  | .paren e => .paren (e.rename s)
  | .unary op e => .unary op (e.rename s)
  | .binary op l r chained => .binary op (l.rename s) (r.rename s) chained
  | e => e

/-- The variables of an expression. -/
def names : Expr → List String
  | .name x => [x]
  | .paren e => e.names
  | .unary _ e => e.names
  | .binary _ l r _ => l.names ++ r.names
  | _ => []

theorem nameless_literal (value : Option Int) (isInteger : Bool) :
    (literalValue value isInteger).Nameless := by
  unfold literalValue
  split
  · exact Value.nameless_checked _
  · exact .inl rfl

@[simp] theorem isBinary_rename (e : Expr) : (e.rename s).isBinary = e.isBinary := by
  cases e <;> rfl

theorem apply_rename (hs : Set.InjOn s S) {below : Ascent} {right : Value} (op : BinaryOp)
    (continues : Bool) (hb : below.result.Proper) (hr : right.Proper)
    (wb : below.result.Within S) (wm : below.middle.Within S) (wr : right.Within S) :
    (Link.apply ⟨below.result.rename s, below.middle.rename s⟩
        ⟨op, continues, right.rename s⟩).result =
      (Link.apply below ⟨op, continues, right⟩).result.rename s ∧
    (Link.apply below ⟨op, continues, right⟩).result.Within S := by
  rcases Link.apply_cases op continues with ⟨c, -, -, happly⟩ | happly
  · rw [happly, happly]
    exact ⟨hb.chain_rename hs c wb wm wr, Value.within_chain c wb wm wr⟩
  · rw [happly, happly]
    exact ⟨hb.binary_rename hs op hr wb wr, Value.within_binary op wb wr⟩

/-- A renaming that keeps the variables apart renames the value, and the operand that is
shared with a chain. -/
theorem ascend_rename (hs : Set.InjOn s S) (e : Expr) (he : ∀ x ∈ e.names, x ∈ S) :
    ∃ a, e.ascend = .ok a ∧ (e.rename s).ascend = .ok ⟨a.result.rename s, a.middle.rename s⟩ ∧
      a.result.Within S ∧ a.middle.Within S := by
  induction e with
  | num v isInteger =>
    have hn := nameless_literal v isInteger
    refine ⟨_, rfl, ?_, hn.within, hn.within⟩
    rw [hn.rename]
    rfl
  | bool b => exact ⟨_, rfl, rfl, trivial, trivial⟩
  | name x =>
    have hx : x ∈ S := he x List.mem_cons_self
    exact ⟨_, rfl, rfl, hx, hx⟩
  | foreign kind => exact ⟨_, rfl, rfl, trivial, trivial⟩
  | paren e ih =>
    obtain ⟨a, ha, ha', wa, -⟩ := ih he
    exact ⟨_, ascend_paren ha, ascend_paren ha', wa, wa⟩
  | unary op e ih =>
    obtain ⟨a, ha, ha', wa, -⟩ := ih he
    obtain ⟨u, hu, -⟩ := (proper_of_ascend ha).unary op
    obtain ⟨hu', wu⟩ := (proper_of_ascend ha).unary_rename hs op wa hu
    exact ⟨_, ascend_unary ha hu, ascend_unary ha' hu', wu, wu⟩
  | binary op l r chained ihl ihr =>
    obtain ⟨below, hl, hl', wb, wm⟩ := ihl fun x hx => he x (List.mem_append_left _ hx)
    obtain ⟨right, hr, hr', wr, -⟩ := ihr fun x hx => he x (List.mem_append_right _ hx)
    obtain ⟨heq, hw⟩ := apply_rename hs op (chained && l.isBinary) (proper_of_ascend hl)
      (proper_of_ascend hr) wb wm wr
    refine ⟨_, ascend_binary hl hr, ?_, hw, wr⟩
    rw [rename, ascend_binary hl' hr', isBinary_rename, ← heq]
    rfl

end Expr
end Foregone
