import Foregone.Guard
import Foregone.Proofs.StatementSpans

/-! # The `if` statements of a tree and their guards

A place in a tree is the way down to it, one index for each level, and places are ordered as
what stands at them is read: a node comes before all that is in it, and that before all that
follows. The `if` statements are gathered in this order, each place once, and it is the order
of the offsets they start at; so are the conditions of one statement. -/

namespace Foregone.Node

/-! ## Places -/

/-- The node at a place. -/
def at? : Node → List Nat → Option Node
  | n, [] => some n
  | n, i :: p => n.children[i]?.bind fun c => c.at? p

theorem at?_append (n : Node) (p q : List Nat) :
    n.at? (p ++ q) = (n.at? p).bind fun m => m.at? q := by
  induction p generalizing n with
  | nil => rfl
  | cons i p ih =>
    rw [List.cons_append, at?, at?]
    cases n.children[i]? with
    | none => rfl
    | some c => exact ih c

/-- A node and the place it stands at. -/
abbrev Occurrence := List Nat × Node

/-- What is found in each of the nodes, if the first of them is the `i`-th child. -/
def under (find : Node → List Occurrence) : Nat → List Node → List Occurrence
  | _, [] => []
  | i, c :: cs => (find c).map (fun o => (i :: o.1, o.2)) ++ under find (i + 1) cs

/-- The list holds all occurrences with the property, each once and in order. -/
structure Lists (P : List Nat → Node → Prop) (os : List Occurrence) : Prop where
  mem : ∀ p m, (p, m) ∈ os ↔ P p m
  ordered : (os.map Prod.fst).Pairwise (· < ·)

variable {find : Node → List Occurrence} {i : Nat} {cs : List Node} {p : List Nat} {m : Node}

theorem mem_under : (p, m) ∈ under find i cs ↔
    ∃ j q c, p = (i + j) :: q ∧ cs[j]? = some c ∧ (q, m) ∈ find c := by
  induction cs generalizing i with
  | nil => simp [under]
  | cons c cs ih =>
    rw [under, List.mem_append, ih, List.mem_map]
    constructor
    · intro h
      rcases h with ⟨⟨q, m'⟩, hq, heq⟩ | ⟨j, q, c', rfl, hc', hq⟩
      · cases heq
        exact ⟨0, q, c, rfl, rfl, hq⟩
      · exact ⟨j + 1, q, c', by rw [Nat.add_right_comm, Nat.add_assoc], hc', hq⟩
    · intro h
      obtain ⟨j, q, c', rfl, hc', hq⟩ := h
      cases j with
      | zero =>
        cases hc'
        exact .inl ⟨(q, m), hq, rfl⟩
      | succ j => exact .inr ⟨j, q, c', by rw [Nat.add_right_comm, Nat.add_assoc], hc', hq⟩

theorem map_snd_under : (under find i cs).map Prod.snd =
    cs.flatMap fun c => (find c).map Prod.snd := by
  induction cs generalizing i with
  | nil => rfl
  | cons c cs ih =>
    have hsnd : Prod.snd ∘ (fun o : Occurrence => (i :: o.1, o.2)) = Prod.snd := rfl
    rw [under, List.map_append, ih, List.map_map, hsnd, List.flatMap_cons]

theorem pairwise_under (h : ∀ c ∈ cs, ((find c).map Prod.fst).Pairwise (· < ·)) :
    ((under find i cs).map Prod.fst).Pairwise (· < ·) := by
  induction cs generalizing i with
  | nil => exact .nil
  | cons c cs ih =>
    obtain ⟨hc, hcs⟩ := List.forall_mem_cons.mp h
    rw [under, List.map_append, List.pairwise_append]
    refine ⟨?_, ih hcs, ?_⟩
    · rw [List.map_map, List.pairwise_map]
      rw [List.pairwise_map] at hc
      exact hc.imp fun hlt => List.cons_lt_cons_iff.mpr (.inr ⟨rfl, hlt⟩)
    · intro p hp q hq
      obtain ⟨⟨p', m⟩, hp', rfl⟩ := List.mem_map.mp hp
      obtain ⟨⟨_, _⟩, -, heq⟩ := List.mem_map.mp hp'
      cases heq
      obtain ⟨⟨q', m'⟩, hq', rfl⟩ := List.mem_map.mp hq
      obtain ⟨j, r, _, rfl, -, -⟩ := mem_under.mp hq'
      exact List.cons_lt_cons_iff.mpr (.inl (by omega))

theorem Lists.under {P : Node → List Nat → Node → Prop} (h : ∀ c ∈ cs, Lists (P c) (find c)) :
    Lists (fun p m => ∃ j q c, p = j :: q ∧ cs[j]? = some c ∧ P c q m) (under find 0 cs) := by
  refine ⟨fun p m => ?_, pairwise_under fun c hc => (h c hc).ordered⟩
  simp only [mem_under, Nat.zero_add]
  constructor
  · intro hm
    obtain ⟨j, q, c, hp, hc, hq⟩ := hm
    exact ⟨j, q, c, hp, hc, ((h c (List.mem_of_getElem? hc)).mem q m).mp hq⟩
  · intro hm
    obtain ⟨j, q, c, hp, hc, hq⟩ := hm
    exact ⟨j, q, c, hp, hc, ((h c (List.mem_of_getElem? hc)).mem q m).mpr hq⟩

/-! ## The statements of a tree -/

mutual

/-- The `if` statements in a tree with their places. -/
def ifOccurrences : Node → List Occurrence
  | .leaf .. => []
  | .branch k l s e cs =>
    if k = .ifStatement then ([], .branch k l s e cs) :: ifOccurrencesOf 0 cs
    else ifOccurrencesOf 0 cs

/-- The `if` statements in the children from the `i`-th on. -/
def ifOccurrencesOf (i : Nat) : List Node → List Occurrence
  | [] => []
  | c :: cs => (ifOccurrences c).map (fun o => (i :: o.1, o.2)) ++ ifOccurrencesOf (i + 1) cs

end

theorem ifOccurrencesOf_eq (i : Nat) (cs : List Node) :
    ifOccurrencesOf i cs = under ifOccurrences i cs := by
  induction cs generalizing i with
  | nil => rw [ifOccurrencesOf, under]
  | cons c cs ih => rw [ifOccurrencesOf, ih, under]

theorem ifStatementsOf_eq (cs : List Node) : ifStatementsOf cs = cs.flatMap ifStatements := by
  induction cs with
  | nil => rw [ifStatementsOf, List.flatMap_nil]
  | cons c cs ih => rw [ifStatementsOf, ih, List.flatMap_cons]

/-- An `if` statement stands at the place. -/
def IfAt (n : Node) (p : List Nat) (m : Node) : Prop := n.at? p = some m ∧ m.kind = .ifStatement

theorem ifAt_nil {n : Node} : n.IfAt [] m ↔ n = m ∧ m.kind = .ifStatement := by
  simp [IfAt, at?]

theorem ifAt_cons {n : Node} {j : Nat} :
    n.IfAt (j :: p) m ↔ ∃ c, n.children[j]? = some c ∧ c.IfAt p m := by
  simp [IfAt, at?, Option.bind_eq_some_iff, ← exists_and_right, and_assoc]

theorem mem_ifStatements {n : Node} (h : m ∈ n.ifStatements) :
    (n = m ∧ m.kind = .ifStatement) ∨ ∃ c ∈ n.children, m ∈ c.ifStatements := by
  cases n with
  | leaf => cases h
  | branch k l s e cs =>
    have inside (hm : m ∈ ifStatementsOf cs) : ∃ c ∈ cs, m ∈ c.ifStatements :=
      List.mem_flatMap.mp (ifStatementsOf_eq cs ▸ hm)
    rw [ifStatements] at h
    split at h
    · rename_i hk
      obtain rfl | hm := List.mem_cons.mp h
      · exact .inl ⟨rfl, hk⟩
      · exact .inr (inside hm)
    · exact .inr (inside h)

/-- What is gathered stands somewhere in the node, whatever the node is like. -/
theorem exists_ifAt (n : Node) (h : m ∈ n.ifStatements) : ∃ p, n.IfAt p m := by
  obtain hself | ⟨c, hc, hm⟩ := mem_ifStatements h
  · exact ⟨[], ifAt_nil.mpr hself⟩
  · have := sizeOf_lt_of_mem_children hc
    obtain ⟨p, hp⟩ := exists_ifAt c hm
    obtain ⟨i, hi⟩ := List.getElem?_of_mem hc
    exact ⟨i :: p, ifAt_cons.mpr ⟨c, hi, hp⟩⟩
termination_by sizeOf n

/-- The list holds the `if` statements of the node with their places. -/
structure ListsIfs (n : Node) : Prop where
  lists : Lists n.IfAt n.ifOccurrences
  nodes : n.ifOccurrences.map Prod.snd = n.ifStatements

/-- A node lists its statements if its children do. -/
theorem ListsIfs.of_children {n : Node} (hn : n.kind = .ifStatement → n.children ≠ [])
    (hc : ∀ c ∈ n.children, c.ListsIfs) : n.ListsIfs := by
  cases n with
  | leaf k l s e t =>
    refine ⟨⟨fun p m => ?_, .nil⟩, rfl⟩
    cases p with
    | nil =>
      simp only [ifOccurrences, List.not_mem_nil, ifAt_nil, false_iff]
      rintro ⟨rfl, hm⟩
      exact hn hm rfl
    | cons j p => simp [ifOccurrences, ifAt_cons, children]
  | branch k l s e cs =>
    have hbelow : Lists (fun p m => ∃ j q c, p = j :: q ∧ cs[j]? = some c ∧ c.IfAt q m)
        (ifOccurrencesOf 0 cs) := by
      rw [ifOccurrencesOf_eq]
      exact .under fun c hmem => (hc c hmem).lists
    have hcons (j : Nat) (p : List Nat) (m : Node) :
        (j :: p, m) ∈ ifOccurrencesOf 0 cs ↔ (branch k l s e cs).IfAt (j :: p) m := by
      simp [hbelow.mem, ifAt_cons, children]
    have hnil (m : Node) : ([], m) ∉ ifOccurrencesOf 0 cs := by
      simp [hbelow.mem]
    have hnodes : (ifOccurrencesOf 0 cs).map Prod.snd = ifStatementsOf cs := by
      rw [ifOccurrencesOf_eq, map_snd_under, ifStatementsOf_eq]
      exact List.flatMap_congr fun c hmem => (hc c hmem).nodes
    by_cases hk : k = .ifStatement
    · refine ⟨⟨fun p m => ?_, ?_⟩, ?_⟩
      · rw [ifOccurrences, if_pos hk, List.mem_cons]
        cases p with
        | nil =>
          simp only [hnil, or_false, Prod.mk.injEq, true_and, ifAt_nil]
          exact ⟨fun heq => ⟨heq.symm, heq ▸ hk⟩, fun heq => heq.1.symm⟩
        | cons j p => simp [hcons]
      · rw [ifOccurrences, if_pos hk, List.map_cons, List.pairwise_cons]
        refine ⟨fun p hp => ?_, hbelow.ordered⟩
        obtain ⟨⟨q, m⟩, hmem, rfl⟩ := List.mem_map.mp hp
        cases q with
        | nil => exact (hnil m hmem).elim
        | cons j q => exact List.nil_lt_cons j q
      · rw [ifOccurrences, if_pos hk, ifStatements, if_pos hk, List.map_cons, hnodes]
    · refine ⟨⟨fun p m => ?_, ?_⟩, ?_⟩
      · rw [ifOccurrences, if_neg hk]
        cases p with
        | nil =>
          simp only [hnil, ifAt_nil, false_iff]
          rintro ⟨rfl, hm⟩
          exact hk hm
        | cons j p => exact hcons j p m
      · rw [ifOccurrences, if_neg hk]
        exact hbelow.ordered
      · rw [ifOccurrences, if_neg hk, ifStatements, if_neg hk, hnodes]

variable {B : Nat → Prop}

theorem Laid.listsIfs {n : Node} (h : n.Laid B) : n.ListsIfs := by
  induction h with
  | of h _ ih =>
    refine .of_children (fun hk => ?_) ih
    obtain ⟨k, rest, hchildren, -⟩ := (h.isIf hk).keyword
    rw [hchildren]
    exact List.cons_ne_nil k rest

/-! ## The order of statements -/

/-- The nodes start one behind the other, from `p` on and in front of `q`. -/
structure Ascending (p q : Nat) (ms : List Node) : Prop where
  starts : ms.Pairwise fun a b => a.start < b.start
  bounds : ∀ m ∈ ms, p ≤ m.start ∧ m.start < q

theorem Ascending.append {p q r : Nat} {ms ns : List Node} (hm : Ascending p q ms)
    (hn : Ascending q r ns) (hpq : p ≤ q) (hqr : q ≤ r) : Ascending p r (ms ++ ns) := by
  refine ⟨List.pairwise_append.mpr ⟨hm.starts, hn.starts, fun a ha b hb => ?_⟩, fun m hmem => ?_⟩
  · exact Nat.lt_of_lt_of_le (hm.bounds a ha).2 (hn.bounds b hb).1
  · rcases List.mem_append.mp hmem with hmem | hmem
    · exact ⟨(hm.bounds m hmem).1, Nat.lt_of_lt_of_le (hm.bounds m hmem).2 hqr⟩
    · exact ⟨hpq.trans (hn.bounds m hmem).1, (hn.bounds m hmem).2⟩

theorem Ascending.widen {p p' q q' : Nat} {ms : List Node} (h : Ascending p q ms) (hp : p' ≤ p)
    (hq : q ≤ q') : Ascending p' q' ms :=
  ⟨h.starts, fun m hm => ⟨hp.trans (h.bounds m hm).1, Nat.lt_of_lt_of_le (h.bounds m hm).2 hq⟩⟩

/-- A node without children holds no statement. -/
theorem Seated.ifStatements_eq_nil {n : Node} (h : n.Seated B) (hn : n.children = []) :
    n.ifStatements = [] := by
  cases n with
  | leaf => rfl
  | branch k l s e cs =>
    cases hn
    have hk : k ≠ .ifStatement := by
      intro hk
      obtain ⟨_, _, hchildren, -⟩ := (h.isIf hk).keyword
      cases hchildren
    rw [ifStatements, if_neg hk, ifStatementsOf]

theorem Row.ascending {p q : Nat} {ns : List Node} (h : Row p q ns)
    (hns : ∀ n ∈ ns, n.Seated B ∧ Ascending n.start n.stop n.ifStatements) :
    Ascending p q (ifStatementsOf ns) := by
  induction h with
  | nil p => exact ⟨.nil, nofun⟩
  | extra hm _ _ ih =>
    obtain ⟨⟨hseated, -⟩, hns⟩ := List.forall_mem_cons.mp hns
    rw [ifStatementsOf, hseated.ifStatements_eq_nil (hseated.extra hm), List.nil_append]
    exact ih hns
  | node _ hp hle h ih =>
    obtain ⟨⟨-, hn⟩, hns⟩ := List.forall_mem_cons.mp hns
    rw [ifStatementsOf]
    exact (hn.widen hp (Nat.le_refl _)).append (ih hns) (hp.trans hle) h.le

/-- Behind its keyword, an `if` statement holds others that start after it. -/
theorem Seated.ascending_of_isIf {n : Node} (h : n.Seated B) (hn : n.IsIf)
    (hc : ∀ c ∈ n.children, c.Seated B ∧ Ascending c.start c.stop c.ifStatements) :
    Ascending n.start n.stop (n :: ifStatementsOf n.children) := by
  obtain ⟨q, hq, hrow⟩ := h.row
  obtain ⟨k, rest, hchildren, hk, hleaf, hlt⟩ := hn.keyword
  rw [hchildren] at hrow hc ⊢
  obtain ⟨⟨hkeyword, -⟩, hrest⟩ := List.forall_mem_cons.mp hc
  rw [ifStatementsOf, hkeyword.ifStatements_eq_nil hleaf, List.nil_append]
  cases hrow with
  | extra hextra => exact absurd (hk.symm.trans hextra) (by decide)
  | node _ hp _ hrow =>
    have hbehind := hrow.ascending hrest
    have hle := hrow.le
    refine ⟨List.pairwise_cons.mpr ⟨fun m hm => ?_, hbehind.starts⟩, fun m hm => ?_⟩
    · have := (hbehind.bounds m hm).1
      omega
    · rcases List.mem_cons.mp hm with rfl | hm
      · omega
      · have := hbehind.bounds m hm
        omega

theorem Laid.ascending {n : Node} (h : n.Laid B) : Ascending n.start n.stop n.ifStatements := by
  induction h with
  | @of n h hc ih =>
    have hns : ∀ c ∈ n.children, c.Seated B ∧ Ascending c.start c.stop c.ifStatements :=
      fun c hmem => ⟨(hc c hmem).seated, ih c hmem⟩
    cases n with
    | leaf => exact ⟨.nil, nofun⟩
    | branch k l s e cs =>
      by_cases hk : k = .ifStatement
      · rw [ifStatements, if_pos hk]
        exact h.ascending_of_isIf (h.isIf hk) hns
      · obtain ⟨q, hq, hrow⟩ := h.row
        rw [ifStatements, if_neg hk]
        exact (hrow.ascending hns).widen (Nat.le_refl _) hq

theorem Laid.of_at? {n : Node} (h : n.Laid B) (hp : n.at? p = some m) : m.Laid B := by
  induction p generalizing n with
  | nil =>
    cases hp
    exact h
  | cons i p ih =>
    obtain ⟨c, hc, hp⟩ := Option.bind_eq_some_iff.mp hp
    exact ih (h.child (List.mem_of_getElem? hc)) hp

/-! ## A whole tree -/

namespace IsModule

variable {tree : Node}

theorem listsIfs (h : tree.IsModule B) : tree.ListsIfs := by
  refine .of_children (fun hk => ?_) fun c hc => (h.laid c hc).listsIfs
  cases h.kind.symm.trans hk

theorem ascending (h : tree.IsModule B) :
    tree.ifStatements.Pairwise fun a b => a.start < b.start := by
  obtain ⟨p, q, hrow⟩ := h.row
  have hascending := hrow.ascending fun c hc => ⟨(h.laid c hc).seated, (h.laid c hc).ascending⟩
  cases tree with
  | leaf => exact .nil
  | branch k l s e cs =>
    have hk : k ≠ .ifStatement := by
      intro hk
      cases h.kind.symm.trans hk
    rw [ifStatements, if_neg hk]
    exact hascending.starts

/-- The statements are gathered in the order in which they start. -/
theorem nodesOf_eq (h : tree.IsModule B) : IfStatement.nodesOf tree = tree.ifStatements :=
  List.mergeSort_of_pairwise (h.ascending.imp fun hlt => decide_eq_true (Nat.le_of_lt hlt))

theorem laid_of_ifAt (h : tree.IsModule B) (hm : tree.IfAt p m) : m.Laid B := by
  cases p with
  | nil =>
    obtain ⟨rfl, hk⟩ := ifAt_nil.mp hm
    cases h.kind.symm.trans hk
  | cons i p =>
    obtain ⟨c, hc, hp⟩ := ifAt_cons.mp hm
    exact (h.laid c (List.mem_of_getElem? hc)).of_at? hp.1

end IsModule

/-! ## The guards of a statement -/

/-- The condition of an `if` statement, or of an `elif` clause of it, stands at the place. -/
inductive GuardAt (n : Node) : List Nat → Node → Prop
  | own {i : Nat} {c : Node} (hc : n.children[i]? = some c) (hlabel : c.label = some .condition) :
    GuardAt n [i] c
  | clause {i j : Nat} {e c : Node} (he : n.children[i]? = some e)
    (hlabel : e.label = some .alternative) (hkind : e.kind = .elifClause)
    (hc : e.children[j]? = some c) (hcondition : c.label = some .condition) : GuardAt n [i, j] c

theorem Laid.of_guardAt {n c : Node} (h : n.Laid B) (hc : n.GuardAt p c) : c.Laid B := by
  cases hc with
  | own hc => exact h.child (List.mem_of_getElem? hc)
  | clause he _ _ hc => exact (h.child (List.mem_of_getElem? he)).child (List.mem_of_getElem? hc)

theorem exists_of_child? {n c : Node} {l : Label} (h : n.child? l = some c) :
    ∃ i : Nat, n.children[i]? = some c ∧ c.label = some l := by
  obtain ⟨i, hi⟩ := List.getElem?_of_mem (List.mem_of_find?_eq_some h)
  exact ⟨i, hi, by simpa using List.find?_some h⟩

/-- The conditions of a statement stand in it, whatever the statement is like. -/
theorem exists_guardAt {n c : Node} {conditions : List Node}
    (h : IfStatement.conditions? n = some conditions) (hc : c ∈ conditions) :
    ∃ r, n.GuardAt r c := by
  obtain ⟨own, hown, rfl⟩ := Option.map_eq_some_iff.mp h
  obtain rfl | hc := List.mem_cons.mp hc
  · obtain ⟨i, hi, hlabel⟩ := exists_of_child? hown
    exact ⟨[i], .own hi hlabel⟩
  · obtain ⟨clause, hclause, hcondition⟩ := List.mem_filterMap.mp hc
    obtain ⟨hmem, halternative⟩ := List.mem_filter.mp hclause
    obtain ⟨i, hi⟩ := List.getElem?_of_mem hmem
    split at hcondition
    · rename_i hkind
      obtain ⟨j, hj, hlabel⟩ := exists_of_child? hcondition
      exact ⟨[i, j], .clause hi (by simpa using halternative) hkind hj hlabel⟩
    · cases hcondition

/-- A child that is a condition. -/
def ownCondition (c : Node) : List Occurrence :=
  if c.label = some .condition then [([], c)] else []

/-- A child that is a condition, or the condition of one that is an `elif` clause. -/
def partConditions (c : Node) : List Occurrence :=
  if c.label = some .alternative ∧ c.kind = .elifClause then under ownCondition 0 c.children
  else ownCondition c

/-- The conditions of a statement with their places. -/
def guardOccurrences (n : Node) : List Occurrence := under partConditions 0 n.children

theorem lists_ownCondition (c : Node) :
    Lists (fun p m => p = [] ∧ m = c ∧ c.label = some .condition) c.ownCondition := by
  by_cases hc : c.label = some .condition
  · rw [ownCondition, if_pos hc]
    exact ⟨fun p m => by simp [hc], List.pairwise_singleton _ _⟩
  · rw [ownCondition, if_neg hc]
    exact ⟨fun p m => by simp [hc], .nil⟩

theorem lists_partConditions (c : Node) : Lists (fun p m =>
    (p = [] ∧ m = c ∧ c.label = some .condition) ∨
    (c.label = some .alternative ∧ c.kind = .elifClause ∧
      ∃ j, p = [j] ∧ c.children[j]? = some m ∧ m.label = some .condition)) c.partConditions := by
  by_cases hc : c.label = some .alternative ∧ c.kind = .elifClause
  · rw [partConditions, if_pos hc]
    have hclause := Lists.under fun d (_ : d ∈ c.children) => lists_ownCondition d
    refine ⟨fun p m => ?_, hclause.ordered⟩
    rw [hclause.mem]
    constructor
    · intro h
      obtain ⟨j, q, d, rfl, hd, rfl, rfl, hlabel⟩ := h
      exact .inr ⟨hc.1, hc.2, j, rfl, hd, hlabel⟩
    · intro h
      rcases h with ⟨-, -, hlabel⟩ | ⟨-, -, j, rfl, hm, hlabel⟩
      · cases hc.1.symm.trans hlabel
      · exact ⟨j, [], m, rfl, hm, rfl, rfl, hlabel⟩
  · rw [partConditions, if_neg hc]
    refine ⟨fun p m => ?_, (lists_ownCondition c).ordered⟩
    rw [(lists_ownCondition c).mem]
    exact ⟨.inl, fun h => h.resolve_right fun ⟨hlabel, hkind, _⟩ => hc ⟨hlabel, hkind⟩⟩

theorem lists_guardOccurrences (n : Node) : Lists n.GuardAt n.guardOccurrences := by
  have hparts := Lists.under fun c (_ : c ∈ n.children) => lists_partConditions c
  refine ⟨fun p m => ?_, hparts.ordered⟩
  rw [guardOccurrences, hparts.mem]
  constructor
  · intro h
    obtain ⟨i, q, c, rfl, hc, ⟨rfl, rfl, hlabel⟩ | ⟨hlabel, hkind, j, rfl, hm, hm'⟩⟩ := h
    · exact .own hc hlabel
    · exact .clause hc hlabel hkind hm hm'
  · intro h
    cases h with
    | own hc hlabel => exact ⟨_, _, _, rfl, hc, .inl ⟨rfl, rfl, hlabel⟩⟩
    | clause he hlabel hkind hc hm => exact ⟨_, _, _, rfl, he, .inr ⟨hlabel, hkind, _, rfl, hc, hm⟩⟩

/-! ### Conditions as they are gathered -/

theorem under_append (find : Node → List Occurrence) (i : Nat) (as bs : List Node) :
    under find i (as ++ bs) = under find i as ++ under find (i + as.length) bs := by
  induction as generalizing i with
  | nil => rfl
  | cons a as ih =>
    rw [List.cons_append, under, ih, under, List.append_assoc, List.length_cons, Nat.add_assoc,
      Nat.add_comm 1]

theorem under_eq_nil (h : ∀ c ∈ cs, find c = []) : under find i cs = [] := by
  induction cs generalizing i with
  | nil => rfl
  | cons c cs ih =>
    obtain ⟨hc, hcs⟩ := List.forall_mem_cons.mp h
    rw [under, hc, ih hcs]
    rfl

theorem ownCondition_eq_nil {c : Node} (h : c.label ≠ some .condition) : c.ownCondition = [] :=
  if_neg h

theorem partConditions_eq_nil {c : Node} (h : c.label = none) : c.partConditions = [] := by
  rw [partConditions, if_neg (by simp [h]), ownCondition_eq_nil (by simp [h])]

/-- Of the children of an `elif` clause one is its condition. -/
theorem Laid.exists_clauseCondition {e : Node} (h : e.Laid B) (hkind : e.kind = .elifClause) :
    ∃ j c, e.child? .condition = some c ∧ under ownCondition 0 e.children = [([j], c)] := by
  obtain ⟨pre, c, post, hchildren, hpre, hc, hpost⟩ :=
    List.filterMap_eq_cons_iff.mp (h.seated.isElif hkind)
  have hpost := List.filterMap_eq_nil_iff.mp hpost
  refine ⟨pre.length, c, ?_, ?_⟩
  · rw [child?, hchildren, List.find?_append, List.find?_eq_none.mpr (by simp_all)]
    simp [hc]
  · rw [hchildren, under_append, under,
      under_eq_nil fun m hm => ownCondition_eq_nil (by simp [hpre m hm]),
      under_eq_nil fun m hm => ownCondition_eq_nil (by simp [hpost m hm]), ownCondition, if_pos hc]
    simp

/-- The condition of an `elif` clause, as it is asked for. -/
def elifCondition? (e : Node) : Option Node :=
  if e.kind = .elifClause then e.child? .condition else none

/-- Among the alternatives, each `elif` clause has one condition. -/
theorem Laid.partConditions_eq {e : Node} (h : e.Laid B) (hlabel : e.label = some .alternative) :
    (∀ o ∈ e.partConditions, ∃ j, o.1 = [j]) ∧
      e.partConditions.map Prod.snd = e.elifCondition?.toList := by
  by_cases hkind : e.kind = .elifClause
  · obtain ⟨j, c, hc, hunder⟩ := h.exists_clauseCondition hkind
    rw [partConditions, if_pos ⟨hlabel, hkind⟩, hunder, elifCondition?, if_pos hkind, hc]
    exact ⟨fun o ho => ⟨j, by rw [List.mem_singleton.mp ho]⟩, rfl⟩
  · rw [partConditions, if_neg fun hc => hkind hc.2, elifCondition?, if_neg hkind,
      ownCondition_eq_nil (by simp [hlabel])]
    exact ⟨nofun, rfl⟩

theorem conditions_alternatives {es : List Node} (hlaid : ∀ e ∈ es, e.Laid B)
    (hlabels : ∀ e ∈ es, e.label = none ∨ e.label = some .alternative) :
    (∀ o ∈ under partConditions i es, ∃ j k, o.1 = [j, k]) ∧
      (under partConditions i es).map Prod.snd =
        (es.filter fun e => e.label == some .alternative).filterMap elifCondition? := by
  induction es generalizing i with
  | nil => exact ⟨nofun, rfl⟩
  | cons e es ih =>
    obtain ⟨he, hlaid⟩ := List.forall_mem_cons.mp hlaid
    obtain ⟨hlabel, hlabels⟩ := List.forall_mem_cons.mp hlabels
    obtain ⟨hplaces, hnodes⟩ := ih (i := i + 1) hlaid hlabels
    rcases hlabel with hlabel | hlabel
    · rw [under, partConditions_eq_nil hlabel, List.filter_cons_of_neg (by simp [hlabel])]
      exact ⟨hplaces, hnodes⟩
    · obtain ⟨hplace, hnode⟩ := he.partConditions_eq hlabel
      have hsnd : Prod.snd ∘ (fun o : Occurrence => (i :: o.1, o.2)) = Prod.snd := rfl
      rw [under, List.filter_cons_of_pos (by simp [hlabel])]
      constructor
      · intro o ho
        rcases List.mem_append.mp ho with ho | ho
        · obtain ⟨o', ho', rfl⟩ := List.mem_map.mp ho
          obtain ⟨j, hj⟩ := hplace o' ho'
          exact ⟨i, j, by rw [hj]⟩
        · exact hplaces o ho
      · rw [List.map_append, List.map_map, hsnd, hnode, hnodes, List.filterMap_cons]
        cases e.elifCondition? <;> rfl

/-- The guards of a statement are gathered in their order, its own condition first. -/
theorem Laid.exists_guards {n : Node} (h : n.Laid B) (hn : n.kind = .ifStatement) :
    ∃ i c rest, n.guardOccurrences = ([i], c) :: rest ∧ (∀ o ∈ rest, ∃ j k, o.1 = [j, k]) ∧
      IfStatement.conditions? n = some (n.guardOccurrences.map Prod.snd) := by
  obtain ⟨count, hlabels⟩ := (h.seated.isIf hn).labels
  obtain ⟨pre, c, post, hchildren, hpre, hc, hpost⟩ := List.filterMap_eq_cons_iff.mp hlabels
  have halternatives : ∀ e ∈ post, e.label = none ∨ e.label = some .alternative := by
    intro e he
    cases hlabel : e.label with
    | none => exact .inl rfl
    | some l =>
      have hmem : l ∈ post.filterMap label := List.mem_filterMap.mpr ⟨e, he, hlabel⟩
      rw [hpost] at hmem
      rw [List.eq_of_mem_replicate hmem]
      exact .inr rfl
  have hlaid : ∀ e ∈ post, e.Laid B := fun e he => h.child (by simp [hchildren, he])
  have hguards : n.guardOccurrences =
      ([pre.length], c) :: under partConditions (pre.length + 1) post := by
    rw [guardOccurrences, hchildren, under_append, under,
      under_eq_nil fun m hm => partConditions_eq_nil (hpre m hm), partConditions,
      if_neg (by simp [hc]), ownCondition, if_pos hc]
    simp
  obtain ⟨hplaces, hnodes⟩ := conditions_alternatives (i := pre.length + 1) hlaid halternatives
  refine ⟨_, _, _, hguards, hplaces, ?_⟩
  have hfirst : n.child? .condition = some c := by
    rw [child?, hchildren, List.find?_append, List.find?_eq_none.mpr (by simp_all)]
    simp [hc]
  have hothers : n.childrenWith .alternative =
      post.filter fun e => e.label == some .alternative := by
    rw [childrenWith, hchildren, List.filter_append, List.filter_eq_nil_iff.mpr (by simp_all),
      List.filter_cons_of_neg (by simp [hc]), List.nil_append]
  rw [IfStatement.conditions?, hfirst, hothers, hguards, List.map_cons, hnodes]
  rfl

/-! ### The order of guards -/

theorem Row.inside {a b : Nat} {ns : List Node} (h : Row a b ns) {c : Node} (hc : c ∈ ns)
    (hkind : c.kind.isExtra = false) : a ≤ c.start ∧ c.stop ≤ b := by
  induction h with
  | nil => cases hc
  | extra hm _ _ ih =>
    rcases List.mem_cons.mp hc with rfl | hc
    · exact absurd (hkind.symm.trans hm) (by decide)
    · exact ih hc
  | node _ hp hle h ih =>
    rcases List.mem_cons.mp hc with rfl | hc
    · exact ⟨hp, h.le⟩
    · exact ⟨hp.trans (hle.trans (ih hc).1), (ih hc).2⟩

/-- Of two nodes in a row, the first ends before the second starts. -/
theorem Row.stop_le_start {a b j : Nat} {ns : List Node} (h : Row a b ns) {c d : Node}
    (hc : ns[i]? = some c) (hd : ns[j]? = some d) (hij : i < j) (hckind : c.kind.isExtra = false)
    (hdkind : d.kind.isExtra = false) : c.stop ≤ d.start := by
  induction h generalizing i j with
  | nil => cases hc
  | extra hm _ _ ih =>
    cases i with
    | zero =>
      cases hc
      exact absurd (hckind.symm.trans hm) (by decide)
    | succ i =>
      obtain ⟨j, rfl⟩ := Nat.exists_eq_succ_of_ne_zero (Nat.ne_zero_of_lt hij)
      exact ih hc hd (Nat.lt_of_succ_lt_succ hij)
  | node _ _ _ h ih =>
    obtain ⟨j, rfl⟩ := Nat.exists_eq_succ_of_ne_zero (Nat.ne_zero_of_lt hij)
    cases i with
    | zero =>
      cases hc
      exact (h.inside (List.mem_of_getElem? hd) hdkind).1
    | succ i => exact ih hc hd (Nat.lt_of_succ_lt_succ hij)

theorem Row.kind_of_label {a b : Nat} {ns : List Node} (h : Row a b ns) {c : Node} {l : Label}
    (hc : c ∈ ns) (hlabel : c.label = some l) : c.kind.isExtra = false := by
  induction h with
  | nil => cases hc
  | extra _ hm _ ih =>
    rcases List.mem_cons.mp hc with rfl | hc
    · cases hm.symm.trans hlabel
    · exact ih hc
  | node hn _ _ _ ih =>
    rcases List.mem_cons.mp hc with rfl | hc
    · exact hn
    · exact ih hc

/-- A labelled child lies inside its parent. -/
theorem Seated.child_inside {n c : Node} {l : Label} (h : n.Seated B) (hc : n.children[i]? = some c)
    (hlabel : c.label = some l) : n.start ≤ c.start ∧ c.stop ≤ n.stop := by
  obtain ⟨q, hq, hrow⟩ := h.row
  have hmem := List.mem_of_getElem? hc
  obtain ⟨hstart, hstop⟩ := hrow.inside hmem (hrow.kind_of_label hmem hlabel)
  exact ⟨hstart, hstop.trans hq⟩

/-- Labelled children lie one behind the other. -/
theorem Seated.children_ordered {n c d : Node} {l l' : Label} {j : Nat} (h : n.Seated B)
    (hc : n.children[i]? = some c) (hd : n.children[j]? = some d) (hij : i < j)
    (hclabel : c.label = some l) (hdlabel : d.label = some l') : c.stop ≤ d.start := by
  obtain ⟨q, hq, hrow⟩ := h.row
  exact hrow.stop_le_start hc hd hij (hrow.kind_of_label (List.mem_of_getElem? hc) hclabel)
    (hrow.kind_of_label (List.mem_of_getElem? hd) hdlabel)

/-- The guards of a statement lie one behind the other, in the order of their places. -/
theorem Laid.guards_ordered {n c d : Node} {r r' : List Nat} (h : n.Laid B) (hc : n.GuardAt r c)
    (hd : n.GuardAt r' d) (hlt : r < r') : c.stop ≤ d.start := by
  cases hc with
  | own hc hlabel =>
    cases hd with
    | own hd hlabel' =>
      have hij := (List.cons_lt_cons_iff.mp hlt).resolve_right (by simp)
      exact h.seated.children_ordered hc hd hij hlabel hlabel'
    | clause he helabel _ hd hlabel' =>
      rcases List.cons_lt_cons_iff.mp hlt with hij | ⟨rfl, -⟩
      · have hclause := (h.child (List.mem_of_getElem? he)).seated.child_inside hd hlabel'
        exact (h.seated.children_ordered hc he hij hlabel helabel).trans hclause.1
      · cases hc.symm.trans he
        cases hlabel.symm.trans helabel
  | clause he helabel _ hc hlabel =>
    have hlaid := h.child (List.mem_of_getElem? he)
    have hclause := hlaid.seated.child_inside hc hlabel
    cases hd with
    | own hd hlabel' =>
      have hij := (List.cons_lt_cons_iff.mp hlt).resolve_right (by simp)
      exact hclause.2.trans (h.seated.children_ordered he hd hij helabel hlabel')
    | clause he' helabel' _ hd hlabel' =>
      rcases List.cons_lt_cons_iff.mp hlt with hij | ⟨rfl, hrest⟩
      · have hclause' := (h.child (List.mem_of_getElem? he')).seated.child_inside hd hlabel'
        exact (hclause.2.trans (h.seated.children_ordered he he' hij helabel helabel')).trans
          hclause'.1
      · cases he.symm.trans he'
        have hij := (List.cons_lt_cons_iff.mp hrest).resolve_right (by simp)
        exact hlaid.seated.children_ordered hc hd hij hlabel hlabel'

/-! ### No guard of two statements -/

/-- Where an `elif` clause stands, no statement does. -/
theorem not_ifAt_clause {tree n n' e : Node} {q : List Nat} (hn' : tree.IfAt q n')
    (he : n'.children[i]? = some e) (hkind : e.kind = .elifClause) : ¬tree.IfAt (q ++ [i]) n := by
  intro hn
  have hat : tree.at? (q ++ [i]) = some e := by
    rw [at?_append, hn'.1]
    simp [at?, he]
  cases hat.symm.trans hn.1
  cases hkind.symm.trans hn.2

/-- No guard belongs to two statements. -/
theorem guardAt_unique {tree n n' c c' : Node} {q r r' : List Nat} (hn : tree.IfAt p n)
    (hn' : tree.IfAt q n') (hr : n.GuardAt r c) (hr' : n'.GuardAt r' c') (heq : p ++ r = q ++ r') :
    p = q ∧ r = r' := by
  cases hr with
  | own hc hlabel =>
    cases hr' with
    | own hc' hlabel' => exact List.append_inj' heq rfl
    | @clause i j e _ he _ hkind =>
      obtain ⟨rfl, -⟩ := List.append_inj' (heq.trans (List.append_cons q i [j])) rfl
      exact (not_ifAt_clause hn' he hkind hn).elim
  | @clause i j e _ he _ hkind =>
    cases hr' with
    | own hc' hlabel' =>
      obtain ⟨rfl, -⟩ := List.append_inj' (heq.symm.trans (List.append_cons p i [j])) rfl
      exact (not_ifAt_clause hn he hkind hn').elim
    | clause => exact List.append_inj' heq rfl

end Foregone.Node
