import Foregone.Proofs.Conversion
import Foregone.Proofs.Soundness

/-! # What a tree does when it runs

The concrete meaning of a tree, told without the expression it is turned into: a
comparison with several operators is a row, read from left to right, that goes on as long
as its comparisons are true; parentheses and comments add nothing; what is no part of the
supported language is left to the world. The expression of a tree means the same, although
it nests the comparisons of a row to the left. -/

namespace Foregone

variable {Obj Err : Type}

/-- The place `k` steps to the left. -/
def Place.leftward (p : Place) (k : Nat) : Place := List.replicate k 0 ++ p

/-- A part that is run once its place is known. -/
abbrev Part (Obj Err : Type) := Place → Except Err (Datum Obj)

/-- A comparison of a row, with the outcome of its right operand. -/
structure RowStep (Obj Err : Type) where
  place : Place
  op : Comparison
  right : Except Err (Datum Obj)

/-- The comparisons of a row. A comparison has the place that lies as many steps left of
`p` as comparisons follow it, and its right operand the place right of that. -/
def rowSteps (p : Place) : List (Comparison × Part Obj Err) → List (RowStep Obj Err)
  | [] => []
  | (c, part) :: rest =>
    let q := p.leftward rest.length
    ⟨q, c, part (1 :: q)⟩ :: rowSteps p rest

namespace World

/-- The rest of a row: as long as the comparison before is true, the next one compares the
operand that both share. -/
def goOn (w : World Obj Err) (value middle : Datum Obj) :
    List (RowStep Obj Err) → Except Err (Datum Obj)
  | [] => .ok value
  | s :: rest => do
    if ← w.truth s.place value then
      let b ← s.right
      w.goOn (← w.compare s.place s.op middle b) b rest
    else return value

/-- A row `first c second c' ...`: the conjunction of its adjacent pairs, of which none is
reached behind a false one. Every operand is run once. -/
def row (w : World Obj Err) (p : Place) (c : Comparison) (first second : Part Obj Err)
    (rest : List (Comparison × Part Obj Err)) : Except Err (Datum Obj) := do
  let q := p.leftward rest.length
  let a ← first (0 :: q)
  let b ← second (1 :: q)
  w.goOn (← w.compare q c a b) b (rowSteps p rest)

/-- An operator of a run between the outcomes of its operands. -/
def operate (w : World Obj Err) (p : Place) (op : BinaryOp)
    (left right : Except Err (Datum Obj)) : Except Err (Datum Obj) :=
  match op with
  | .logical c => w.connect p c left right
  | .arith a => do w.arith p a (← left) (← right)
  | .compare c => do w.compare p c (← left) (← right)
  | .unsupported _ => w.foreign p

end World

namespace Node

/-- Run the tree at a place. -/
def runAt (w : World Obj Err) (p : Place) (n : Node) : Except Err (Datum Obj) :=
  match n.kind with
  | .integer =>
    match Literal.integer? n.text with
    | some v => .ok (.num v)
    | none => w.foreign p
  | .trueLiteral => .ok (.bool true)
  | .falseLiteral => .ok (.bool false)
  | .identifier => .ok (.num (w.number n.text))
  | .parenthesized =>
    match h : n.operands with
    | [inner] =>
      have := sizeOf_lt_of_mem_operands (n := n) (c := inner) (by simp [h])
      inner.runAt w (0 :: p)
    | _ => w.foreign p
  | .notOperator =>
    match h : n.child? .argument with
    | some argument => do
      have := sizeOf_lt_of_child? h
      let a ← argument.runAt w (0 :: p)
      return .bool (!(← w.truth p a))
    | none => w.foreign p
  | .unaryOperator =>
    match h : n.child? .argument, n.sign? with
    | some argument, some op => do
      have := sizeOf_lt_of_child? h
      let a ← argument.runAt w (0 :: p)
      w.unary p op a
    | _, _ => w.foreign p
  | .booleanOperator | .binaryOperator =>
    match hl : n.child? .left, hr : n.child? .right, n.runOp? with
    | some left, some right, some op =>
      have := sizeOf_lt_of_child? hl
      have := sizeOf_lt_of_child? hr
      w.operate p op (left.runAt w (0 :: p)) (right.runAt w (1 :: p))
    | _, _, _ => w.foreign p
  | .comparison =>
    let parts := n.operands.attach.map fun c q =>
      have := sizeOf_lt_of_mem_operands c.2
      c.1.runAt w q
    match n.comparisonOps?, parts with
    | some (c :: cs), first :: second :: rest => w.row p c first second (cs.zip rest)
    | _, _ => w.foreign p
  -- floats are among what the world answers for
  | _ => w.foreign p
termination_by sizeOf n

/-- The outcome of the whole tree. -/
def run (w : World Obj Err) (n : Node) : Except Err (Datum Obj) := n.runAt w []

end Node

/-! ## Rows and chains -/

namespace World

variable {w : World Obj Err}

/-- One more comparison on a trail. -/
def stepOn (w : World Obj Err) (t : Trail Obj) (s : RowStep Obj Err) : Except Err (Trail Obj) :=
  w.link s.place s.op t s.right

/-- A chain that has stopped stays where it is. -/
theorem foldlM_stepOn_stopped (steps : List (RowStep Obj Err)) (v : Datum Obj) :
    steps.foldlM w.stepOn ⟨v, none⟩ = .ok ⟨v, none⟩ := by
  induction steps with
  | nil => rfl
  | cons s steps ih =>
    rw [List.foldlM_cons]
    exact ih

/-- A row comes to what its steps make of the trail of its first comparison. -/
theorem goOn_eq (steps : List (RowStep Obj Err)) (v a : Datum Obj) :
    w.goOn v a steps = (steps.foldlM w.stepOn ⟨v, some a⟩).map Trail.value := by
  induction steps generalizing v a with
  | nil => rfl
  | cons s steps ih =>
    rw [goOn, List.foldlM_cons, stepOn, link]
    cases w.truth s.place v with
    | error e => rfl
    | ok b =>
      cases b with
      | false =>
        change Except.ok v = (steps.foldlM w.stepOn ⟨v, none⟩).map Trail.value
        rw [foldlM_stepOn_stopped]
        rfl
      | true =>
        cases s.right with
        | error e => rfl
        | ok b =>
          simp only [comparison, bind, Except.bind, if_true]
          cases w.compare s.place s.op a b with
          | error e => rfl
          | ok v' => exact ih v' b

end World

namespace Expr

variable (w : World Obj Err) (p : Place)

/-- The expression as a part of a row. -/
def part (e : Expr) : Part Obj Err := fun q => e.runAt w q

/-- Links on top of a comparison go on with its trail, lowest first. -/
theorem follow_linked (links : List (Comparison × Expr)) {l : Expr}
    (hl : l.isComparison = true) :
    (l.linked links).follow w p = (do
      let t ← l.follow w (p.leftward links.length)
      (rowSteps p (links.map fun k => (k.1, k.2.part w))).foldlM w.stepOn t) := by
  induction links generalizing l with
  | nil => exact (bind_pure (l.follow w p)).symm
  | cons k links ih =>
    have hstep : l.linked (k :: links) = (binary (.compare k.1) l k.2 true).linked links := rfl
    rw [hstep, ih rfl, follow_link (by simp [hl])]
    simp only [List.map_cons, rowSteps, List.length_map, List.foldlM_cons, bind_assoc]
    rfl

/-- A chain that nests to the left runs like the row of its parts. -/
theorem runAt_linked (c : Comparison) (first second : Expr) (links : List (Comparison × Expr)) :
    ((binary (.compare c) first second false).linked links).runAt w p =
      w.row p c (first.part w) (second.part w) (links.map fun k => (k.1, k.2.part w)) := by
  rw [runAt, follow_linked w p links rfl, follow_compare rfl, World.row]
  simp only [World.goOn_eq, part, List.length_map, World.comparison]
  cases first.runAt w (0 :: p.leftward links.length) with
  | error e => rfl
  | ok a =>
    cases second.runAt w (1 :: p.leftward links.length) with
    | error e => rfl
    | ok b =>
      simp only [bind, Except.bind]
      cases w.compare (p.leftward links.length) c a b with
      | error e => rfl
      | ok v => rfl

/-- A comparison shares its right operand with the next link, or has stopped at a value
that was not true. -/
theorem shared_or_stopped {w : World Obj Err} {p : Place} {c : Comparison} {l m : Expr}
    {chained : Bool} {t : Trail Obj} (h : (binary (.compare c) l m chained).follow w p = .ok t) :
    (∃ d, m.runAt w (1 :: p) = .ok d ∧ t.shared = some d) ∨
      (t.shared = none ∧ ∃ q, w.truth q t.value = .ok false) := by
  induction l generalizing c m chained p t with
  | binary op l' m' chained' ihl _ =>
    cases hlink : chained && (binary op l' m' chained').isComparison with
    | false => exact .inl (shared_of_compare hlink h)
    | true =>
      rw [follow_link hlink] at h
      cases hb : (binary op l' m' chained').follow w (0 :: p) with
      | error e =>
        rw [hb] at h
        cases h
      | ok before =>
        rw [hb] at h
        rcases World.link_cases h with hs | ⟨hs, hv, hstop⟩
        · exact .inl hs
        · refine .inr ⟨hs, ?_⟩
          rw [hv]
          rcases hstop with hnone | hfalse
          · cases op with
            | compare c' =>
              rcases ihl hb with ⟨d, -, hd⟩ | ⟨-, hq⟩
              · cases hnone.symm.trans hd
              · exact hq
            | _ => simp [isComparison] at hlink
          · exact ⟨p, hfalse⟩
  | _ => exact .inl (shared_of_compare (by simp [isComparison]) h)

/-- A chained link is a conjunction: the comparison on its left, and then the right operand
of that comparison compared with its own. The truth of an object is asked of it at most
once more than in the chain, so it must not depend on the place. -/
theorem runAt_chained (hw : ∀ q q' o, w.truthOf q o = w.truthOf q' o) (c c' : Comparison)
    (l m r : Expr) (chained : Bool) :
    (binary (.compare c) (binary (.compare c') l m chained) r true).runAt w p =
      w.connect p .and ((binary (.compare c') l m chained).runAt w (0 :: p)) (do
        let a ← m.runAt w (1 :: 0 :: p)
        let b ← r.runAt w (1 :: p)
        w.compare p c a b) := by
  have htruth (q : Place) (d : Datum Obj) : w.truth q d = w.truth p d := by
    cases d with
    | bool b => rfl
    | num x => rfl
    | obj o => exact hw q p o
  have hleft : (binary (.compare c') l m chained).runAt w (0 :: p) =
      ((binary (.compare c') l m chained).follow w (0 :: p)).map Trail.value := rfl
  rw [hleft, runAt, follow_link rfl]
  cases hf : (binary (.compare c') l m chained).follow w (0 :: p) with
  | error e => rfl
  | ok t =>
    have hstop : t.shared = none → w.truth p t.value = .ok false := by
      intro hn
      rcases shared_or_stopped hf with ⟨d, -, hd⟩ | ⟨-, q, hq⟩
      · cases hn.symm.trans hd
      · rw [← htruth q, hq]
    refine (World.map_value_link hstop).trans ?_
    rcases shared_or_stopped hf with ⟨d, hm, hd⟩ | ⟨hn, -⟩
    · rw [hd, hm]
      rfl
    · simp only [World.connect, hstop hn, Except.map, bind, Except.bind]

/-! ## Other expressions -/

theorem runAt_foreign (kind : String) : (foreign kind).runAt w p = w.foreign p := by
  rw [runAt, follow]
  cases w.foreign p <;> rfl

theorem runAt_num_none : (num none false).runAt w p = w.foreign p := by
  change (do return ⟨← w.foreign p, none⟩ : Except Err (Trail Obj)).map Trail.value = w.foreign p
  cases w.foreign p <;> rfl

/-- An operator of a run acts on the outcomes of its operands. -/
theorem runAt_binary_of_run {op : BinaryOp} (l r : Expr)
    (h : (∃ c, op = .logical c) ∨ ∃ a, op = .arith a) :
    (binary op l r false).runAt w p =
      w.operate p op (l.runAt w (0 :: p)) (r.runAt w (1 :: p)) := by
  rcases h with ⟨c, rfl⟩ | ⟨a, rfl⟩
  · exact runAt_logical c l r false
  · exact runAt_arith a l r false

end Expr

/-! ## Trees and their expressions -/

namespace Node

/-- The expression of a comparison is a chain of its parts. -/
theorem toExpr_of_comparison {n a b : Node} {c : Comparison} {cs : List Comparison}
    {rest : List Node} (hk : n.kind = .comparison) (hops : n.comparisonOps? = some (c :: cs))
    (hparts : n.operands = a :: b :: rest) :
    n.toExpr = (Expr.binary (.compare c) a.toExpr b.toExpr false).linked
      (cs.zip (rest.map toExpr)) := by
  rw [toExpr_eq, hk, hops, hparts]
  rfl

theorem runAt_toExpr (w : World Obj Err) (p : Place) (n : Node) :
    n.toExpr.runAt w p = n.runAt w p := by
  have left_out (p : Place) (n : Node) (h : n.toExpr = n.foreign) :
      n.toExpr.runAt w p = w.foreign p := by
    rw [h]
    exact Expr.runAt_foreign w p _
  fun_induction runAt w p n with
  | case1 p n hk v hv =>
    rw [toExpr_eq, hk, hv]
    rfl
  | case2 p n hk hv =>
    rw [toExpr_eq, hk, hv]
    exact Expr.runAt_num_none w p
  | case3 p n hk | case4 p n hk | case5 p n hk =>
    rw [toExpr_eq, hk]
    rfl
  | case6 p n hk inner h _ ih =>
    rw [toExpr_eq, hk, h, ← ih]
    exact Expr.runAt_paren inner.toExpr
  | case8 p n hk argument h _ ih =>
    rw [toExpr_eq, hk, h, ← ih]
    exact Expr.runAt_unary argument.toExpr (by simp)
  | case10 p n hk argument op h ho _ ih =>
    rw [toExpr_eq, hk, h, ho, ← ih]
    refine Expr.runAt_unary argument.toExpr ?_
    rintro s rfl
    cases sign?_isSupported ho
  | case12 p n hk left right op hl hr ho _ _ ihl ihr =>
    rw [toExpr_of_operator (.inl hk) hl hr ho, ← ihl, ← ihr]
    exact Expr.runAt_binary_of_run w p _ _ (runOp?_cases ho)
  | case14 p n hk left right op hl hr ho _ _ ihl ihr =>
    rw [toExpr_of_operator (.inr hk) hl hr ho, ← ihl, ← ihr]
    exact Expr.runAt_binary_of_run w p _ _ (runOp?_cases ho)
  | case16 p n hk parts c cs first second rest hparts ho ih =>
    have hmap : n.operands.map (fun o => o.toExpr.part w) = first :: second :: rest := by
      rw [← hparts, ← List.attach_map_val]
      exact List.map_congr_left fun o _ => funext (ih o)
    obtain ⟨a, os, hos, rfl, hrest⟩ := List.map_eq_cons_iff.mp hmap
    obtain ⟨b, os, rfl, rfl, rfl⟩ := List.map_eq_cons_iff.mp hrest
    rw [toExpr_of_comparison hk ho hos, Expr.runAt_linked, List.zip_map_right, List.zip_map_right,
      List.map_map]
    rfl
  | case17 p n hk parts h ih =>
    refine left_out p n ?_
    rw [toExpr_eq, hk]
    dsimp only
    split
    · rename_i ops hops
      rw [chain_eq_none, Option.getD_none]
      intro c cs first second rest hcs hmap
      obtain ⟨a, os, hos, -, hrest⟩ := List.map_eq_cons_iff.mp hmap
      obtain ⟨b, os, rfl, -, -⟩ := List.map_eq_cons_iff.mp hrest
      have hparts : parts = (a :: b :: os).map fun o q => o.runAt w q := by
        rw [← hos]
        exact List.attach_map_val (f := fun (o : Node) (q : Place) => o.runAt w q)
      exact h c cs _ _ _ (hcs ▸ hops) hparts
    · rfl
  | case7 p n hk h | case9 p n hk h | case11 p n hk h | case13 p n hk h | case15 p n hk h =>
    refine left_out p n ?_
    rw [toExpr_eq, hk]
    simp_all
  | case18 p n =>
    by_cases hf : n.kind = .float
    · rw [toExpr_eq, hf]
      exact Expr.runAt_num_none w p
    · refine left_out p n ?_
      rw [toExpr_eq]
      split <;> simp_all

/-- Conversion keeps the meaning. In every world the expression of a tree has the outcome of
the tree, whose operators are those it is written with; it is regular; and a chained link in
it means the comparison on its left, and then the right operand of that comparison compared
with its own, wherever the truth of an object does not depend on the place where it is
asked. -/
theorem run_toExpr (n : Node) :
    (∀ (Obj Err : Type) (w : World Obj Err), n.toExpr.run w = n.run w) ∧
    (∀ m : Node, m.HasOperatorsOfSymbols) ∧
    n.toExpr.isRegular = true ∧
    ∀ (Obj Err : Type) (w : World Obj Err), (∀ q q' o, w.truthOf q o = w.truthOf q' o) →
      ∀ (p : Place) (c c' : Comparison) (l m r : Expr) (chained : Bool),
        (Expr.binary (.compare c) (.binary (.compare c') l m chained) r true).runAt w p =
          w.connect p .and ((Expr.binary (.compare c') l m chained).runAt w (0 :: p)) (do
            let a ← m.runAt w (1 :: 0 :: p)
            let b ← r.runAt w (1 :: p)
            w.compare p c a b) :=
  ⟨fun _ _ w => runAt_toExpr w [] n, hasOperatorsOfSymbols, isRegular_toExpr n,
    fun _ _ w hw p c c' l m r chained => Expr.runAt_chained w p hw c c' l m r chained⟩

/-- `1 < x < f()` with a comment in it, where `x` holds `1 / 2` and the call raises: the row
stops at its first comparison, and so does the chain. -/
theorem run_toExpr_stopped_row :
    let w : World Empty Unit := .raising fun _ => 1 / 2
    let sign : Node := .leaf (.mark "<") (some .operators) 0 0 "<"
    let n : Node := .branch .comparison none 0 0 [.leaf .integer none 0 0 "1", sign,
      .leaf .comment none 0 0 "", .leaf .identifier none 0 0 "x", sign, .branch .call none 0 0 []]
    (∀ q q' o, w.truthOf q o = w.truthOf q' o) ∧ n.run w = .ok (.bool false) := by
  intro w sign n
  refine ⟨fun _ _ o => o.elim, ?_⟩
  have hexpr : n.toExpr = .binary (.compare .lt) (.binary (.compare .lt) (.num (some 1) true)
      (.name "x") false) (.foreign "call") true := by decide +kernel
  obtain ⟨hrun, -, -, -⟩ := run_toExpr n
  rw [← hrun, hexpr]
  decide +kernel

end Node
end Foregone
