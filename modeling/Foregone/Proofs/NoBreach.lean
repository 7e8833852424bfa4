import Foregone.Proofs.Asserting

/-! # Evaluation with every check in place

The operations on values and the walk along an expression, with the checks of
`Asserting` and two more: a comparison is looked up by its symbol, and a division or a
power fails where it is not defined. On well-formed values no check fails and the results
are those of the unchecked operations; all values of an evaluation are well-formed, so it
never fails either, whatever the operators are and wherever a comparison is marked as
chained. -/

namespace Foregone.Asserting

/-! ## Connectives and comparisons -/

def connect (c : Connective) (left right : Value) : Except Breach Value :=
  match left.toBool? with
  | some b => .ok (if b = c.verdict then left.settled b else right)
  | none =>
    match left, right with
    | .ranges a, .ranges b => do
      match ← join c a b with
      | some joined => return .ranges joined
      | none => return .bool c.verdict
    | _, _ => .ok .unknown

theorem connect_eq (c : Connective) {l r : Value} (hl : l.Ordered) (hr : r.Ordered) :
    connect c l r = .ok (Value.connect c l r) := by
  unfold connect Value.connect
  cases l.toBool? with
  | some b => rfl
  | none =>
    cases l with
    | ranges a =>
      cases r with
      | ranges b =>
        simp only [join_eq c hl hr, bind, Except.bind]
        cases Constraints.join? c a b with
        | none => rfl
        | some j => rfl
      | _ => rfl
    | _ => rfl

def not (v : Value) : Except Breach Value := v.not.mapError .interval

def compare (left : Value) (symbol : String) (right : Value) : Except Breach Value :=
  match left.toInt?, right.toInt? with
  | some a, some b => do return .bool ((← comparison symbol).holds a b)
  | none, some b =>
    match left with
    | .var x => do return .ranges (.single x (← ofComparison symbol b))
    | _ => .ok .unknown
  | some a, none =>
    match right with
    | .var x => do
      let swapped := (← comparison symbol).swapped
      return .ranges (.single x (← ofComparison swapped.symbol a))
    | _ => .ok .unknown
  | none, none => .ok .unknown

theorem compare_eq (l : Value) (c : Comparison) (r : Value) :
    compare l c.symbol r = .ok (l.compare c r) := by
  unfold compare Value.compare
  cases l.toInt? with
  | none =>
    cases r.toInt? with
    | none => rfl
    | some b =>
      cases l with
      | var x =>
        simp only [ofComparison_symbol]
        rfl
      | _ => rfl
  | some a =>
    cases r.toInt? with
    | none =>
      cases r with
      | var x =>
        simp only [comparison_symbol, bind, Except.bind, ofComparison_symbol]
        rfl
      | _ => rfl
    | some b =>
      simp only [comparison_symbol]
      rfl

def chain (left middle : Value) (symbol : String) (right : Value) : Except Breach Value :=
  match left with
  | .ranges r =>
    match r.singleVariable? with
    | some x =>
      if middle = .var x then do connect .and left (← compare (.var x) symbol right)
      else .ok .unknown
    | none => .ok .unknown
  | _ => do connect .and left (← compare middle symbol right)

theorem chain_eq {l : Value} (hl : l.Ordered) (m : Value) (c : Comparison) (r : Value) :
    chain l m c.symbol r = .ok (l.chain m c r) := by
  have extend (v : Value) : (do connect .and l (← compare v c.symbol r)) =
      .ok (l.and (v.compare c r)) := by
    rw [compare_eq]
    exact connect_eq .and hl (Value.proper_compare v c r).wellFormed.ordered
  cases l with
  | ranges a =>
    simp only [chain, Value.chain]
    cases a.singleVariable? with
    | none => rfl
    | some x =>
      dsimp only
      split
      · exact extend (.var x)
      · rfl
  | unknown => exact extend m
  | int n => exact extend m
  | bool b => exact extend m
  | var x => exact extend m

/-! ## Arithmetic -/

def quotient (a b : Int) : Except Breach Int :=
  if b = 0 then .error .zeroDivision else .ok (a.fdiv b)

def remainder (a b : Int) : Except Breach Int :=
  if b = 0 then .error .zeroDivision else .ok (a.fmod b)

/-- Zero has no negative power. -/
def raised (base exponent : Int) : Except Breach Int :=
  if base = 0 ∧ exponent < 0 then .error .zeroDivision
  else .ok (Value.powerOf base exponent.toNat)

def power (base exponent : Int) : Except Breach Value :=
  if exponent < 0 then .ok .unknown
  else if 1 < base.natAbs ∧ Word.bits ≤ base.natAbs.log2 * exponent.toNat then .ok .unknown
  else do return .checked (← raised base exponent)

theorem power_eq (base exponent : Int) : power base exponent = .ok (Value.power base exponent) := by
  rw [power, Value.power_eq_ite]
  split
  · rfl
  · rename_i hneg
    split
    · rfl
    · rw [raised, if_neg fun h => hneg h.2]
      rfl

def arith (left : Value) (symbol : String) (right : Value) : Except Breach Value :=
  match left.toInt?, right.toInt? with
  | some a, some b =>
    match Arithmetic.ofSymbol? symbol with
    | some .add => .ok (.checked (a + b))
    | some .sub => .ok (.checked (a - b))
    | some .mul => .ok (.checked (a * b))
    | some .div =>
      if b = 0 then .ok .unknown
      else do
        if (← remainder a b) ≠ 0 then return .unknown
        return .checked (← quotient a b)
    | some .floorDiv => if b = 0 then .ok .unknown else do return .checked (← quotient a b)
    | some .mod => if b = 0 then .ok .unknown else do return .checked (← remainder a b)
    | some .pow => power a b
    | none => .ok .unknown
  | _, _ => .ok .unknown

/-- Every division comes after a test of its divisor. -/
theorem arith_eq (l : Value) (symbol : String) (r : Value) :
    arith l symbol r = .ok (l.arithSymbol symbol r) := by
  unfold arith Value.arithSymbol Value.arith
  cases l.toInt? with
  | none => cases Arithmetic.ofSymbol? symbol <;> rfl
  | some a =>
    cases r.toInt? with
    | none => cases Arithmetic.ofSymbol? symbol <;> rfl
    | some b =>
      cases Arithmetic.ofSymbol? symbol with
      | none => rfl
      | some op =>
        cases op with
        | add => rfl
        | sub => rfl
        | mul => rfl
        | pow => exact power_eq a b
        | div =>
          by_cases hb : b = 0
          · simp [hb]
          · simp only [remainder, quotient, hb, if_false, false_or, bind, Except.bind]
            split
            · rfl
            · rfl
        | floorDiv =>
          by_cases hb : b = 0
          · simp [hb]
          · simp only [quotient, hb, if_false]
            rfl
        | mod =>
          by_cases hb : b = 0
          · simp [hb]
          · simp only [remainder, hb, if_false]
            rfl

def unary (op : UnaryOp) (v : Value) : Except Breach Value :=
  match op with
  | .not => not v
  | op => (Value.unary op v).mapError .interval

theorem unary_eq {op : UnaryOp} {v u : Value} (h : Value.unary op v = .ok u) :
    unary op v = .ok u := by
  cases op with
  | not =>
    have h : v.not = .ok u := h
    rw [unary, not, h]
    rfl
  | plus => exact congrArg (Except.mapError Breach.interval) h
  | minus => exact congrArg (Except.mapError Breach.interval) h
  | unsupported s => exact congrArg (Except.mapError Breach.interval) h

def binary (op : BinaryOp) (left right : Value) : Except Breach Value :=
  match op with
  | .logical c => connect c left right
  | .compare c => compare left c.symbol right
  | .arith a => arith left a.symbol right
  | .unsupported _ => .ok .unknown

theorem binary_eq (op : BinaryOp) {l r : Value} (hl : l.Ordered) (hr : r.Ordered) :
    binary op l r = .ok (Value.binary op l r) := by
  cases op with
  | logical c => exact connect_eq c hl hr
  | compare c => exact compare_eq l c r
  | arith a =>
    rw [binary, arith_eq, Value.arithSymbol, Arithmetic.ofSymbol?_symbol]
    rfl
  | unsupported s => rfl

/-! ## Evaluation -/

def apply (below : Ascent) (link : Link) : Except Breach Ascent := do
  let result ← match link.op, link.continues with
    | .compare c, true => chain below.result below.middle c.symbol link.right
    | op, _ => binary op below.result link.right
  return ⟨result, link.right⟩

theorem apply_eq {below : Ascent} {link : Link} (hb : below.result.Ordered)
    (hr : link.right.Ordered) : apply below link = .ok (link.apply below) := by
  obtain ⟨op, continues, right⟩ := link
  have plain := congrArg (Except.map fun v => (⟨v, right⟩ : Ascent)) (binary_eq op hb hr)
  cases op with
  | compare c =>
    cases continues with
    | false => exact plain
    | true =>
      exact congrArg (Except.map fun v => (⟨v, right⟩ : Ascent))
        (chain_eq hb below.middle c right)
  | logical c => exact plain
  | arith a => exact plain
  | unsupported s => exact plain

theorem wellFormed_apply {below : Ascent} {link : Link} (hb : below.result.WellFormed)
    (hr : link.right.WellFormed) : (link.apply below).result.WellFormed := by
  unfold Link.apply
  dsimp only
  split
  · exact hb.chain _ _ _
  · exact hb.binary hr _

/-- On the way up every value is well-formed, so no link fails. -/
theorem foldlM_apply {links : List Link} (hlinks : ∀ k ∈ links, k.right.WellFormed)
    {below : Ascent} (hb : below.result.WellFormed) :
    links.foldlM apply below = .ok (links.foldl Link.apply below) ∧
      (links.foldl Link.apply below).result.WellFormed := by
  induction links generalizing below with
  | nil => exact ⟨rfl, hb⟩
  | cons link links ih =>
    have hr := hlinks link List.mem_cons_self
    rw [List.foldlM_cons, apply_eq hb.ordered hr.ordered, List.foldl_cons]
    exact ih (fun k hk => hlinks k (List.mem_cons_of_mem _ hk)) (wellFormed_apply hb hr)

def applyAll (start : Value) (links : List Link) : Except Breach Value := do
  return (← links.foldlM apply ⟨start, start⟩).result

/-- The value of the expression once `links` are applied to it. -/
def evaluateUnder : Expr → List Link → Except Breach Value
  | .num v isInteger, links => applyAll (Expr.literalValue v isInteger) links
  | .bool b, links => applyAll (.bool b) links
  | .name x, links => applyAll (.var x) links
  | .foreign _, links => applyAll .unknown links
  | .paren e, links => do applyAll (← evaluateUnder e []) links
  | .unary op e, links => do applyAll (← unary op (← evaluateUnder e [])) links
  | .binary op l r chained, links => do
    let right ← evaluateUnder r []
    evaluateUnder l (⟨op, chained && l.isBinary, right⟩ :: links)

theorem applyAll_eq (start : Value) (hs : start.WellFormed) {links : List Link}
    (hlinks : ∀ k ∈ links, k.right.WellFormed) :
    applyAll start links = .ok (Link.applyAll start links) ∧
      (Link.applyAll start links).WellFormed := by
  have hb : Value.WellFormed (Ascent.result ⟨start, start⟩) := hs
  obtain ⟨heq, hw⟩ := foldlM_apply hlinks hb
  refine ⟨?_, hw⟩
  rw [applyAll, heq]
  rfl

/-- Evaluation with all its checks succeeds, and yields what it yields without them. -/
theorem exists_evaluateUnder (e : Expr) {links : List Link}
    (hlinks : ∀ k ∈ links, k.right.WellFormed) :
    ∃ v, evaluateUnder e links = .ok v ∧ e.evaluateUnder links = .ok v ∧ v.WellFormed := by
  have hnone : ∀ k ∈ ([] : List Link), k.right.WellFormed := by simp
  induction e generalizing links with
  | num v isInteger =>
    have hv : (Expr.literalValue v isInteger).WellFormed := by
      unfold Expr.literalValue
      split
      · exact (Value.proper_checked _).wellFormed
      · trivial
    obtain ⟨heq, hw⟩ := applyAll_eq _ hv hlinks
    exact ⟨_, heq, rfl, hw⟩
  | bool b =>
    obtain ⟨heq, hw⟩ := applyAll_eq (.bool b) trivial hlinks
    exact ⟨_, heq, rfl, hw⟩
  | name x =>
    obtain ⟨heq, hw⟩ := applyAll_eq (.var x) trivial hlinks
    exact ⟨_, heq, rfl, hw⟩
  | foreign kind =>
    obtain ⟨heq, hw⟩ := applyAll_eq .unknown trivial hlinks
    exact ⟨_, heq, rfl, hw⟩
  | paren e ih =>
    obtain ⟨v, hv, hv', hw⟩ := ih hnone
    obtain ⟨heq, hw⟩ := applyAll_eq v hw hlinks
    refine ⟨_, ?_, ?_, hw⟩
    · rw [evaluateUnder, hv]
      exact heq
    · rw [Expr.evaluateUnder, hv']
      rfl
  | unary op e ih =>
    obtain ⟨v, hv, hv', hw⟩ := ih hnone
    obtain ⟨u, hu, hw⟩ := hw.unary op
    obtain ⟨heq, hw⟩ := applyAll_eq u hw hlinks
    refine ⟨_, ?_, ?_, hw⟩
    · rw [evaluateUnder, hv]
      simp only [bind, Except.bind, unary_eq hu]
      exact heq
    · rw [Expr.evaluateUnder, hv']
      simp only [bind, Except.bind, hu]
      rfl
  | binary op l r chained ihl ihr =>
    obtain ⟨right, hr, hr', hw⟩ := ihr hnone
    have hlinks' : ∀ k ∈ (⟨op, chained && l.isBinary, right⟩ : Link) :: links,
        k.right.WellFormed := by
      intro k hk
      rcases List.mem_cons.mp hk with rfl | hk
      · exact hw
      · exact hlinks k hk
    obtain ⟨v, hv, hv', hw⟩ := ihl hlinks'
    refine ⟨v, ?_, ?_, hw⟩
    · rw [evaluateUnder, hr]
      exact hv
    · rw [Expr.evaluateUnder, hr']
      exact hv'

def evaluate (e : Expr) : Except Breach Value := evaluateUnder e []

def verdict (e : Expr) : Except Breach (Option Bool) := (evaluate e).map Value.toBool?

theorem exists_evaluate (e : Expr) :
    ∃ v, evaluate e = .ok v ∧ e.evaluate = .ok v ∧ v.WellFormed :=
  exists_evaluateUnder e (by simp)

/-! ## No check fails -/

/-- All checks succeed, with a well-formed result. -/
def Returns (o : Except Breach Value) (v : Value) : Prop := o = .ok v ∧ v.WellFormed

/-- No check ever fails. On well-formed values every operation returns a well-formed value,
whatever the operator, and it is the value of the unchecked operation. The connectives
return also where sets are not canonical. And evaluation and verdict return on every
expression. -/
theorem never_fails :
    (∀ l m r : Value, l.WellFormed → r.WellFormed →
      (∀ c, Returns (connect c l r) (Value.connect c l r)) ∧
      (∃ u, l.not = .ok u ∧ Returns (not l) u) ∧
      (∀ c : Comparison, Returns (compare l c.symbol r) (l.compare c r)) ∧
      (∀ c : Comparison, Returns (chain l m c.symbol r) (l.chain m c r)) ∧
      (∀ symbol, Returns (arith l symbol r) (l.arithSymbol symbol r)) ∧
      (∀ op, ∃ u, Value.unary op l = .ok u ∧ Returns (unary op l) u) ∧
      ∀ op, Returns (binary op l r) (Value.binary op l r)) ∧
    (∀ l r : Value, l.Ordered → r.Ordered →
      ∀ c, connect c l r = .ok (Value.connect c l r) ∧ (Value.connect c l r).Ordered) ∧
    ∀ e : Expr, ∃ v, (evaluate e = .ok v ∧ verdict e = .ok v.toBool?) ∧
      e.evaluate = .ok v ∧ e.verdict? = .ok v.toBool? := by
  refine ⟨fun l m r hl hr => ⟨fun c => ?_, ?_, fun c => ?_, fun c => ?_, fun symbol => ?_,
    fun op => ?_, fun op => ?_⟩, fun l r hl hr c => ⟨connect_eq c hl hr, hl.connect c hr⟩,
    fun e => ?_⟩
  · exact ⟨connect_eq c hl.ordered hr.ordered, hl.connect c hr⟩
  · obtain ⟨u, hu, hw⟩ := hl.not
    have hnot : unary .not l = .ok u := unary_eq hu
    exact ⟨u, hu, hnot, hw⟩
  · exact ⟨compare_eq l c r, (Value.proper_compare l c r).wellFormed⟩
  · exact ⟨chain_eq hl.ordered m c r, hl.chain m c r⟩
  · exact ⟨arith_eq l symbol r, (Value.proper_arithSymbol l symbol r).wellFormed⟩
  · obtain ⟨u, hu, hw⟩ := hl.unary op
    exact ⟨u, hu, unary_eq hu, hw⟩
  · exact ⟨binary_eq op hl.ordered hr.ordered, hl.binary hr op⟩
  · obtain ⟨v, hv, hv', -⟩ := exists_evaluate e
    refine ⟨v, ⟨hv, ?_⟩, hv', ?_⟩
    · rw [verdict, hv]
      rfl
    · rw [Expr.verdict?, hv']
      rfl

/-- A condition on two variables, one of them tainted; intervals from right to left; and a
divisor that is zero. -/
theorem never_fails_partly_tainted :
    let partly : Value := .ranges ⟨[("x", .ofComparison .lt 3), ("y", .ofComparison .ge 5)], ["y"]⟩
    let backwards : Value := .ranges ⟨[("x", [.atLeast 5, .lessThan 3])], []⟩
    let large : Value := .int (2 ^ 70)
    partly.WellFormed ∧ backwards.Ordered ∧
    (∃ u, partly.not = .ok u ∧ Returns (not partly) u) ∧
    Returns (connect .or partly partly) (Value.connect .or partly partly) ∧
    Returns (chain partly (.var "x") "<=" large) (partly.chain (.var "x") .le large) ∧
    Returns (arith large "//" (.bool false)) (large.arithSymbol "//" (.bool false)) ∧
    connect .and backwards partly = .ok (Value.connect .and backwards partly) := by
  intro partly backwards large
  have hpartly : partly.WellFormed :=
    ⟨⟨by decide +kernel, List.pairwise_singleton _ _⟩, by decide +kernel⟩
  have hbackwards : backwards.Ordered := ⟨List.pairwise_singleton _ _, List.Pairwise.nil⟩
  have hlarge : large.WellFormed := trivial
  obtain ⟨hconnect, hnot, -⟩ := never_fails.1 partly partly partly hpartly hpartly
  obtain ⟨-, -, -, hchain, -⟩ := never_fails.1 partly (.var "x") large hpartly hlarge
  obtain ⟨-, -, -, -, harith, -⟩ := never_fails.1 large large (.bool false) hlarge trivial
  exact ⟨hpartly, hbackwards, hnot, hconnect .or, hchain .le, harith "//",
    (never_fails.2.1 backwards partly hbackwards hpartly.ordered .and).1⟩

end Foregone.Asserting
