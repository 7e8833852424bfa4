import Foregone.Proofs.Conversion
import Foregone.Proofs.LogicalLaws

/-! # Chains and their expansions

`a < b < c` says `a < b and b < c`, but it is not evaluated that way. A condition on a
variable is carried on to the next link only if it is about the operand that the two
links share; otherwise the chain gives up, and a chain that has given up stays unknown.
So a chain can tell less than its expansion, in this one way, and never anything else. -/

namespace Foregone.Expr

/-- `before and shared c operand`: one more link of a chain, written out. -/
def andCompare (before shared : Expr) (c : Comparison) (operand : Expr) : Expr :=
  .binary (.logical .and) before (.binary (.compare c) shared operand false) false

/-- The links of a chain after `before` written out; `shared` is the operand that the
first of them compares. -/
def expanded (before shared : Expr) : List (Comparison × Expr) → Expr
  | [] => before
  | (c, operand) :: links => expanded (before.andCompare shared c operand) operand links

/-- Every link goes on from what the links before it come to when they are written out. -/
def carriedOn (before shared : Expr) : List (Comparison × Expr) → Bool
  | [] => true
  | (c, operand) :: links =>
    match before.evaluate, shared.evaluate with
    | .ok left, .ok middle =>
      left.carriesOn middle && carriedOn (before.andCompare shared c operand) operand links
    | _, _ => false

theorem carriedOn_cons {before shared : Expr} {left middle : Value}
    (hb : before.evaluate = .ok left) (hs : shared.evaluate = .ok middle) (c : Comparison)
    (operand : Expr) (links : List (Comparison × Expr)) :
    before.carriedOn shared ((c, operand) :: links) = (left.carriesOn middle &&
      (before.andCompare shared c operand).carriedOn operand links) := by
  simp only [carriedOn, hb, hs]

theorem evaluate_andCompare {before shared operand : Expr} {left middle right : Value}
    (hb : before.evaluate = .ok left) (hs : shared.evaluate = .ok middle)
    (ho : operand.evaluate = .ok right) (c : Comparison) :
    (before.andCompare shared c operand).evaluate =
      .ok (left.and (middle.compare c right)) :=
  evaluate_unchained (.logical .and) hb (evaluate_unchained (.compare c) hs ho)

/-- One more link on a chain. -/
theorem ascend_link {l operand : Expr} {below right : Ascent} (hl : l.ascend = .ok below)
    (hbinary : l.isBinary = true) (ho : operand.ascend = .ok right) (c : Comparison) :
    (binary (.compare c) l operand true).ascend =
      .ok ⟨below.result.chain below.middle c right.result, right.result⟩ := by
  rw [ascend_binary hl ho, hbinary]
  rfl

/-- A chain that has given up stays unknown. -/
theorem evaluate_linked_of_unknown (links : List (Comparison × Expr)) {l : Expr} {middle : Value}
    (hl : l.ascend = .ok ⟨.unknown, middle⟩) (hbinary : l.isBinary = true) :
    (l.linked links).evaluate = .ok .unknown := by
  induction links generalizing l middle with
  | nil => exact evaluate_of_ascend hl
  | cons link links ih =>
    obtain ⟨right, ho, -⟩ := link.2.exists_ascend
    exact ih (ascend_link hl hbinary ho link.1) rfl

/-- From a chain and an expansion that have come to the same value, the links that follow
keep to one value as long as they are carried on, and then the chain is unknown. -/
theorem exists_expanded (links : List (Comparison × Expr)) {l before shared : Expr}
    {below : Ascent} (hl : l.ascend = .ok below) (hbinary : l.isBinary = true)
    (hb : before.evaluate = .ok below.result) (hs : shared.evaluate = .ok below.middle) :
    ∃ w, (before.expanded shared links).evaluate = .ok w ∧
      (l.linked links).evaluate = .ok (if before.carriedOn shared links then w else .unknown) := by
  induction links generalizing l before shared below with
  | nil => exact ⟨below.result, hb, evaluate_of_ascend hl⟩
  | cons link links ih =>
    obtain ⟨c, operand⟩ := link
    obtain ⟨right, ho, -⟩ := operand.exists_ascend
    have hright := evaluate_of_ascend ho
    have hand := evaluate_andCompare hb hs hright c
    have hlink := ascend_link hl hbinary ho c
    rw [carriedOn_cons hb hs]
    by_cases hgoes : below.result.carriesOn below.middle = true
    · rw [Value.chain_of_carriesOn hgoes] at hlink
      rw [hgoes, Bool.true_and]
      exact ih hlink rfl hand hright
    · rw [Bool.not_eq_true] at hgoes
      -- the chain gives up here, whatever the expansion comes to
      rw [Value.chain_of_not_carriesOn hgoes] at hlink
      obtain ⟨w, hw, -⟩ := (before.expanded shared ((c, operand) :: links)).exists_proper_evaluate
      refine ⟨w, hw, ?_⟩
      rw [hgoes]
      exact evaluate_linked_of_unknown links hlink rfl

/-- A chain of comparisons is unknown or has the value of its expansion, the conjunction of
its adjacent pairs: that value where every link is carried on, and unknown elsewhere. -/
theorem evaluate_linked_expanded (c : Comparison) (first second : Expr)
    (links : List (Comparison × Expr)) :
    let start := binary (.compare c) first second false
    ∃ v w, (start.linked links).evaluate = .ok v ∧
      (start.expanded second links).evaluate = .ok w ∧ (v = .unknown ∨ v = w) ∧
      v = if start.carriedOn second links then w else .unknown := by
  intro start
  obtain ⟨below, hstart, -⟩ := start.exists_ascend
  have hsecond : second.evaluate = .ok below.middle := evaluate_right_of_ascend hstart
  obtain ⟨w, hw, hv⟩ := exists_expanded links hstart rfl (evaluate_of_ascend hstart) hsecond
  refine ⟨_, w, hv, hw, ?_, rfl⟩
  by_cases hgoes : start.carriedOn second links = true
  · exact .inr (if_pos hgoes)
  · exact .inl (if_neg hgoes)

-- `x < 3 < x` can never be true, which its expansion tells and the chain does not; a chain
-- around the variable tells as much as its expansion
example :
    let x := name "x"
    let three := num (some 3) true
    ((binary (.compare .lt) x three false).linked [(.lt, x)]).evaluate = .ok .unknown ∧
    ((binary (.compare .lt) x three false).expanded three [(.lt, x)]).evaluate =
      .ok (.bool false) ∧
    ((binary (.compare .lt) three x false).linked [(.lt, three)]).evaluate =
      .ok (.bool false) := by
  decide +kernel

end Foregone.Expr
