import Foregone.Value.Logic

/-! # Arithmetic on values

Exact integer arithmetic. A result that is undefined, not an integer or wider than
a word is unknown. -/

namespace Foregone.Value

/-- `base ^ exponent`. The powers of `-1`, `0` and `1` repeat with period two from
the second on, so their exponent is cut down first, however large it is. -/
def powerOf (base : Int) (exponent : Nat) : Int :=
  if base.natAbs ≤ 1 ∧ 2 ≤ exponent then Int.pow base (2 + exponent % 2)
  else Int.pow base exponent

/-- A power, refused early when it is certain to be too wide:
`|base| ^ e` is at least `2 ^ (log2 |base| * e)`. One that is not refused is left to
`compute`. -/
def powerBy {m : Type → Type} [Monad m] (compute : Int → Nat → m Int) (base exponent : Int) :
    m Value :=
  if exponent < 0 then pure .unknown
  else if 1 < base.natAbs ∧ Word.bits ≤ base.natAbs.log2 * exponent.toNat then pure .unknown
  else return checked (← compute base exponent.toNat)

def power (base exponent : Int) : Value :=
  Id.run (powerBy (fun base exponent => pure (powerOf base exponent)) base exponent)

theorem power_eq_ite (base exponent : Int) : power base exponent =
    if exponent < 0 then .unknown
    else if 1 < base.natAbs ∧ Word.bits ≤ base.natAbs.log2 * exponent.toNat then .unknown
    else checked (powerOf base exponent.toNat) := by
  unfold power powerBy
  split
  · rfl
  · split <;> rfl

/-- Quotients are rounded down and remainders take the sign of the divisor; a true
quotient is only folded when it is exact. -/
def arith (left : Value) (op : Arithmetic) (right : Value) : Value :=
  match left.toInt?, right.toInt? with
  | some a, some b =>
    match op with
    | .add => checked (a + b)
    | .sub => checked (a - b)
    | .mul => checked (a * b)
    | .div => if b = 0 ∨ a.fmod b ≠ 0 then .unknown else checked (a.fdiv b)
    | .floorDiv => if b = 0 then .unknown else checked (a.fdiv b)
    | .mod => if b = 0 then .unknown else checked (a.fmod b)
    | .pow => power a b
  | _, _ => .unknown

/-- Arithmetic with an operator given by its symbol. -/
def arithSymbol (left : Value) (symbol : String) (right : Value) : Value :=
  match Arithmetic.ofSymbol? symbol with
  | some op => left.arith op right
  | none => .unknown

def unary (op : UnaryOp) (v : Value) : Except Interval.Fault Value :=
  match op with
  | .not => v.not
  | .plus => .ok (match v.toInt? with
    | some n => .int n
    | none => .unknown)
  | .minus => .ok (match v.toInt? with
    | some n => checked (-n)
    | none => .unknown)
  | .unsupported _ => .ok .unknown

def binary (op : BinaryOp) (left right : Value) : Value :=
  match op with
  | .logical c => connect c left right
  | .compare c => left.compare c right
  | .arith a => left.arith a right
  | .unsupported _ => .unknown

end Foregone.Value
