import Mathlib.Algebra.Order.Field.Power
import Foregone.Expr
import Foregone.Proofs.RationalPoints

/-! # What a condition does when it runs

The concrete meaning of conditions, against which the analysis is judged. Names hold
rational numbers, arithmetic is exact, quotients are rounded down and remainders take
the sign of the divisor, and truth values count as one and zero. The connectives yield
the operand that decides them, and a comparison chain stops at its first false link,
each operand being evaluated once. All that the analysis knows nothing about is left
to a `World`: it answers for every place of the expression on its own, with any value
or any exception. -/

namespace Foregone

/-- What an expression can yield: a truth value, a number or any other object. -/
inductive Datum (Obj : Type) where
  | bool (b : Bool)
  | num (q : ℚ)
  | obj (o : Obj)
  deriving DecidableEq

namespace Datum

variable {Obj : Type}

/-- The number a value counts as. -/
def number? : Datum Obj → Option ℚ
  | .bool b => some (if b then 1 else 0)
  | .num q => some q
  | .obj _ => none

end Datum

/-- The way from an expression down to one of its parts, nearest step first: `0` to
the only or left operand, `1` to the right one. -/
abbrev Place := List Nat

/-- What a run meets outside of its own rules. Objects may do anything in a comparison,
in arithmetic and when their truth is asked. -/
structure World (Obj Err : Type) where
  /-- the number a name holds -/
  number : String → ℚ
  /-- what comes of a part that is not understood -/
  foreign : Place → Except Err (Datum Obj)
  /-- the truth of an object -/
  truthOf : Place → Obj → Except Err Bool
  /-- a sign in front of an object -/
  signed : Place → UnaryOp → Obj → Except Err (Datum Obj)
  /-- an operator with an object on either side, or a power that is not rational -/
  operated : Place → BinaryOp → Datum Obj → Datum Obj → Except Err (Datum Obj)
  /-- the exception of a division by zero -/
  zeroDivision : Err

/-- A world where every part that is not understood raises. -/
def World.raising (number : String → ℚ) : World Empty Unit where
  number := number
  foreign _ := .error ()
  truthOf _ o := o.elim
  signed _ _ o := o.elim
  operated _ _ _ _ := .error ()
  zeroDivision := ()

/-- The world where `x` holds `q` and all else is as before. -/
def World.assign {Obj Err : Type} (w : World Obj Err) (x : String) (q : ℚ) : World Obj Err :=
  { w with number := fun y => if y = x then q else w.number y }

/-- How far a comparison has come: its value, and the operand that a further link of the
chain compares against. There is none where no further link is reached. -/
structure Trail (Obj : Type) where
  value : Datum Obj
  shared : Option (Datum Obj)

namespace World

variable {Obj Err : Type} (w : World Obj Err)

def truth (p : Place) : Datum Obj → Except Err Bool
  | .bool b => .ok b
  | .num q => .ok (decide (q ≠ 0))
  | .obj o => w.truthOf p o

/-- `left c right`: the left operand if it decides, and the right one otherwise. -/
def connect (p : Place) (c : Connective) (left right : Except Err (Datum Obj)) :
    Except Err (Datum Obj) := do
  let a ← left
  match c, ← w.truth p a with
  | .and, true => right
  | .and, false => return a
  | .or, true => return a
  | .or, false => right

def compare (p : Place) (c : Comparison) (a b : Datum Obj) : Except Err (Datum Obj) :=
  match a.number?, b.number? with
  | some x, some y => .ok (.bool (c.relates x y))
  | _, _ => w.operated p (.compare c) a b

theorem compare_of_numbers {p : Place} {c : Comparison} {a b : Datum Obj} {x y : ℚ}
    (ha : a.number? = some x) (hb : b.number? = some y) :
    w.compare p c a b = .ok (.bool (c.relates x y)) := by
  simp only [compare, ha, hb]

/-- Exact arithmetic. A power is rational where its exponent is an integer. -/
def calculate (p : Place) (op : Arithmetic) (x y : ℚ) : Except Err (Datum Obj) :=
  match op with
  | .add => .ok (.num (x + y))
  | .sub => .ok (.num (x - y))
  | .mul => .ok (.num (x * y))
  | .div => if y = 0 then .error w.zeroDivision else .ok (.num (x / y))
  | .floorDiv => if y = 0 then .error w.zeroDivision else .ok (.num ⌊x / y⌋)
  | .mod => if y = 0 then .error w.zeroDivision else .ok (.num (x - y * ⌊x / y⌋))
  | .pow =>
    if y.den ≠ 1 then w.operated p (.arith .pow) (.num x) (.num y)
    else if x = 0 ∧ y < 0 then .error w.zeroDivision
    else .ok (.num (x ^ y.num))

def arith (p : Place) (op : Arithmetic) (a b : Datum Obj) : Except Err (Datum Obj) :=
  match a.number?, b.number? with
  | some x, some y => w.calculate p op x y
  | _, _ => w.operated p (.arith op) a b

theorem arith_of_numbers {p : Place} {op : Arithmetic} {a b : Datum Obj} {x y : ℚ}
    (ha : a.number? = some x) (hb : b.number? = some y) :
    w.arith p op a b = w.calculate p op x y := by
  simp only [arith, ha, hb]

def unary (p : Place) (op : UnaryOp) (a : Datum Obj) : Except Err (Datum Obj) :=
  match op, a with
  | .not, a => do return .bool (!(← w.truth p a))
  | .unsupported _, _ => w.foreign p
  | op, .obj o => w.signed p op o
  | .plus, .bool b => .ok (.num (if b then 1 else 0))
  | .plus, .num q => .ok (.num q)
  | .minus, .bool b => .ok (.num (-if b then 1 else 0))
  | .minus, .num q => .ok (.num (-q))

/-- One comparison, after both operands. -/
def comparison (p : Place) (c : Comparison) (a b : Datum Obj) : Except Err (Trail Obj) := do
  return ⟨← w.compare p c a b, some b⟩

/-- The next link of a chain: reached if the links so far are true, and then compared
with the operand they share with it. -/
def link (p : Place) (c : Comparison) (before : Trail Obj) (right : Except Err (Datum Obj)) :
    Except Err (Trail Obj) :=
  match before.shared with
  | none => .ok before
  | some middle => do
    if ← w.truth p before.value then w.comparison p c middle (← right)
    else return ⟨before.value, none⟩

end World

namespace Expr

def isComparison : Expr → Bool
  | .binary (.compare _) _ _ _ => true
  | _ => false

/-- Every chained comparison continues a comparison. -/
def chainsLinked : Expr → Bool
  | .binary (.compare _) l r chained =>
    (!chained || l.isComparison) && l.chainsLinked && r.chainsLinked
  | .binary _ l r _ => l.chainsLinked && r.chainsLinked
  | .paren e => e.chainsLinked
  | .unary _ e => e.chainsLinked
  | _ => true

variable {Obj Err : Type}

/-- Run the expression at a place. -/
def follow (w : World Obj Err) : Place → Expr → Except Err (Trail Obj)
  | _, .num (some n) true => .ok ⟨.num n, none⟩
  | p, .num _ _ => do return ⟨← w.foreign p, none⟩
  | _, .bool b => .ok ⟨.bool b, none⟩
  | _, .name x => .ok ⟨.num (w.number x), none⟩
  | p, .foreign _ => do return ⟨← w.foreign p, none⟩
  | p, .paren e => do return ⟨(← e.follow w (0 :: p)).value, none⟩
  | p, .unary (.unsupported _) _ => do return ⟨← w.foreign p, none⟩
  | p, .unary op e => do
    let a ← e.follow w (0 :: p)
    return ⟨← w.unary p op a.value, none⟩
  | p, .binary (.logical c) l r _ => do
    let left := (l.follow w (0 :: p)).map Trail.value
    let right := (r.follow w (1 :: p)).map Trail.value
    return ⟨← w.connect p c left right, none⟩
  | p, .binary (.compare c) l r chained => do
    let before ← l.follow w (0 :: p)
    let right := (r.follow w (1 :: p)).map Trail.value
    if chained && l.isComparison then w.link p c before right
    else w.comparison p c before.value (← right)
  | p, .binary (.arith op) l r _ => do
    let a ← l.follow w (0 :: p)
    let b ← r.follow w (1 :: p)
    return ⟨← w.arith p op a.value b.value, none⟩
  -- such an operator need not even look at its operands
  | p, .binary (.unsupported _) _ _ _ => do return ⟨← w.foreign p, none⟩

/-- The outcome of the expression at a place. -/
def runAt (w : World Obj Err) (p : Place) (e : Expr) : Except Err (Datum Obj) :=
  (e.follow w p).map Trail.value

/-- The outcome of the whole expression. -/
def run (w : World Obj Err) (e : Expr) : Except Err (Datum Obj) := e.runAt w []

end Expr
end Foregone
