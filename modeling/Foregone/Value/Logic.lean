import Foregone.Value

/-! # Connectives, negation and comparisons of values

The connectives stop at the first operand that settles them and then yield that
operand. Two conditions on variables are joined set by set. Only negation can
fail, and only on sets that are not canonical. -/

namespace Foregone.Value

/-- A known operand that settles a connective is its result. -/
def settled (v : Value) (verdict : Bool) : Value :=
  match v with
  | .int n => .int n
  | .bool b => .bool b
  | _ => .bool verdict

/-- `left c right`. The left operand settles the connective when its truth is the
connective's verdict, and hands over to the right operand when it is the opposite. -/
def connect (c : Connective) (left right : Value) : Value :=
  match left.toBool? with
  | some b => if b = c.verdict then left.settled b else right
  | none =>
    match left, right with
    | .ranges a, .ranges b =>
      match Constraints.join? c a b with
      | some joined => .ranges joined
      | none => .bool c.verdict
    | _, _ => .unknown

def and (left right : Value) : Value := connect .and left right

def or (left right : Value) : Value := connect .or left right

def not (v : Value) : Except Interval.Fault Value :=
  match v.toBool? with
  | some b => .ok (.bool (!b))
  | none =>
    match v with
    | .ranges c => c.negate.map .ranges
    | _ => .ok .unknown

/-- `left c right`: decided for two integers, a condition for a variable and an
integer in either order, and unknown for all else. -/
def compare (left : Value) (c : Comparison) (right : Value) : Value :=
  match left.toInt?, right.toInt? with
  | some a, some b => .bool (c.holds a b)
  | none, some b =>
    match left with
    | .var x => .ranges (.single x (.ofComparison c b))
    | _ => .unknown
  | some a, none =>
    match right with
    | .var x => .ranges (.single x (.ofComparison c.swapped a))
    | _ => .unknown
  | none, none => .unknown

/-- The next link of a chain such as `a < b < c`, where `left` is what is known of
the links so far and `middle` is the shared operand. A condition is only carried
on when it is about `middle` alone. -/
def chain (left middle : Value) (c : Comparison) (right : Value) : Value :=
  match left with
  | .ranges r =>
    match r.singleVariable? with
    | some x => if middle = .var x then left.and (compare (.var x) c right) else .unknown
    | none => .unknown
  | _ => left.and (compare middle c right)

end Foregone.Value
