import Foregone.Bound

/-! # Intervals

A nonempty stretch of positions between two bounds. The rules for its ends are
part of the type; `Interval.ofBounds` is the checked way in and says which rule
a pair of bounds breaks. -/

namespace Foregone

/-- All positions from `low` to `high`, both included. -/
structure Interval where
  low : Bound
  high : Bound
  low_le_high : low ≤ high
  low_isLow : low.isLow = true
  high_isHigh : high.isHigh = true
  deriving DecidableEq

namespace Interval

/-- Why two bounds, or a list of intervals, do not give the asked result. -/
inductive Fault where
  /-- the low bound lies right of the high bound -/
  | empty (low high : Bound)
  /-- nothing starts at `+∞` -/
  | badLow (low : Bound)
  /-- nothing ends at `-∞` -/
  | badHigh (high : Bound)
  /-- an interval cannot start just below an integer -/
  | lowBelow (low high : Bound)
  /-- an interval cannot end just above an integer -/
  | highAbove (low high : Bound)
  /-- an interval stands right of one that reaches `+∞` -/
  | pastEnd
  /-- a gap was asked for where there is none -/
  | noGap (cause : Bound.NoGap)
  deriving DecidableEq, Repr

/-- The text of the stretch between two bounds: round where the end is left out. -/
def textOf (low high : Bound) : String :=
  let left := match low with
    | .negInf | .finite _ .above => "("
    | _ => "["
  let right := match high with
    | .posInf | .finite _ .below => ")"
    | _ => "]"
  left ++ low.plainText ++ ", " ++ high.plainText ++ right

def text (i : Interval) : String := textOf i.low i.high

def Fault.message : Fault → String
  | .empty low high => "empty interval " ++ textOf low high
  | .badLow low => "bad low bound " ++ low.text
  | .badHigh high => "bad high bound " ++ high.text
  | .lowBelow low high => "low bound cannot be upper-open: " ++ textOf low high
  | .highAbove low high => "high bound cannot be lower-open: " ++ textOf low high
  | .pastEnd => ""
  | .noGap cause => cause.message

/-- The interval between two bounds, or the first rule they break. Order comes
first, then the infinities, then the edges. -/
def ofBounds (low high : Bound) : Except Fault Interval :=
  if hle : low ≤ high then
    if low = .posInf then .error (.badLow low)
    else if high = .negInf then .error (.badHigh high)
    else if hlow : low.isLow = true then
      if hhigh : high.isHigh = true then .ok ⟨low, high, hle, hlow, hhigh⟩
      else .error (.highAbove low high)
    else .error (.lowBelow low high)
  else .error (.empty low high)

/-- The whole line. -/
def universal : Interval := ⟨.negInf, .posInf, trivial, rfl, rfl⟩

/-- `v` alone. -/
def point (v : Int) : Interval := ⟨.finite v .exact, .finite v .exact, Bound.le_refl _, rfl, rfl⟩

/-- `x < v` -/
def lessThan (v : Int) : Interval := ⟨.negInf, .finite v .below, trivial, rfl, rfl⟩

/-- `x ≤ v` -/
def atMost (v : Int) : Interval := ⟨.negInf, .finite v .exact, trivial, rfl, rfl⟩

/-- `v < x` -/
def greaterThan (v : Int) : Interval := ⟨.finite v .above, .posInf, trivial, rfl, rfl⟩

/-- `v ≤ x` -/
def atLeast (v : Int) : Interval := ⟨.finite v .exact, .posInf, trivial, rfl, rfl⟩

def contains (i : Interval) (p : Bound) : Bool := decide (i.low ≤ p ∧ p ≤ i.high)

/-- The common part of two intervals. -/
def overlap? (x y : Interval) : Option Interval :=
  if h : max x.low y.low ≤ min x.high y.high then
    some ⟨max x.low y.low, min x.high y.high, h,
      by rcases Bound.max_eq_or x.low y.low with e | e <;> rw [e]
         · exact x.low_isLow
         · exact y.low_isLow,
      by rcases Bound.min_eq_or x.high y.high with e | e <;> rw [e]
         · exact x.high_isHigh
         · exact y.high_isHigh⟩
  else none

/-- `x` stretched to the right until it covers the end of `y`. -/
def extend (x y : Interval) : Interval :=
  ⟨x.low, max x.high y.high,
    Bound.le_trans x.low_le_high (Bound.le_max_left _ _), x.low_isLow,
    by rcases Bound.max_eq_or x.high y.high with e | e <;> rw [e]
       · exact x.high_isHigh
       · exact y.high_isHigh⟩

end Interval
end Foregone
