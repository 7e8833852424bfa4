import Foregone.Comparison
import Foregone.Interval

/-! # Sets of integers as lists of intervals

A set is written as a list of intervals. A list is canonical when its intervals
stand from left to right with a gap between any two neighbours; canonical lists
that hold the same positions are equal, so "empty" and "everything" are found by
comparing lists. `union` accepts any two lists and makes a canonical one out of
sorted ones; `intersect` and `complement` expect canonical lists. -/

namespace Foregone

abbrev IntervalList := List Interval

namespace IntervalList

def empty : IntervalList := []

def everything : IntervalList := [.universal]

/-- The integers `x` with `x c v`. -/
def ofComparison (c : Comparison) (v : Int) : IntervalList :=
  match c with
  | .eq => [.point v]
  | .ne => [.lessThan v, .greaterThan v]
  | .lt => [.lessThan v]
  | .le => [.atMost v]
  | .gt => [.greaterThan v]
  | .ge => [.atLeast v]

/-- A comparison was named that is none of the six. -/
structure UnknownComparison where
  symbol : String
  deriving DecidableEq, Repr

def UnknownComparison.message (e : UnknownComparison) : String :=
  "Op " ++ e.symbol ++ " not implemented"

/-- `ofComparison` for an operator given by its symbol. -/
def ofComparisonSymbol (symbol : String) (v : Int) :
    Except UnknownComparison IntervalList :=
  match Comparison.ofSymbol? symbol with
  | some c => .ok (ofComparison c v)
  | none => .error ⟨symbol⟩

/-- Walk both lists together; the interval that ends first is done with. -/
def intersect : IntervalList → IntervalList → IntervalList
  | [], _ => []
  | _ :: _, [] => []
  | x :: xs, y :: ys =>
    (x.overlap? y).toList ++
      if x.high < y.high then intersect xs (y :: ys)
      else if y.high < x.high then intersect (x :: xs) ys
      else intersect xs ys
termination_by a b => a.length + b.length

/-- Let `current` grow over the intervals that overlap or touch it. -/
def absorb (current : Interval) : IntervalList → IntervalList
  | [] => [current]
  | x :: xs =>
    if x.low ≤ current.high ∨ current.high.touches x.low then absorb (current.extend x) xs
    else current :: absorb x xs

/-- Merge both lists by low bound, then join what overlaps or touches. -/
def union (a b : IntervalList) : IntervalList :=
  match a.merge b (fun x y => decide (x.low ≤ y.low)) with
  | [] => []
  | x :: xs => absorb x xs

/-- The bound after which the next gap can start, if any position is left. -/
def gapAfter (i : Interval) : Except Interval.Fault (Option Bound) :=
  if i.high = .posInf then .ok none
  else match i.high.justAbove with
    | .ok b => .ok (some b)
    | .error e => .error (.noGap e)

/-- The gap between `start` and the beginning of `i`; none before `-∞`. -/
def gapBefore (start : Option Bound) (i : Interval) : Except Interval.Fault IntervalList :=
  if i.low = .negInf then .ok []
  else match start with
    | none => .error .pastEnd
    | some g => match i.low.justBelow with
      | .error e => .error (.noGap e)
      | .ok h => (Interval.ofBounds g h).map fun gap => [gap]

/-- The gaps of a list from `start` on. -/
def gapsFrom (start : Option Bound) : IntervalList → Except Interval.Fault IntervalList
  | [] => match start with
    | none => .ok []
    | some g => (Interval.ofBounds g .posInf).map fun gap => [gap]
  | i :: rest => do
    let before ← gapBefore start i
    let next ← gapAfter i
    let gaps ← gapsFrom next rest
    return before ++ gaps

/-- The positions left out: the gaps between the intervals, and at both ends. -/
def complement (a : IntervalList) : Except Interval.Fault IntervalList :=
  gapsFrom (some .negInf) a

/-- No interval holds nowhere, the whole line holds everywhere, all else varies. -/
def toBool? (a : IntervalList) : Option Bool :=
  if a = empty then some false
  else if a = everything then some true
  else none

def contains (a : IntervalList) (p : Bound) : Bool := a.any (·.contains p)

/-- Sorted, apart and not touching. -/
def isCanonical : IntervalList → Bool
  | x :: y :: rest =>
    decide (x.high < y.low) && !x.high.touches y.low && isCanonical (y :: rest)
  | _ => true

def text (a : IntervalList) : String :=
  if a = empty then "\x7b\x7d" else " | ".intercalate (a.map Interval.text)

end IntervalList
end Foregone
