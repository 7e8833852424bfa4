import Foregone.IntervalList
import Foregone.Names
import Foregone.Operator

/-! # What a condition says about its variables

A condition over several variables is kept as one set of integers per variable.
A variable that only one side of a connective speaks about is tainted: its set no
longer decides the condition, and it is left out when the condition is judged. -/

namespace Foregone

abbrev Entries := List (String × IntervalList)

/-- `entries` are ordered by name, `tainted` is a set of names. -/
structure Constraints where
  entries : Entries
  tainted : List String
  deriving DecidableEq

namespace Constraints

/-- Constraints from entries in any order. -/
def of (entries : Entries) (tainted : List String) : Constraints :=
  { entries := entries.mergeSort (fun a b => decide (a.1 ≤ b.1))
    tainted := Names.ofList tainted }

/-- One variable and what it is compared with. -/
def single (name : String) (ranges : IntervalList) : Constraints := ⟨[(name, ranges)], []⟩

/-- The entries that still count. -/
def untainted (c : Constraints) : Entries :=
  c.entries.filter fun e => decide (e.1 ∉ c.tainted)

/-- The only variable, if exactly one is constrained and nothing is tainted. -/
def singleVariable? (c : Constraints) : Option String :=
  match c.tainted, c.entries with
  | [], [(name, _)] => some name
  | _, _ => none

/-- The truth of the condition, where its sets settle it: an empty set makes it
false, and otherwise a full one makes it true. Without any entry it is true, and
with tainted entries only it is open. -/
def collapse (c : Constraints) : Option Bool :=
  match c.untainted with
  | [] => if c.tainted = [] then some true else none
  | live =>
    let verdicts := live.map fun e => IntervalList.toBool? e.2
    if some false ∈ verdicts then some false
    else if some true ∈ verdicts then some true
    else none

def text (c : Constraints) : String :=
  let part := fun (e : String × IntervalList) =>
    (if e.1 ∈ c.tainted then "~" else "") ++ e.1 ++ " in " ++ IntervalList.text e.2
  "\x7b" ++ ", ".intercalate (c.entries.map part) ++ "\x7d"

/-- What two lists of entries say about one name. -/
inductive Shared where
  | left (ranges : IntervalList)
  | right (ranges : IntervalList)
  | both (left right : IntervalList)
  deriving DecidableEq

/-- Walk two ordered lists of entries together, name by name. -/
def align : Entries → Entries → List (String × Shared)
  | [], bs => bs.map fun e => (e.1, .right e.2)
  | as, [] => as.map fun e => (e.1, .left e.2)
  | (x, l) :: as, (y, r) :: bs =>
    if x < y then (x, .left l) :: align as ((y, r) :: bs)
    else if y < x then (y, .right r) :: align ((x, l) :: as) bs
    else (x, .both l r) :: align as bs
termination_by as bs => as.length + bs.length

/-- The names only one side speaks about. -/
def oneSided (shared : List (String × Shared)) : List String :=
  shared.filterMap fun e => match e.2 with
    | .both _ _ => none
    | _ => some e.1

end Constraints

namespace Connective

/-- How the sets of a variable on both sides are combined. -/
def combine : Connective → IntervalList → IntervalList → IntervalList
  | .and => IntervalList.intersect
  | .or => IntervalList.union

/-- The set that settles the whole condition. -/
def absorbing : Connective → IntervalList
  | .and => .empty
  | .or => .everything

/-- The set that says nothing more. -/
def neutral : Connective → IntervalList
  | .and => .everything
  | .or => .empty

/-- What a condition with an absorbing part comes to. -/
def verdict : Connective → Bool
  | .and => false
  | .or => true

end Connective

namespace Constraints

/-- The set of a variable after both sides were joined by `c`. -/
def Shared.combined (c : Connective) : Shared → IntervalList
  | .left r => r
  | .right r => r
  | .both l r => c.combine l r

/-- Combine name by name. An untainted set that absorbs settles the condition
(`none`); a neutral one is dropped. -/
def combineEntries (c : Connective) (tainted : List String) :
    List (String × Shared) → Option Entries
  | [] => some []
  | (x, s) :: rest =>
    let ranges := s.combined c
    if x ∈ tainted then (combineEntries c tainted rest).map ((x, ranges) :: ·)
    else if ranges = c.absorbing then none
    else if ranges = c.neutral then combineEntries c tainted rest
    else (combineEntries c tainted rest).map ((x, ranges) :: ·)

/-- Join two conditions; `none` if that settles them. -/
def join? (c : Connective) (a b : Constraints) : Option Constraints :=
  let shared := align a.entries b.entries
  let tainted := Names.union (oneSided shared) (Names.union a.tainted b.tainted)
  (combineEntries c tainted shared).map fun entries => ⟨entries, tainted⟩

/-- The opposite condition: tainted sets say nothing and stay. -/
def negate (c : Constraints) : Except Interval.Fault Constraints := do
  let entries ← c.entries.mapM fun e =>
    if e.1 ∈ c.tainted then pure e
    else (IntervalList.complement e.2).map fun ranges => (e.1, ranges)
  return ⟨entries, c.tainted⟩

end Constraints
end Foregone
