/-! # The six comparison operators

What each operator means on integers, and the two ways in which one operator
stands for another: with its operands swapped, and negated. -/

namespace Foregone

inductive Comparison where
  | eq
  | ne
  | lt
  | gt
  | le
  | ge
  deriving DecidableEq, Repr, Inhabited

namespace Comparison

def symbol : Comparison → String
  | .eq => "=="
  | .ne => "!="
  | .lt => "<"
  | .gt => ">"
  | .le => "<="
  | .ge => ">="

def ofSymbol? : String → Option Comparison
  | "==" => some .eq
  | "!=" => some .ne
  | "<" => some .lt
  | ">" => some .gt
  | "<=" => some .le
  | ">=" => some .ge
  | _ => none

theorem ofSymbol?_symbol (c : Comparison) : ofSymbol? c.symbol = some c := by
  cases c <;> rfl

/-- A symbol is looked up to the operator that is written with it, and to no other. -/
theorem ofSymbol?_eq_some_iff {s : String} {c : Comparison} :
    ofSymbol? s = some c ↔ s = c.symbol := by
  constructor
  · intro h
    unfold ofSymbol? at h
    split at h <;> cases h <;> rfl
  · rintro rfl
    exact ofSymbol?_symbol c

/-- The truth of `a c b` for integers. -/
def holds (c : Comparison) (a b : Int) : Bool :=
  match c with
  | .eq => a == b
  | .ne => a != b
  | .lt => a < b
  | .gt => b < a
  | .le => a ≤ b
  | .ge => b ≤ a

/-- `a c b` says the same as `b c.swapped a`. -/
def swapped : Comparison → Comparison
  | .eq => .eq
  | .ne => .ne
  | .lt => .gt
  | .gt => .lt
  | .le => .ge
  | .ge => .le

theorem holds_swapped (c : Comparison) (a b : Int) : c.swapped.holds b a = c.holds a b := by
  cases c <;> simp [swapped, holds, Bool.beq_comm, bne]

/-- `a c.negated b` holds where `a c b` does not. -/
def negated : Comparison → Comparison
  | .eq => .ne
  | .ne => .eq
  | .lt => .ge
  | .gt => .le
  | .le => .gt
  | .ge => .lt

theorem holds_negated (c : Comparison) (a b : Int) : c.negated.holds a b = !c.holds a b := by
  cases c with
  | eq | ne => simp [negated, holds, bne]
  | lt | gt => simp only [negated, holds, ← decide_not, Int.not_lt]
  | le | ge => simp only [negated, holds, ← decide_not, Int.not_le]

end Comparison
end Foregone
