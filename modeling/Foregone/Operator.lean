import Foregone.Comparison

/-! # Operators of a condition

The operators the analysis understands, with the symbols they are written with.
Any other symbol is kept as it is: nothing is known about its result. -/

namespace Foregone

inductive Arithmetic where
  | add
  | sub
  | mul
  | div
  | floorDiv
  | mod
  | pow
  deriving DecidableEq, Repr, Inhabited

namespace Arithmetic

def symbol : Arithmetic → String
  | .add => "+"
  | .sub => "-"
  | .mul => "*"
  | .div => "/"
  | .floorDiv => "//"
  | .mod => "%"
  | .pow => "**"

def ofSymbol? : String → Option Arithmetic
  | "+" => some .add
  | "-" => some .sub
  | "*" => some .mul
  | "/" => some .div
  | "//" => some .floorDiv
  | "%" => some .mod
  | "**" => some .pow
  | _ => none

theorem ofSymbol?_symbol (a : Arithmetic) : ofSymbol? a.symbol = some a := by
  cases a <;> rfl

/-- A symbol is looked up to the operator that is written with it, and to no other. -/
theorem ofSymbol?_eq_some_iff {s : String} {a : Arithmetic} :
    ofSymbol? s = some a ↔ s = a.symbol := by
  constructor
  · intro h
    unfold ofSymbol? at h
    split at h <;> cases h <;> rfl
  · rintro rfl
    exact ofSymbol?_symbol a

end Arithmetic

/-- The two connectives. -/
inductive Connective where
  | and
  | or
  deriving DecidableEq, Repr, Inhabited

namespace Connective

def symbol : Connective → String
  | .and => "and"
  | .or => "or"

def ofSymbol? : String → Option Connective
  | "and" => some .and
  | "or" => some .or
  | _ => none

theorem ofSymbol?_symbol (c : Connective) : ofSymbol? c.symbol = some c := by
  cases c <;> rfl

/-- A symbol is looked up to the operator that is written with it, and to no other. -/
theorem ofSymbol?_eq_some_iff {s : String} {c : Connective} :
    ofSymbol? s = some c ↔ s = c.symbol := by
  constructor
  · intro h
    unfold ofSymbol? at h
    split at h <;> cases h <;> rfl
  · rintro rfl
    exact ofSymbol?_symbol c

end Connective

inductive BinaryOp where
  | logical (c : Connective)
  | compare (c : Comparison)
  | arith (a : Arithmetic)
  | unsupported (symbol : String)
  deriving DecidableEq, Repr, Inhabited

namespace BinaryOp

def symbol : BinaryOp → String
  | .logical c => c.symbol
  | .compare c => c.symbol
  | .arith a => a.symbol
  | .unsupported s => s

def ofSymbol (s : String) : BinaryOp :=
  match Connective.ofSymbol? s, Comparison.ofSymbol? s, Arithmetic.ofSymbol? s with
  | some c, _, _ => .logical c
  | _, some c, _ => .compare c
  | _, _, some a => .arith a
  | _, _, _ => .unsupported s

end BinaryOp

inductive UnaryOp where
  | not
  | plus
  | minus
  | unsupported (symbol : String)
  deriving DecidableEq, Repr, Inhabited

namespace UnaryOp

def symbol : UnaryOp → String
  | .not => "not"
  | .plus => "+"
  | .minus => "-"
  | .unsupported s => s

def ofSymbol : String → UnaryOp
  | "not" => .not
  | "+" => .plus
  | "-" => .minus
  | s => .unsupported s

end UnaryOp
end Foregone
