/-! # Positions on the integer line

A bound is an infinity or an integer with an edge. The edges of one integer are
three neighbouring positions: just below it, the integer itself, just above it.
An interval that leaves out its upper end `v` stops just below `v`, and one that
leaves out its lower end starts just above it, so open and closed ends are
compared by one linear order. -/

namespace Foregone

/-- Where a bound sits at its integer. -/
inductive Edge where
  /-- just below the integer: the end of an interval that excludes it above -/
  | below
  /-- the integer itself -/
  | exact
  /-- just above the integer: the start of an interval that excludes it below -/
  | above
  deriving DecidableEq, Repr, Inhabited

/-- The three positions at an integer, from left to right. -/
def Edge.rank : Edge → Nat
  | .below => 0
  | .exact => 1
  | .above => 2

/-- A position on the integer line, extended with both infinities. -/
inductive Bound where
  | negInf
  | finite (value : Int) (edge : Edge)
  | posInf
  deriving DecidableEq, Repr, Inhabited

namespace Bound

/-- Left to right: `-∞`, then the positions of each integer, then `+∞`. -/
def Le : Bound → Bound → Prop
  | .negInf, _ => True
  | _, .posInf => True
  | .finite v e, .finite w f => v < w ∨ v = w ∧ e.rank ≤ f.rank
  | _, _ => False

instance : LE Bound := ⟨Le⟩
instance : LT Bound := ⟨fun a b => ¬ b ≤ a⟩

instance decLe : ∀ a b : Bound, Decidable (a ≤ b)
  | .negInf, b => isTrue (by cases b <;> exact trivial)
  | .finite _ _, .negInf => isFalse (fun h => h)
  | .finite v e, .finite w f =>
    inferInstanceAs (Decidable (v < w ∨ v = w ∧ e.rank ≤ f.rank))
  | .finite _ _, .posInf => isTrue trivial
  | .posInf, .negInf => isFalse (fun h => h)
  | .posInf, .finite _ _ => isFalse (fun h => h)
  | .posInf, .posInf => isTrue trivial

instance decLt (a b : Bound) : Decidable (a < b) := inferInstanceAs (Decidable (¬ b ≤ a))

instance : Min Bound := ⟨fun a b => if a ≤ b then a else b⟩
instance : Max Bound := ⟨fun a b => if a ≤ b then b else a⟩

theorem finite_le {v w : Int} {e f : Edge} :
    finite v e ≤ finite w f ↔ v < w ∨ v = w ∧ e.rank ≤ f.rank := Iff.rfl

theorem negInf_le (b : Bound) : negInf ≤ b := by cases b <;> exact trivial

theorem le_posInf (b : Bound) : b ≤ posInf := by cases b <;> exact trivial

theorem le_refl (a : Bound) : a ≤ a := by
  cases a with
  | negInf => exact trivial
  | finite v e => exact Or.inr ⟨rfl, Nat.le_refl _⟩
  | posInf => exact trivial

theorem le_trans {a b c : Bound} (hab : a ≤ b) (hbc : b ≤ c) : a ≤ c := by
  cases a with
  | negInf => exact negInf_le c
  | posInf => cases b with
    | posInf => exact hbc
    | negInf => exact hab.elim
    | finite _ _ => exact hab.elim
  | finite v e => cases b with
    | negInf => exact hab.elim
    | posInf => cases c with
      | posInf => exact trivial
      | negInf => exact hbc.elim
      | finite _ _ => exact hbc.elim
    | finite w f => cases c with
      | negInf => exact hbc.elim
      | posInf => exact trivial
      | finite x g =>
        rw [finite_le] at hab hbc ⊢
        omega

theorem le_total (a b : Bound) : a ≤ b ∨ b ≤ a := by
  cases a with
  | negInf => exact .inl (negInf_le b)
  | posInf => exact .inr (le_posInf b)
  | finite v e => cases b with
    | negInf => exact .inr trivial
    | posInf => exact .inl trivial
    | finite w f =>
      rw [finite_le, finite_le]
      omega

theorem le_of_lt {a b : Bound} (h : a < b) : a ≤ b := (le_total a b).resolve_right h

theorem le_max_left (a b : Bound) : a ≤ max a b := by
  show a ≤ if a ≤ b then b else a
  split
  · assumption
  · exact le_refl a

theorem max_eq_or (a b : Bound) : max a b = a ∨ max a b = b := by
  show (if a ≤ b then b else a) = a ∨ (if a ≤ b then b else a) = b
  split
  · exact .inr rfl
  · exact .inl rfl

theorem min_eq_or (a b : Bound) : min a b = a ∨ min a b = b := by
  show (if a ≤ b then a else b) = a ∨ (if a ≤ b then a else b) = b
  split
  · exact .inl rfl
  · exact .inr rfl

/-- An interval may start here: anywhere but at `+∞` or just below an integer. -/
def isLow : Bound → Bool
  | .negInf | .finite _ .exact | .finite _ .above => true
  | .finite _ .below | .posInf => false

/-- An interval may end here: anywhere but at `-∞` or just above an integer. -/
def isHigh : Bound → Bool
  | .posInf | .finite _ .exact | .finite _ .below => true
  | .finite _ .above | .negInf => false

/-- An interval that ends at `high` is continued without a gap by one that starts
at `low`: `v)` by `[v`, and `v]` by `(v`. Between `v)` and `(v` lies `v` itself. -/
def touches (high low : Bound) : Bool :=
  match high, low with
  | .finite v .below, .finite w .exact => v == w
  | .finite v .exact, .finite w .above => v == w
  | _, _ => false

/-- A bound that has no neighbour on the asked side. -/
inductive NoGap where
  | below (low : Bound)
  | above (high : Bound)
  deriving DecidableEq, Repr

/-- Where a gap ends that lies right before an interval starting at `low`. -/
def justBelow : Bound → Except NoGap Bound
  | .finite v .exact => .ok (.finite v .below)
  | .finite v .above => .ok (.finite v .exact)
  | low => .error (.below low)

/-- Where a gap starts that lies right after an interval ending at `high`. -/
def justAbove : Bound → Except NoGap Bound
  | .finite v .exact => .ok (.finite v .above)
  | .finite v .below => .ok (.finite v .exact)
  | high => .error (.above high)

/-- The bare number, without the edge. -/
def plainText : Bound → String
  | .negInf => "-inf"
  | .posInf => "+inf"
  | .finite v _ => toString v

/-- `5-` is just below five and `5+` just above it. -/
def text : Bound → String
  | .finite v .below => toString v ++ "-"
  | .finite v .above => toString v ++ "+"
  | b => b.plainText

def NoGap.message : NoGap → String
  | .below low => "Invalid low bound: " ++ low.text
  | .above high => "Invalid high bound: " ++ high.text

/-- Bounds from left to right; equal ones keep their places. -/
def sort (bounds : List Bound) : List Bound :=
  bounds.mergeSort (fun a b => decide (a ≤ b))

end Bound
end Foregone
