/-! # Sets of names

A set of names is a strictly increasing list, ordered by code point, so equal
sets are equal lists. -/

namespace Foregone.Names

/-- Put a name in its place; a name that is there already is not doubled. -/
def insert (x : String) : List String → List String
  | [] => [x]
  | y :: ys =>
    if x < y then x :: y :: ys
    else if x = y then y :: ys
    else y :: insert x ys

def ofList (names : List String) : List String := names.foldr insert []

def union (a b : List String) : List String := a.foldr insert b

theorem mem_insert {x y : String} {s : List String} : y ∈ insert x s ↔ y = x ∨ y ∈ s := by
  induction s with
  | nil => simp [insert]
  | cons z zs ih =>
    simp only [insert]
    split
    · simp
    · split
      · next h => subst h; simp
      · simp [ih, or_left_comm]

theorem mem_union {y : String} {a b : List String} : y ∈ union a b ↔ y ∈ a ∨ y ∈ b := by
  induction a with
  | nil => simp [union]
  | cons x xs ih =>
    have step : union (x :: xs) b = insert x (union xs b) := rfl
    rw [step, mem_insert, ih, List.mem_cons, or_assoc]

end Foregone.Names
