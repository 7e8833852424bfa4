/-! # Similar words

Two words are compared by the characters they share: the longest common stretch, and
what is shared on its left and on its right. -/

namespace Foregone.Text

/-- The number of characters two words start with in common. -/
def commonStart : List Char → List Char → Nat
  | a :: as, b :: bs => if a = b then commonStart as bs + 1 else 0
  | _, _ => 0

/-- A common stretch: where it starts in either word, and its length. -/
structure Stretch where
  left : Nat
  right : Nat
  length : Nat
  deriving DecidableEq, Repr

/-- The longest common stretch, the first of several. -/
def longestStretch (as bs : List Char) : Stretch :=
  let starts := (List.range as.length).flatMap fun i => (List.range bs.length).map fun j => (i, j)
  starts.foldl (fun best (i, j) =>
    let n := commonStart (as.drop i) (bs.drop j)
    if best.length < n then ⟨i, j, n⟩ else best) ⟨0, 0, 0⟩

/-- The number of characters two words share, found by at most `depth` divisions. -/
def sharedWithin : Nat → List Char → List Char → Nat
  | 0, _, _ => 0
  | depth + 1, as, bs =>
    let s := longestStretch as bs
    if s.length = 0 then 0
    else sharedWithin depth (as.take s.left) (bs.take s.right) + s.length
      + sharedWithin depth (as.drop (s.left + s.length)) (bs.drop (s.right + s.length))

/-- The number of characters two words share. -/
def shared (as bs : List Char) : Nat := sharedWithin (as.length + 1) as bs

/-- Words are similar when three fifths of their characters are shared. -/
def similar (a b : String) : Bool :=
  3 * (a.length + b.length) ≤ 10 * shared a.toList b.toList

end Foregone.Text
