/-! # The integers that are folded

Arithmetic on literals is carried out exactly, and a result is kept only if it is
a signed word. -/

namespace Foregone.Word

/-- Width of a signed word. -/
def bits : Nat := 64

/-- How many words are negative, and as many are not. -/
def half : Nat := 1 <<< (bits - 1)

/-- `n` is a signed word. -/
def fits (n : Int) : Bool := -(half : Int) ≤ n && n ≤ half - 1

end Foregone.Word
