import Foregone.Constraints
import Foregone.Word

/-! # What is known about the result of a condition

A value is a known integer or truth value, a variable, a condition on variables,
or nothing at all. -/

namespace Foregone

inductive Value where
  | unknown
  | int (n : Int)
  | bool (b : Bool)
  | var (name : String)
  | ranges (c : Constraints)
  deriving DecidableEq

instance : Inhabited Value := ⟨.unknown⟩

/-- Truth values are written with a capital letter. -/
def truthText (b : Bool) : String := if b then "True" else "False"

namespace Value

/-- An integer result, given up where it is not a signed word. -/
def checked (n : Int) : Value := if Word.fits n then .int n else .unknown

/-- The integer a value is; truth values count as one and zero. -/
def toInt? : Value → Option Int
  | .bool b => some (if b then 1 else 0)
  | .int n => some n
  | _ => none

/-- The truth of a value where it is the same on every run. -/
def toBool? : Value → Option Bool
  | .bool b => some b
  | .int n => some (n != 0)
  | .ranges c => c.collapse
  | _ => none

def text : Value → String
  | .unknown => "?"
  | .int n => toString n
  | .bool b => truthText b
  | .var name => name
  | .ranges c => c.text

end Value
end Foregone
