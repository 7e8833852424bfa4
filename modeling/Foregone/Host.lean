import Foregone.Expr.Evaluate
import Foregone.Module
import Foregone.Tree.Expr

/-! # The machine a check runs on

Three things are settled by no source: how a text that does not follow the grammar is mended,
and where the stack ends, once when a condition is converted and once when it is evaluated. -/

namespace Foregone

structure Host where
  /-- The tree of a text that does not follow the grammar. -/
  mend : List UInt8 → Node
  /-- The stack is too small to convert the condition. -/
  cannotConvert : Node → Bool
  /-- The stack is too small to evaluate the condition. -/
  cannotEvaluate : Expr → Bool

namespace Host

/-- The tree of a source. -/
def parse (host : Host) (source : List UInt8) : Node :=
  (Node.ofSource? source).getD (host.mend source)

theorem parse_eq {host : Host} {source : List UInt8} {tree : Node}
    (h : Node.ofSource? source = some tree) : host.parse source = tree := by
  rw [parse, h, Option.getD_some]

/-- How many nested calls the usual host has room for. -/
def usualRoom : Nat := 960

/-- A host that mends nothing and has the usual room on its stack. -/
def usual : Host where
  mend source := .leaf (.other "ERROR") none 0 source.length ""
  cannotConvert condition := usualRoom < condition.toExpr.conversionDepth
  cannotEvaluate e := usualRoom < e.evaluationDepth

end Host

namespace Expr

/-- Why a condition has no value. -/
inductive Failure where
  /-- it nests too deeply to be evaluated -/
  | tooDeep
  /-- a set of integers could not be formed -/
  | fault (cause : Interval.Fault)
  deriving DecidableEq, Repr

/-- The value of an expression, if the stack is large enough. -/
def evaluateBounded (e : Expr) (host : Host := .usual) : Except Failure Value :=
  if host.cannotEvaluate e then .error .tooDeep
  else e.evaluate.mapError .fault

end Expr
end Foregone
