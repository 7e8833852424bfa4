import Foregone.Host
import Foregone.Location

/-! # Guards

The conditions of the `if` statements of a source, with the conditions of their
`elif` clauses. -/

namespace Foregone

/-- The condition of an `if` or `elif`. -/
structure Guard where
  expr : Expr
  location : Location
  text : String
  deriving DecidableEq

/-- An `if` statement: its guards in the order of the source, and its place. -/
structure IfStatement where
  guards : List Guard
  location : Location
  deriving DecidableEq

namespace Node

mutual

/-- The `if` statements in a tree, each before those inside it. -/
def ifStatements : Node → List Node
  | .leaf .. => []
  | .branch k l s e cs =>
    if k = .ifStatement then .branch k l s e cs :: ifStatementsOf cs else ifStatementsOf cs

/-- The `if` statements in a list of trees. -/
def ifStatementsOf : List Node → List Node
  | [] => []
  | c :: cs => ifStatements c ++ ifStatementsOf cs

end

end Node

namespace Guard

/-- The guard of a condition; of one that nests too deeply only the kind is kept. -/
def ofNode (source : List UInt8) (condition : Node) (host : Host) : Guard :=
  { expr := if host.cannotConvert condition then condition.foreign else condition.toExpr
    location := .ofNode source condition
    text := condition.sourceText source }

end Guard

namespace IfStatement

/-- The condition of an `if` statement, then those of its `elif` clauses. -/
def conditions? (n : Node) : Option (List Node) :=
  (n.child? .condition).map fun first =>
    first :: (n.childrenWith .alternative).filterMap fun clause =>
      if clause.kind = .elifClause then clause.child? .condition else none

def ofNode? (source : List UInt8) (n : Node) (host : Host) : Option IfStatement :=
  (conditions? n).map fun conditions =>
    ⟨conditions.map (Guard.ofNode source · host), .ofNode source n⟩

/-- The `if` statements of a tree, by where they start. -/
def nodesOf (tree : Node) : List Node :=
  tree.ifStatements.mergeSort fun a b => decide (a.start ≤ b.start)

def ofTree (source : List UInt8) (tree : Node) (host : Host) : List IfStatement :=
  (nodesOf tree).filterMap (ofNode? source · host)

/-- The `if` statements of a source. -/
def ofSource (source : List UInt8) (host : Host := .usual) : List IfStatement :=
  ofTree source (host.parse source) host

end IfStatement
end Foregone
