/-! # Concrete trees

The shape of a source text: every node has a kind and the stretch of bytes it
covers, a child may carry a label that says what it is to its parent, and a leaf
keeps its text. Keywords, operators and punctuation are leaves without a name of
their own; comments and joined lines stand wherever they occur. -/

namespace Foregone

/-- What a child is to its parent. -/
inductive Label where
  | condition
  | alternative
  | left
  | right
  | operator
  | operators
  | argument
  deriving DecidableEq, Repr

/-- The kinds of nodes that are told apart; all others are known by name only. -/
inductive Kind where
  /-- a keyword, an operator or punctuation -/
  | mark (text : String)
  /-- the end of a line or of a block, which takes no room -/
  | layout
  | comment
  /-- a backslash that joins two lines -/
  | lineJoin
  | identifier
  | integer
  | float
  | trueLiteral
  | falseLiteral
  | string
  | attribute
  | subscript
  | call
  | list
  | tuple
  | listSplat
  | parenthesized
  | notOperator
  | unaryOperator
  | booleanOperator
  | binaryOperator
  | comparison
  | expressionStatement
  | assignment
  | augmentedAssignment
  | yield
  | ifStatement
  | elifClause
  | other (name : String)
  deriving DecidableEq, Repr, Inhabited

namespace Kind

def name : Kind → String
  | .mark text => text
  | .layout => ""
  | .comment => "comment"
  | .lineJoin => "line_continuation"
  | .identifier => "identifier"
  | .integer => "integer"
  | .float => "float"
  | .trueLiteral => "true"
  | .falseLiteral => "false"
  | .string => "string"
  | .attribute => "attribute"
  | .subscript => "subscript"
  | .call => "call"
  | .list => "list"
  | .tuple => "tuple"
  | .listSplat => "list_splat"
  | .parenthesized => "parenthesized_expression"
  | .notOperator => "not_operator"
  | .unaryOperator => "unary_operator"
  | .booleanOperator => "boolean_operator"
  | .binaryOperator => "binary_operator"
  | .comparison => "comparison_operator"
  | .expressionStatement => "expression_statement"
  | .assignment => "assignment"
  | .augmentedAssignment => "augmented_assignment"
  | .yield => "yield"
  | .ifStatement => "if_statement"
  | .elifClause => "elif_clause"
  | .other name => name

/-- Marks and layout have no name of their own. -/
def isNamed : Kind → Bool
  | .mark _ | .layout => false
  | _ => true

/-- Comments and joined lines may stand between any two parts. -/
def isExtra : Kind → Bool
  | .comment | .lineJoin => true
  | _ => false

end Kind

/-- A node of a concrete tree; `start` and `stop` are byte offsets. -/
inductive Node where
  | leaf (kind : Kind) (label : Option Label) (start stop : Nat) (text : String)
  | branch (kind : Kind) (label : Option Label) (start stop : Nat) (children : List Node)
  deriving Inhabited

namespace Node

def kind : Node → Kind
  | .leaf k .. | .branch k .. => k

def label : Node → Option Label
  | .leaf _ l .. | .branch _ l .. => l

def start : Node → Nat
  | .leaf _ _ s .. | .branch _ _ s .. => s

def stop : Node → Nat
  | .leaf _ _ _ e _ | .branch _ _ _ e _ => e

/-- The text of a leaf. -/
def text : Node → String
  | .leaf _ _ _ _ t => t
  | .branch .. => ""

def children : Node → List Node
  | .leaf .. => []
  | .branch _ _ _ _ cs => cs

/-- The same node as a labelled child. -/
def labelled (l : Label) : Node → Node
  | .leaf k _ s e t => .leaf k (some l) s e t
  | .branch k _ s e cs => .branch k (some l) s e cs

/-- The first child with a label. -/
def child? (n : Node) (l : Label) : Option Node := n.children.find? fun c => c.label == some l

/-- All children with a label. -/
def childrenWith (n : Node) (l : Label) : List Node :=
  n.children.filter fun c => c.label == some l

/-- The children with a name of their own, comments left out. -/
def operands (n : Node) : List Node :=
  n.children.filter fun c => c.kind.isNamed && c.kind != .comment

/-- A branch over the given children, without the extras in front of the first. -/
def of (kind : Kind) (children : List Node) : Node :=
  let cs := children.dropWhile fun c => c.kind.isExtra
  let start := match cs.head? with
    | some c => c.start
    | none => 0
  let stop := match cs.getLast? with
    | some c => c.stop
    | none => 0
  .branch kind none start stop cs

theorem sizeOf_lt_of_mem_children {n c : Node} (h : c ∈ n.children) : sizeOf c < sizeOf n := by
  cases n with
  | leaf => simp [children] at h
  | branch k l s e cs =>
    have : sizeOf c < sizeOf cs := List.sizeOf_lt_of_mem h
    simp only [branch.sizeOf_spec]
    omega

theorem sizeOf_lt_of_child? {n c : Node} {l : Label} (h : n.child? l = some c) :
    sizeOf c < sizeOf n :=
  sizeOf_lt_of_mem_children (List.mem_of_find?_eq_some h)

theorem sizeOf_lt_of_mem_operands {n c : Node} (h : c ∈ n.operands) : sizeOf c < sizeOf n :=
  sizeOf_lt_of_mem_children (List.mem_filter.mp h).1

end Node
end Foregone
