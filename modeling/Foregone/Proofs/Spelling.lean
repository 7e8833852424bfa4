import Foregone.Host
import Foregone.Proofs.Conversion
import Foregone.Token

/-! # Conditions as they are written

The text of an expression, the expressions whose text needs no further parentheses, and
the tokens their text is made of. An operand is an atom: a literal, a name, or anything
in parentheses. Only comparisons stand in a row without parentheses. -/

namespace Foregone

/-- Words that begin a statement of their own in some places and are names in others. -/
def softWords : List String := ["_", "case", "match", "type", "print", "exec"]

def isWordStart (c : Char) : Bool := c.isAlpha || c == '_'

def isWordPart (c : Char) : Bool := c.isAlphanum || c == '_'

/-- A seven-bit identifier that is nothing but a name anywhere. -/
def isFreeName (x : String) : Bool :=
  (match x.toList with
    | c :: cs => isWordStart c && cs.all isWordPart
    | [] => false) &&
  !reservedWords.contains x && !softWords.contains x

theorem isFreeName_cases {x : String} (h : isFreeName x = true) :
    (∃ c cs, x.toList = c :: cs ∧ isWordStart c = true ∧ cs.all isWordPart = true) ∧
      x ∉ reservedWords ∧ x ∉ softWords := by
  simp only [isFreeName, Bool.and_eq_true, Bool.not_eq_true', List.contains_eq_mem,
    decide_eq_false_iff_not] at h
  obtain ⟨⟨hword, hreserved⟩, hsoft⟩ := h
  refine ⟨?_, hreserved, hsoft⟩
  split at hword
  · rename_i c cs hx
    simp only [Bool.and_eq_true] at hword
    exact ⟨c, cs, hx, hword⟩
  · cases hword

/-- A written condition may begin with this token. -/
def TokenKind.beginsCondition : TokenKind → Bool
  | .integer _ => true
  | .name x => isFreeName x || ["True", "False", "not"].contains x
  | .mark x => ["(", "+", "-"].contains x
  | _ => false

namespace UnaryOp

/-- The operator in front of its operand. -/
def text : UnaryOp → String
  | .not => "not "
  | op => op.symbol

def token : UnaryOp → TokenKind
  | .not => .name "not"
  | op => .mark op.symbol

end UnaryOp

namespace BinaryOp

def token : BinaryOp → TokenKind
  | .logical c => .name c.symbol
  | op => .mark op.symbol

end BinaryOp

namespace Expr

/-- The expression as it is written: numbers in base ten, one blank on either side of a
binary operator, and a chain of comparisons as one row. -/
def text : Expr → String
  | .num (some n) _ => toString n
  | .bool b => if b then "True" else "False"
  | .name x => x
  | .paren e => "(" ++ e.text ++ ")"
  | .unary op e => op.text ++ e.text
  | .binary op l r _ => l.text ++ " " ++ op.symbol ++ " " ++ r.text
  | .num none _ | .foreign _ => ""

theorem toString_natCast (n : Nat) : toString (n : Int) = String.ofList (Nat.toDigits 10 n) :=
  Nat.toString_eq_ofList_toDigits

theorem toList_text_num (n : Nat) (isInteger : Bool) :
    (num (some (n : Int)) isInteger).text.toList = Nat.toDigits 10 n := by
  rw [text, toString_natCast, String.toList_ofList]

/-- The tokens the text is made of. -/
def tokens : Expr → List TokenKind
  | .num (some n) _ => [.integer (toString n)]
  | .bool b => [.name (if b then "True" else "False")]
  | .name x => [.name x]
  | .paren e => .mark "(" :: e.tokens ++ [.mark ")"]
  | .unary op e => op.token :: e.tokens
  | .binary op l r _ => l.tokens ++ op.token :: r.tokens
  | .num none _ | .foreign _ => []

/-- Where an expression may stand as it is written. -/
inductive Form where
  /-- anywhere, also as an operand -/
  | atom
  /-- alone, in parentheses, or in front of one more comparison -/
  | row
  /-- alone or in parentheses -/
  | whole
  deriving DecidableEq, Repr

/-- The expressions that are written without further parentheses. -/
inductive Spelled : Form → Expr → Prop where
  | num {n : Nat} (h : (toString n).length ≤ Literal.maxDigits) :
    Spelled .atom (.num (some n) true)
  | bool (b : Bool) : Spelled .atom (.bool b)
  | name {x : String} (h : isFreeName x = true) : Spelled .atom (.name x)
  | paren {f : Form} {e : Expr} (h : Spelled f e) : Spelled .atom (.paren e)
  | unary {op : UnaryOp} {e : Expr} (hop : op.isSupported = true) (h : Spelled .atom e) :
    Spelled .whole (.unary op e)
  | binary {op : BinaryOp} {l r : Expr} (hop : op.isSupported = true)
    (hno : op.isComparison = false) (hl : Spelled .atom l) (hr : Spelled .atom r) :
    Spelled .whole (.binary op l r false)
  | compare {c : Comparison} {l r : Expr} (hl : Spelled .atom l) (hr : Spelled .atom r) :
    Spelled .row (.binary (.compare c) l r false)
  | link {c : Comparison} {l r : Expr} (hl : Spelled .row l) (hr : Spelled .atom r) :
    Spelled .row (.binary (.compare c) l r true)

/-- How many layers the expression has on top of its leaves. A chain of comparisons is
one layer, however long it is. -/
def layers : Expr → Nat
  | .num .. | .bool _ | .name _ | .foreign _ => 0
  | .paren e => e.layers + 1
  | .unary _ e => e.layers + 1
  | .binary _ l r chained => max (if chained then l.layers else l.layers + 1) (r.layers + 1)

variable {f : Form} {e : Expr}

theorem Spelled.exists_tokens (h : Spelled f e) :
    ∃ k ks, e.tokens = k :: ks ∧ k.beginsCondition = true := by
  induction h with
  | num => exact ⟨_, _, rfl, rfl⟩
  | bool b => cases b <;> exact ⟨_, _, rfl, by decide⟩
  | name h => exact ⟨_, _, rfl, by simp [TokenKind.beginsCondition, h]⟩
  | paren => exact ⟨_, _, rfl, by decide⟩
  | @unary op e hop _ _ =>
    cases op with
    | unsupported => cases hop
    | _ => exact ⟨_, _, rfl, by decide⟩
  | binary _ _ _ _ ihl _ | compare _ _ ihl _ | link _ _ ihl _ =>
    obtain ⟨k, ks, hks, hk⟩ := ihl
    exact ⟨k, _, by rw [tokens, hks]; rfl, hk⟩

theorem Spelled.carriesOnRun (h : Spelled .row e) (c : Comparison) :
    Expr.carriesOnRun (.compare c) e true = true := by
  cases h
  · rfl
  · rfl

theorem Spelled.conversionDepth_le (h : Spelled f e) :
    e.conversionDepth ≤ 2 * e.layers + 1 := by
  induction h with
  | num | bool | name => simp [conversionDepth, layers]
  | paren _ ih | unary _ _ ih =>
    simp only [conversionDepth, layers]
    omega
  | binary _ _ _ _ ihl ihr | compare _ _ ihl ihr =>
    simp only [conversionDepth, layers]
    split <;> simp <;> omega
  | link hl _ ihl ihr =>
    simp only [conversionDepth, layers, hl.carriesOnRun, if_true]
    omega

/-- The usual host converts every condition of few layers. -/
theorem Spelled.conversionDepth_le_usualRoom (h : Spelled f e) (hlayers : e.layers ≤ 200) :
    e.conversionDepth ≤ Host.usualRoom := by
  have hdepth := h.conversionDepth_le
  simp only [Host.usualRoom]
  omega

end Expr
end Foregone
