import Foregone.Condition
import Foregone.Proofs.WrittenTree

/-! # Reading written conditions

The rules of the grammar read the tokens of a written condition as a tree that stands for
the condition. An operand is read at every level, in front of every token that is no part
of it. -/

namespace Foregone

namespace Token

/-- A token of the given kind with nothing in front of it. -/
structure Is (t : Token) (kind : TokenKind) : Prop where
  kind : t.kind = kind
  leading : t.leading = []

end Token

namespace Rule

variable {α β : Type} {x : Rule α} {f : α → Rule β} {a : α} {b : β} {t : Token}
  {ts us vs : List Token}

/-! ## Single rules -/

/-- The rule yields `a` and leaves the tokens `us`. -/
def Reads (r : Rule α) (ts : List Token) (a : α) (us : List Token) : Prop :=
  r.run ts = some (a, us)

theorem Reads.bind (hx : Reads x ts a us) (hf : Reads (f a) us b vs) : Reads (x >>= f) ts b vs := by
  rw [Reads] at hx hf ⊢
  rw [StateT.run_bind, hx]
  exact hf

theorem Reads.orElse {y : Rule α} (hx : Reads x ts a us) : Reads (x <|> y) ts a us := by
  have hrun : (x <|> y).run ts = (x.run ts <|> y.run ts) := rfl
  rw [Reads] at hx ⊢
  rw [hrun, hx]
  rfl

theorem reads_pure (a : α) (ts : List Token) : Reads (pure a) ts a ts := rfl

theorem reads_get (ts : List Token) : Reads get ts ts ts := rfl

theorem reads_peek : Reads peek (t :: ts) t (t :: ts) := rfl

theorem reads_peekSecond? {u : Token} : Reads peekSecond? (t :: u :: ts) (some u) (t :: u :: ts) :=
  rfl

theorem reads_atMark (text : String) :
    Reads (atMark text) (t :: ts) (t.isMark text) (t :: ts) := rfl

theorem reads_atName (text : String) :
    Reads (atName text) (t :: ts) (t.isName text) (t :: ts) := rfl

theorem reads_atKind (kind : TokenKind) :
    Reads (atKind kind) (t :: ts) (t.kind == kind) (t :: ts) := rfl

theorem reads_shift (h : t.leading = []) : Reads shift (t :: ts) [t.leaf] ts := by
  have hrun : Reads shift (t :: ts) (t.leading ++ [t.leaf]) ts := rfl
  rw [h] at hrun
  exact hrun

theorem reads_shiftLabelled (h : t.leading = []) (l : Label) :
    Reads (shiftLabelled l) (t :: ts) [t.leaf.labelled l] ts := by
  have hrun : Reads (shiftLabelled l) (t :: ts) (t.leading ++ [t.leaf.labelled l]) ts := rfl
  rw [h] at hrun
  exact hrun

theorem reads_shiftAs (kind : Kind) (text : String) :
    Reads (shiftAs kind text) (t :: ts) (.leaf kind none t.start t.stop text) ts := rfl

theorem reads_skipNewlines (h : t.kind ≠ .newline) : Reads skipNewlines (t :: ts) () (t :: ts) := by
  have hdrop : (t :: ts).dropWhile (fun t => t.kind == .newline) = t :: ts := by simp [h]
  show some ((), (t :: ts).dropWhile fun t => t.kind == .newline) = _
  rw [hdrop]

theorem reads_splitStars (h : t.kind ≠ .mark "**") : Reads splitStars (t :: ts) () (t :: ts) := by
  have hmark : t.isMark "**" = false := by simp [Token.isMark, h]
  show some ((), if t.isMark "**" then _ else t :: ts) = _
  rw [hmark]
  rfl

theorem reads_mark {text : String} (h : t.Is (.mark text)) :
    Reads (mark text) (t :: ts) [t.leaf] ts := by
  have hmark : t.isMark text = true := by simp [Token.isMark, h.kind]
  refine (reads_skipNewlines (by simp [h.kind])).bind ((reads_atMark text).bind ?_)
  rw [hmark]
  exact reads_shift h.leading

theorem reads_keyword {text : String} (h : t.Is (.name text)) :
    Reads (keyword text) (t :: ts) [t.leaf] ts := by
  have hname : t.isName text = true := by simp [Token.isName, h.kind]
  refine (reads_skipNewlines (by simp [h.kind])).bind ((reads_atName text).bind ?_)
  rw [hname]
  exact reads_shift h.leading

theorem reads_token {kind : TokenKind} (h : t.Is kind) :
    Reads (token kind) (t :: ts) [t.leaf] ts := by
  have hkind : (t.kind == kind) = true := by simp [h.kind]
  refine (reads_atKind kind).bind ?_
  rw [hkind]
  exact reads_shift h.leading

theorem leadingOf_cons (hkind : t.kind ≠ .newline) (h : t.leading = []) :
    leadingOf (t :: ts) = [] := by
  rw [leadingOf, if_neg hkind, h]

theorem reads_child {r : Rule Node} {n : Node} (hkind : t.kind ≠ .newline) (h : t.leading = [])
    (hr : Reads r (t :: ts) n us) : Reads (child r) (t :: ts) [n] us := by
  refine (reads_get _).bind (hr.bind ?_)
  rw [leadingOf_cons hkind h]
  exact reads_pure _ _

theorem reads_childAs {r : Rule Node} {n : Node} (hkind : t.kind ≠ .newline) (h : t.leading = [])
    (l : Label) (hr : Reads r (t :: ts) n us) :
    Reads (childAs l r) (t :: ts) [n.labelled l] us := by
  refine (reads_get _).bind (hr.bind ?_)
  rw [leadingOf_cons hkind h]
  exact reads_pure _ _

theorem reads_repeated_nil {begins : Token → Bool} (h : begins t = false)
    (part : Rule (List Node)) (k : Nat) :
    Reads (repeated begins part k) (t :: ts) [] (t :: ts) := by
  cases k with
  | zero => exact reads_pure _ _
  | succ k =>
    refine reads_peek.bind ?_
    rw [h]
    exact reads_pure _ _

theorem reads_repeated_cons {begins : Token → Bool} {part : Rule (List Node)} {k : Nat}
    {first more : List Node} (h : begins t = true) (hfirst : Reads part (t :: ts) first us)
    (hmore : Reads (repeated begins part k) us more vs) :
    Reads (repeated begins part (k + 1)) (t :: ts) (first ++ more) vs := by
  refine reads_peek.bind ?_
  rw [h]
  exact hfirst.bind (hmore.bind (reads_pure _ _))

/-! ## Where an expression ends -/

/-- The token is no part of an operand in front of it. -/
structure EndsOperand (t : Token) : Prop where
  point : t.isMark "." = false
  parenthesis : t.isMark "(" = false
  bracket : t.isMark "[" = false
  becomes : t.isMark ":=" = false

/-- The token is no part of an expression of this level in front of it. -/
inductive Ends (level : Nat) (t : Token) : Prop where
  | close (h : t.kind = .mark ")")
  | newline (h : t.kind = .newline)
  | comparison (hlevel : Level.comparison < level) {c : Comparison} (h : t.kind = .mark c.symbol)

theorem Ends.mono {level level' : Nat} (h : Ends level t) (hle : level ≤ level') :
    Ends level' t := by
  cases h with
  | close h => exact .close h
  | newline h => exact .newline h
  | comparison hlevel h => exact .comparison (Nat.lt_of_lt_of_le hlevel hle) h

theorem endsOperand_of_mark {x : String} (h : t.kind = .mark x) (hx : x ∉ [".", "(", "[", ":="]) :
    EndsOperand t := by
  simp only [List.mem_cons, List.not_mem_nil, or_false, not_or] at hx
  constructor <;> simp [Token.isMark, h, hx]

theorem endsOperand_of_comparison {c : Comparison} (h : t.kind = .mark c.symbol) : EndsOperand t :=
  endsOperand_of_mark h (by cases c <;> decide)

theorem Ends.operand {level : Nat} (h : Ends level t) : EndsOperand t := by
  cases h with
  | close h => exact endsOperand_of_mark h (by decide)
  | newline h => constructor <;> simp [Token.isMark, h]
  | comparison _ h => exact endsOperand_of_comparison h

theorem reads_attachments (h : EndsOperand t) (n : Nat) (expr : Inner) (k : Nat) (base : Node) :
    Reads (attachments n expr k base) (t :: ts) base (t :: ts) := by
  cases k with
  | zero => exact reads_pure _ _
  | succ k =>
    have hattach : Reads (attach n expr base) (t :: ts) none (t :: ts) := by
      refine reads_peek.bind ?_
      simp only [h.point, h.parenthesis, h.bracket, Bool.false_eq_true, if_false]
      exact reads_pure _ _
    exact hattach.bind (reads_pure _ _)

theorem reads_infixed {level : Nat} (h : Ends level t) (n : Nat) (expr : Inner) (left : Node) :
    Reads (infixed n expr level left) (t :: ts) none (t :: ts) := by
  refine reads_peek.bind ?_
  cases h with
  | close h =>
    simp only [startsComparison, h, isComparisonMark, Level.ofMark?]
    exact reads_pure _ _
  | newline h =>
    simp only [startsComparison, h, Bool.false_and]
    exact reads_pure _ _
  | @comparison hlevel c h =>
    have hbelow : decide (level ≤ Level.comparison) = false := decide_eq_false (by omega)
    have hmark : Level.ofMark? c.symbol = none := by cases c <;> rfl
    simp only [h, hbelow, Bool.and_false, hmark]
    exact reads_pure _ _

theorem reads_infixes {level : Nat} (h : Ends level t) (n : Nat) (expr : Inner) (k : Nat)
    (left : Node) : Reads (infixes n expr level k left) (t :: ts) left (t :: ts) := by
  cases k with
  | zero => exact reads_pure _ _
  | succ k => exact (reads_infixed h n expr left).bind (reads_pure _ _)

/-! ## Operands -/

/-- The tokens are of the given kinds and have nothing in front of them. -/
abbrev Spells (ts : List Token) (kinds : List TokenKind) : Prop := List.Forall₂ Token.Is ts kinds

theorem Spells.exists_append {ts : List Token} {a b : List TokenKind} (h : Spells ts (a ++ b)) :
    ∃ us vs, ts = us ++ vs ∧ Spells us a ∧ Spells vs b :=
  ⟨_, _, (List.take_append_drop a.length ts).symm, List.forall₂_take_append _ _ _ h,
    List.forall₂_drop_append _ _ _ h⟩

theorem Spells.exists_cons {ts : List Token} {k : TokenKind} {ks : List TokenKind}
    (h : Spells ts (k :: ks)) : ∃ u us, ts = u :: us ∧ u.Is k ∧ Spells us ks := by
  obtain ⟨u, us, hu, hus, rfl⟩ := List.forall₂_cons_right_iff.mp h
  exact ⟨u, us, rfl, hu, hus⟩

theorem Spells.exists_single {ts : List Token} {k : TokenKind} (h : Spells ts [k]) :
    ∃ u, ts = [u] ∧ u.Is k := by
  obtain ⟨u, us, rfl, hu, hus⟩ := h.exists_cons
  cases List.forall₂_nil_right_iff.mp hus
  exact ⟨u, rfl, hu⟩

/-- A token that a written condition may begin with. -/
structure Begins (t : Token) : Prop where
  kind : t.kind.beginsCondition = true
  leading : t.leading = []

theorem Begins.ne (h : Begins t) {k : TokenKind} (hk : k.beginsCondition = false) : t.kind ≠ k := by
  intro heq
  rw [← heq, h.kind] at hk
  cases hk

theorem Spells.exists_begins_of_tokens {ts : List Token} {ks : List TokenKind}
    (hks : ∃ k rest, ks = k :: rest ∧ k.beginsCondition = true) (h : Spells ts ks) :
    ∃ u us, ts = u :: us ∧ Begins u := by
  obtain ⟨k, rest, rfl, hbegins⟩ := hks
  obtain ⟨u, us, rfl, hu, -⟩ := h.exists_cons
  exact ⟨u, us, rfl, by rw [hu.kind]; exact hbegins, hu.leading⟩

theorem Spells.exists_begins {ts : List Token} {f : Expr.Form} {e : Expr} (he : e.Spelled f)
    (h : Spells ts e.tokens) : ∃ u us, ts = u :: us ∧ Begins u :=
  h.exists_begins_of_tokens he.exists_tokens

/-- The expression is read at the head of any other, before any token that is no part
of an operand. -/
def OperandReads (e : Expr) : Prop :=
  ∀ (n level : Nat) {ts : List Token} {t : Token} (rest : List Token), Spells ts e.tokens →
    e.tokens.length ≤ n → EndsOperand t →
    ∃ node : Node, node.Stands e ∧
      Reads (operand n (expression n) level) (ts ++ t :: rest) node (t :: rest)

/-- The expression is read alone, in parentheses or on a line. -/
def WholeReads (e : Expr) : Prop :=
  ∀ (n : Nat) {ts : List Token} {t : Token} (rest : List Token), Spells ts e.tokens →
    e.tokens.length ≤ n → Ends Level.lowest t →
    ∃ node : Node, node.Stands e ∧
      Reads (expression (n + 1) Level.lowest) (ts ++ t :: rest) node (t :: rest)

theorem reads_primary {n : Nat} {expr : Inner} {node : Node} (ht : EndsOperand t)
    (h : Reads (atom n expr) us node (t :: ts)) : Reads (primary n expr) us node (t :: ts) :=
  h.bind (reads_attachments ht n expr n node)

/-- A number or a parenthesis begins a primary expression. -/
theorem reads_operand_primary {n level : Nat} {expr : Inner} {node : Node} {u : Token}
    (hu : (∃ x, u.kind = .integer x) ∨ u.kind = .mark "(")
    (h : Reads (primary n expr) (u :: us) node ts) :
    Reads (operand n expr level) (u :: us) node ts := by
  rcases hu with ⟨x, hu⟩ | hu
  · refine (reads_splitStars (by simp [hu])).bind (reads_peek.bind ?_)
    simp only [hu]
    exact h
  · refine (reads_splitStars (by simp [hu])).bind (reads_peek.bind ?_)
    simp only [hu]
    exact h

/-- So does a word that is no operator. -/
theorem reads_operand_word {n level : Nat} {expr : Inner} {node : Node} {u : Token} {x : String}
    (hu : u.kind = .name x) (hx : x ∉ ["not", "lambda", "await"]) (ht : EndsOperand t)
    (h : Reads (primary n expr) (u :: t :: ts) node us) :
    Reads (operand n expr level) (u :: t :: ts) node us := by
  simp only [List.mem_cons, List.not_mem_nil, or_false, not_or] at hx
  obtain ⟨hnot, hlambda, hawait⟩ := hx
  have hbecomes : (some t).any (fun u => u.isMark ":=") = false := ht.becomes
  refine (reads_splitStars (by simp [hu])).bind (reads_peek.bind ?_)
  simp only [hu]
  refine reads_peekSecond?.bind ?_
  simp only [hbecomes, hnot, hlambda, hawait, Bool.false_eq_true, and_false, false_and, if_false]
  exact h

theorem operandReads_num {i : Nat} (h : (toString i).length ≤ Literal.maxDigits) :
    OperandReads (.num (some (i : Int)) true) := by
  intro n level ts t rest hts _ ht
  obtain ⟨u, rfl, hu⟩ := Spells.exists_single hts
  have hatom : Reads (atom n (expression n)) (u :: t :: rest)
      (.leaf .integer none u.start u.stop (toString i)) (t :: rest) := by
    refine reads_peek.bind ?_
    simp only [hu.kind]
    exact reads_shiftAs _ _
  exact ⟨_, Node.stands_integer h u.start u.stop,
    reads_operand_primary (.inl ⟨_, hu.kind⟩) (reads_primary ht hatom)⟩

theorem operandReads_bool (b : Bool) : OperandReads (.bool b) := by
  intro n level ts t rest hts _ ht
  obtain ⟨u, rfl, hu⟩ := Spells.exists_single hts
  have hatom : ∃ x, Reads (atom n (expression n)) (u :: t :: rest)
      (.leaf (if b then .trueLiteral else .falseLiteral) none u.start u.stop x) (t :: rest) := by
    cases b with
    | true =>
      refine ⟨"True", reads_peek.bind ?_⟩
      simp only [hu.kind]
      exact reads_shiftAs _ _
    | false =>
      refine ⟨"False", reads_peek.bind ?_⟩
      simp only [hu.kind]
      exact reads_shiftAs _ _
  obtain ⟨x, hatom⟩ := hatom
  exact ⟨_, Node.stands_bool b u.start u.stop x,
    reads_operand_word hu.kind (by cases b <;> decide) ht (reads_primary ht hatom)⟩

theorem operandReads_name {x : String} (h : isFreeName x = true) : OperandReads (.name x) := by
  intro n level ts t rest hts _ ht
  obtain ⟨u, rfl, hu⟩ := Spells.exists_single hts
  obtain ⟨-, hreserved, -⟩ := isFreeName_cases h
  have hplain : isOperandName x = true := by simp [isOperandName, isPlainName, hreserved]
  have hne {y : String} (hy : y ∈ reservedWords) : x ≠ y := fun heq => hreserved (heq ▸ hy)
  have hatom : Reads (atom n (expression n)) (u :: t :: rest)
      (.leaf .identifier none u.start u.stop x) (t :: rest) := by
    have htrue : x ≠ "True" := hne (by decide)
    have hfalse : x ≠ "False" := hne (by decide)
    have hnone : x ≠ "None" := hne (by decide)
    refine reads_peek.bind ?_
    simp only [hu.kind, hplain, if_true]
    exact reads_shiftAs _ _
  have hsub : ["not", "lambda", "await"] ⊆ reservedWords := by decide
  have hword : x ∉ ["not", "lambda", "await"] := fun hx => hreserved (hsub hx)
  exact ⟨_, Node.stands_name u.start u.stop x,
    reads_operand_word hu.kind hword ht (reads_primary ht hatom)⟩

/-- What is in parentheses is a whole expression if it begins like a written one. -/
theorem reads_elementOrExpression {n : Nat} {expr : Inner} {node : Node} {u : Token}
    (hu : Begins u) (h : Reads (expr Level.lowest) (u :: us) node ts) :
    Reads (elementOrExpression n expr) (u :: us) (node, true) ts := by
  have hwhole : Reads (do return (← expr Level.lowest, true)) (u :: us) (node, true) ts :=
    h.bind (reads_pure _ _)
  refine (reads_splitStars (hu.ne (by decide))).bind (reads_peek.bind ?_)
  split
  case h_1 hk => exact absurd hk (hu.ne (by decide))
  case h_2 => exact hwhole.orElse
  case h_3 hk => exact absurd hk (hu.ne (by decide))
  case h_4 => exact hwhole

theorem reads_parentheses {n : Nat} {expr : Inner} {node : Node} {l r u : Token}
    (hl : l.Is (.mark "(")) (hr : r.Is (.mark ")")) (hu : Begins u)
    (h : Reads (expr Level.lowest) (u :: us) node (r :: ts)) :
    Reads (parentheses n expr) (l :: u :: us) (.of .parenthesized [l.leaf, node, r.leaf]) ts := by
  have hclose : u.isMark ")" = false := by simpa [Token.isMark] using hu.ne (k := .mark ")") rfl
  have hcomma : r.isMark "," = false := by simp [Token.isMark, hr.kind]
  have hloop : startsLoop r = false := by simp [startsLoop, Token.isName, hr.kind]
  have hfirst : Reads (firstElement (elementOrExpression n expr)) (u :: us) ([node], true)
      (r :: ts) := by
    refine (reads_get _).bind ((reads_elementOrExpression hu h).bind ?_)
    rw [leadingOf_cons (hu.ne (by decide)) hu.leading]
    exact reads_pure _ _
  refine (reads_mark hl).bind ((reads_atMark ")").bind ?_)
  rw [hclose]
  refine hfirst.bind ((reads_atMark ",").bind ?_)
  rw [hcomma]
  refine reads_peek.bind ?_
  simp only [hloop]
  exact (reads_mark hr).bind (reads_pure _ _)

theorem operandReads_paren {f : Expr.Form} {e : Expr} (he : e.Spelled f) (h : WholeReads e) :
    OperandReads (.paren e) := by
  intro n level ts t rest hts hn ht
  obtain ⟨l, _, rfl, hl, htail⟩ := Spells.exists_cons hts
  obtain ⟨us, _, rfl, hus, hlast⟩ := Spells.exists_append htail
  obtain ⟨r, rfl, hr⟩ := hlast.exists_single
  have hlength : (Expr.paren e).tokens.length = e.tokens.length + 2 := by simp [Expr.tokens]
  obtain ⟨m, rfl⟩ : ∃ m, n = m + 1 := ⟨n - 1, by omega⟩
  obtain ⟨node, hnode, hreads⟩ := h m (t :: rest) hus (by omega) (.close hr.kind)
  obtain ⟨u, us, rfl, hu⟩ := hus.exists_begins he
  refine ⟨_, Node.stands_paren (.inl hl.kind) (.inl hr.kind) hnode, ?_⟩
  have hatom : Reads (atom (m + 1) (expression (m + 1))) (l :: (u :: us ++ r :: t :: rest))
      (.of .parenthesized [l.leaf, node, r.leaf]) (t :: rest) := by
    refine reads_peek.bind ?_
    simp only [hl.kind]
    exact reads_parentheses hl hr hu hreads
  rw [List.cons_append, List.append_assoc]
  exact reads_operand_primary (.inr hl.kind) (reads_primary ht hatom)

theorem reads_expression {n level : Nat} {node : Node} {u : Token} (hu : Begins u)
    (ht : Ends level t) (h : Reads (operand n (expression n) level) (u :: us) node (t :: ts)) :
    Reads (expression (n + 1) level) (u :: us) node (t :: ts) :=
  (reads_skipNewlines (hu.ne (by decide))).bind (h.bind (reads_infixes ht _ _ _ _))

/-- An operand and one operator behind it. -/
theorem reads_expression_infixed {n level : Nat} {left node : Node} {u : Token} (hu : Begins u)
    (ht : Ends level t)
    (hleft : Reads (operand (n + 1) (expression (n + 1)) level) (u :: us) left vs)
    (hright : Reads (infixed (n + 1) (expression (n + 1)) level left) vs (some node) (t :: ts)) :
    Reads (expression (n + 2) level) (u :: us) node (t :: ts) :=
  (reads_skipNewlines (hu.ne (by decide))).bind
    (hleft.bind (hright.bind (reads_infixes ht _ _ _ _)))

/-- An operand is an expression of every level that ends behind it. -/
theorem OperandReads.expression {f : Expr.Form} {e : Expr} (he : e.Spelled f) (h : OperandReads e)
    {n level : Nat} (hts : Spells ts e.tokens) (hn : e.tokens.length < n) (ht : Ends level t) :
    ∃ node : Node, node.Stands e ∧
      Reads (expression n level) (ts ++ t :: us) node (t :: us) := by
  obtain ⟨m, rfl⟩ : ∃ m, n = m + 1 := ⟨n - 1, by omega⟩
  obtain ⟨node, hnode, hreads⟩ := h m level us hts (by omega) ht.operand
  obtain ⟨u, ts, rfl, hu⟩ := hts.exists_begins he
  exact ⟨node, hnode, reads_expression hu ht hreads⟩

/-! ## Whole expressions -/

section

variable {f : Expr.Form} {e l r : Expr}

/-- The expression is read as an operand of a comparison. -/
def ComparandReads (e : Expr) : Prop :=
  ∀ (n level : Nat) {ts : List Token} {t : Token} (rest : List Token), Spells ts e.tokens →
    e.tokens.length ≤ n → Ends (Level.comparison + 1) t →
    ∃ node : Node, node.Stands e ∧
      Reads (operand n (expression n) level) (ts ++ t :: rest) node (t :: rest)

theorem OperandReads.comparand (h : OperandReads e) : ComparandReads e :=
  fun n level _ _ rest hts hn ht => h n level rest hts hn ht.operand

theorem wholeReads_not (he : e.Spelled .atom) (h : OperandReads e) :
    WholeReads (.unary .not e) := by
  intro n ts t rest hts hn ht
  obtain ⟨w, us, rfl, hword, hus⟩ := Spells.exists_cons hts
  have hw : w.Is (.name "not") := hword
  obtain ⟨node, hnode, hreads⟩ : ∃ node : Node, node.Stands e ∧
      Reads (expression n Level.not) (us ++ t :: rest) node (t :: rest) :=
    h.expression he hus (Nat.lt_of_succ_le hn) (ht.mono (by decide))
  obtain ⟨u, us, rfl, hu⟩ := hus.exists_begins he
  refine ⟨_, Node.stands_not (.inr hw.kind) hnode, ?_⟩
  have hnegation : Reads (negation (expression n)) (w :: u :: (us ++ t :: rest))
      (.of .notOperator [w.leaf, node.labelled .argument]) (t :: rest) :=
    (reads_keyword hw).bind
      ((reads_childAs (hu.ne (by decide)) hu.leading .argument hreads).bind (reads_pure _ _))
  refine reads_expression ⟨by rw [hw.kind]; decide, hw.leading⟩ ht ?_
  refine (reads_splitStars (by simp [hw.kind])).bind (reads_peek.bind ?_)
  simp only [hw.kind]
  refine reads_peekSecond?.bind ?_
  rw [if_neg (by simp [isOperandName, isPlainName, reservedWords]), if_pos (by decide)]
  exact hnegation

/-- A sign and an operand are read at every level. -/
theorem comparandReads_sign {op : UnaryOp} (hop : op = .plus ∨ op = .minus) (he : e.Spelled .atom)
    (h : OperandReads e) : ComparandReads (.unary op e) := by
  intro n level ts t rest hts hn ht
  obtain ⟨s, us, rfl, hsign, hus⟩ := Spells.exists_cons hts
  have hs : s.Is (.mark op.symbol) := by rcases hop with rfl | rfl <;> exact hsign
  obtain ⟨node, hnode, hreads⟩ : ∃ node : Node, node.Stands e ∧
      Reads (expression n Level.sign) (us ++ t :: rest) node (t :: rest) :=
    h.expression he hus (Nat.lt_of_succ_le hn) (ht.mono (by decide))
  obtain ⟨u, us, rfl, hu⟩ := hus.exists_begins he
  refine ⟨_, Node.stands_sign (.inl hs.kind) hop hnode, ?_⟩
  have hsigned : Reads (signed (expression n)) (s :: u :: (us ++ t :: rest))
      (.of .unaryOperator [s.leaf.labelled .operator, node.labelled .argument]) (t :: rest) :=
    (reads_shiftLabelled hs.leading .operator).bind
      ((reads_childAs (hu.ne (by decide)) hu.leading .argument hreads).bind (reads_pure _ _))
  have hne : s.kind ≠ .mark "**" := by rw [hs.kind]; rcases hop with rfl | rfl <;> decide
  refine (reads_splitStars hne).bind (reads_peek.bind ?_)
  rcases hop with rfl | rfl
  · simp only [hs.kind, UnaryOp.symbol]
    exact hsigned
  · simp only [hs.kind, UnaryOp.symbol]
    exact hsigned

theorem wholeReads_of_comparand (he : e.Spelled f) (h : ComparandReads e) : WholeReads e := by
  intro n ts t rest hts hn ht
  obtain ⟨node, hnode, hreads⟩ := h n Level.lowest rest hts hn (ht.mono (Nat.zero_le _))
  obtain ⟨u, us, rfl, hu⟩ := hts.exists_begins he
  exact ⟨node, hnode, reads_expression hu ht hreads⟩

/-- The operator is taken as one of the given kind, with a right operand of the given level. -/
def TakesRight (op : BinaryOp) (kind : Kind) (right : Nat) : Prop :=
  ∀ (o : Token) (n : Nat) (expr : Inner) (left node : Node) (us vs : List Token),
    o.kind = op.token → Reads (binary kind left (expr right)) (o :: us) node vs →
    Reads (infixed n expr Level.lowest left) (o :: us) (some node) vs

theorem wholeReads_infix {op : BinaryOp} {kind : Kind} {right : Nat}
    (hop : TakesRight op kind right)
    (hends : ∀ o : Token, o.kind = op.token → EndsOperand o)
    (hstands : ∀ (o : Token) (x y : Node), o.kind = op.token → x.Stands l → y.Stands r →
      (Node.of kind [x.labelled .left, o.leaf.labelled .operator, y.labelled .right]).Stands
        (.binary op l r false))
    (hel : l.Spelled .atom) (her : r.Spelled .atom) (hl : OperandReads l) (hr : OperandReads r) :
    WholeReads (.binary op l r false) := by
  intro n ts t rest hts hn ht
  obtain ⟨us, _, rfl, hus, htail⟩ := Spells.exists_append hts
  obtain ⟨o, vs, rfl, ho, hvs⟩ := htail.exists_cons
  have hlength : (Expr.binary op l r false).tokens.length =
      l.tokens.length + (r.tokens.length + 1) := by simp [Expr.tokens]
  obtain ⟨m, rfl⟩ : ∃ m, n = m + 1 := ⟨n - 1, by omega⟩
  obtain ⟨x, hx, hreadsx⟩ := hl (m + 1) Level.lowest (vs ++ t :: rest) hus (by omega)
    (hends o ho.kind)
  obtain ⟨y, hy, hreadsy⟩ : ∃ y : Node, y.Stands r ∧
      Reads (expression (m + 1) right) (vs ++ t :: rest) y (t :: rest) :=
    hr.expression her hvs (by omega) (ht.mono (Nat.zero_le right))
  obtain ⟨u, us, rfl, hu⟩ := hus.exists_begins hel
  obtain ⟨v, vs, rfl, hv⟩ := hvs.exists_begins her
  refine ⟨_, hstands o x y ho.kind hx hy, ?_⟩
  have hbinary : Reads (binary kind x (expression (m + 1) right)) (o :: v :: (vs ++ t :: rest))
      (.of kind [x.labelled .left, o.leaf.labelled .operator, y.labelled .right]) (t :: rest) :=
    (reads_shiftLabelled ho.leading .operator).bind
      ((reads_childAs (hv.ne (by decide)) hv.leading .right hreadsy).bind (reads_pure _ _))
  have hinfixed := hop o (m + 1) _ x _ _ _ ho.kind hbinary
  rw [List.append_assoc]
  exact reads_expression_infixed hu ht hreadsx hinfixed

theorem takesRight_logical (c : Connective) :
    ∃ right, TakesRight (.logical c) .booleanOperator right := by
  cases c with
  | and =>
    refine ⟨Level.and + 1, fun o n expr left node us vs ho h => reads_peek.bind ?_⟩
    simp only [startsComparison, ho, BinaryOp.token, Connective.symbol]
    exact h.bind (reads_pure _ _)
  | or =>
    refine ⟨Level.or + 1, fun o n expr left node us vs ho h => reads_peek.bind ?_⟩
    simp only [startsComparison, ho, BinaryOp.token, Connective.symbol]
    exact h.bind (reads_pure _ _)

theorem takesRight_arith (a : Arithmetic) :
    ∃ right, TakesRight (.arith a) .binaryOperator right := by
  obtain ⟨own, right, hmark⟩ : ∃ own right, Level.ofMark? a.symbol = some (own, right) := by
    cases a <;> exact ⟨_, _, rfl⟩
  have hcomparison : isComparisonMark a.symbol = false := by cases a <;> rfl
  refine ⟨right, fun o n expr left node us vs ho h => reads_peek.bind ?_⟩
  have hlevel : Level.lowest ≤ own := Nat.zero_le own
  simp only [startsComparison, ho, BinaryOp.token, BinaryOp.symbol, hcomparison, hmark, hlevel,
    Bool.false_and, Bool.false_eq_true, if_false, if_true]
  exact h.bind (reads_pure _ _)

theorem wholeReads_binary {op : BinaryOp} (hop : op.isSupported = true)
    (hno : op.isComparison = false) (hel : l.Spelled .atom) (her : r.Spelled .atom)
    (hl : OperandReads l) (hr : OperandReads r) : WholeReads (.binary op l r false) := by
  cases op with
  | logical c =>
    obtain ⟨right, hright⟩ := takesRight_logical c
    refine wholeReads_infix hright (fun o ho => ?_) (fun o x y ho hx hy => ?_) hel her hl hr
    · constructor <;> simp [Token.isMark, ho, BinaryOp.token]
    · exact Node.stands_logical hx hy (.inr ho)
  | arith a =>
    obtain ⟨right, hright⟩ := takesRight_arith a
    refine wholeReads_infix hright (fun o ho => ?_) (fun o x y ho hx hy => ?_) hel her hl hr
    · exact endsOperand_of_mark ho (by cases a <;> decide)
    · exact Node.stands_arith hx hy (.inl ho)
  | compare => cases hno
  | unsupported => cases hop

/-! ### Rows of comparisons -/

/-- The tokens of the links of a row. -/
def linkTokens (links : List (Comparison × Expr)) : List TokenKind :=
  links.flatMap fun k => .mark k.1.symbol :: k.2.tokens

theorem linkTokens_cons (k : Comparison × Expr) (links : List (Comparison × Expr)) :
    linkTokens (k :: links) = .mark k.1.symbol :: (k.2.tokens ++ linkTokens links) := rfl

theorem tokens_linked (first : Expr) (links : List (Comparison × Expr)) :
    (first.linked links).tokens = first.tokens ++ linkTokens links := by
  induction links generalizing first with
  | nil => simp [Expr.linked, linkTokens]
  | cons k links ih =>
    have hstep : first.linked (k :: links) =
        (Expr.binary (.compare k.1) first k.2 true).linked links := rfl
    rw [hstep, ih]
    simp [Expr.tokens, linkTokens, BinaryOp.token, BinaryOp.symbol]

/-- The expression can stand on either side of a comparison. -/
structure IsComparand (e : Expr) : Prop where
  spelled : ∃ f, e.Spelled f
  reads : ComparandReads e

/-- All operands of the links are read. -/
def LinksRead (links : List (Comparison × Expr)) : Prop := ∀ k ∈ links, IsComparand k.2

theorem reads_comparisonLink {n : Nat} {c : Comparison} {o : Token} (ho : o.Is (.mark c.symbol))
    (he : IsComparand e) (hts : Spells ts e.tokens) (hn : e.tokens.length < n)
    (ht : Ends (Level.comparison + 1) t) :
    ∃ node : Node, node.Stands e ∧
      Reads (comparisonLink (expression n)) (o :: (ts ++ t :: us))
        [o.leaf.labelled .operators, node] (t :: us) := by
  obtain ⟨m, rfl⟩ : ∃ m, n = m + 1 := ⟨n - 1, by omega⟩
  obtain ⟨node, hnode, hoperand⟩ := he.reads m (Level.comparison + 1) us hts (by omega) ht
  obtain ⟨f, hspelled⟩ := he.spelled
  obtain ⟨u, ts, rfl, hu⟩ := hts.exists_begins hspelled
  have hreads : Reads (expression (m + 1) (Level.comparison + 1)) (u :: ts ++ t :: us) node
      (t :: us) := reads_expression hu ht hoperand
  have hop : Reads comparisonOp (o :: (u :: ts ++ t :: us)) [o.leaf.labelled .operators]
      (u :: ts ++ t :: us) := by
    refine reads_peek.bind ?_
    simp only [ho.kind]
    exact reads_shiftLabelled ho.leading .operators
  exact ⟨node, hnode, hop.bind
    ((reads_child (hu.ne (by decide)) hu.leading hreads).bind (reads_pure _ _))⟩

/-- An operand of a row ends in front of the next link, and so does the row. -/
theorem exists_next {links : List (Comparison × Expr)} (hts : Spells ts (linkTokens links))
    (ht : Ends Level.lowest t) (rest : List Token) :
    ∃ next after, ts ++ t :: rest = next :: after ∧ Ends (Level.comparison + 1) next := by
  cases links with
  | nil =>
    cases List.forall₂_nil_right_iff.mp hts
    exact ⟨t, rest, rfl, ht.mono (Nat.zero_le _)⟩
  | cons k links =>
    obtain ⟨o, us, rfl, ho, -⟩ := Spells.exists_cons hts
    exact ⟨o, us ++ t :: rest, rfl, .comparison (Nat.lt_succ_self _) ho.kind⟩

theorem not_startsComparison (ht : Ends Level.lowest t) : startsComparison t = false := by
  cases ht with
  | close h => simp [startsComparison, h, isComparisonMark]
  | newline h => simp [startsComparison, h]
  | comparison hlevel => exact absurd hlevel (Nat.not_lt_zero _)

theorem startsComparison_of_mark {c : Comparison} (h : t.kind = .mark c.symbol) :
    startsComparison t = true := by
  cases c <;> simp [startsComparison, h, Comparison.symbol, isComparisonMark]

theorem reads_links {links : List (Comparison × Expr)} (h : LinksRead links) {n k : Nat}
    (hk : links.length ≤ k) (hn : (linkTokens links).length ≤ n) {ts : List Token}
    (hts : Spells ts (linkTokens links)) (ht : Ends Level.lowest t) (rest : List Token) :
    ∃ nodes, Node.Links nodes links ∧
      Reads (repeated startsComparison (comparisonLink (expression n)) k) (ts ++ t :: rest) nodes
        (t :: rest) := by
  induction links generalizing k ts with
  | nil =>
    cases List.forall₂_nil_right_iff.mp hts
    exact ⟨[], .nil, reads_repeated_nil (not_startsComparison ht) _ k⟩
  | cons link links ih =>
    obtain ⟨hlink, hlinks⟩ := List.forall_mem_cons.mp h
    obtain ⟨k, rfl⟩ : ∃ m, k = m + 1 := ⟨k - 1, (Nat.sub_add_cancel (Nat.one_le_of_lt hk)).symm⟩
    rw [linkTokens_cons] at hts hn
    rw [List.length_cons, List.length_append] at hn
    obtain ⟨o, _, rfl, ho, htail⟩ := hts.exists_cons
    obtain ⟨us, vs, rfl, hus, hvs⟩ := htail.exists_append
    obtain ⟨next, after, hafter, hnext⟩ := exists_next hvs ht rest
    obtain ⟨nodes, hnodes, hreads⟩ := ih hlinks (Nat.le_of_succ_le_succ hk) (by omega) hvs
    obtain ⟨node, hnode, hfirst⟩ : ∃ node : Node, node.Stands link.2 ∧
        Reads (comparisonLink (expression n)) (o :: (us ++ next :: after))
          [o.leaf.labelled .operators, node] (next :: after) :=
      reads_comparisonLink ho hlink hus (by omega) hnext
    have hlist : o :: (us ++ vs) ++ t :: rest = o :: (us ++ next :: after) := by
      rw [List.cons_append, List.append_assoc, hafter]
    rw [hafter] at hreads
    refine ⟨_, .cons (.inl ho.kind) hnode hnodes, ?_⟩
    rw [hlist]
    exact reads_repeated_cons (startsComparison_of_mark ho.kind) hfirst hreads

theorem length_le_linkTokens (links : List (Comparison × Expr)) :
    links.length ≤ (linkTokens links).length := by
  induction links with
  | nil => exact Nat.zero_le _
  | cons k links ih =>
    rw [linkTokens_cons]
    simp only [List.length_cons, List.length_append]
    omega

theorem wholeReads_row {first : Expr} {c : Comparison} {second : Expr}
    {links : List (Comparison × Expr)} (hfirst : IsComparand first)
    (hlinks : LinksRead ((c, second) :: links)) :
    WholeReads ((Expr.binary (.compare c) first second false).linked links) := by
  intro n ts t rest hts hn ht
  have htokens : ((Expr.binary (.compare c) first second false).linked links).tokens =
      first.tokens ++ linkTokens ((c, second) :: links) := by
    rw [tokens_linked, linkTokens_cons]
    simp [Expr.tokens, BinaryOp.token, BinaryOp.symbol]
  rw [htokens] at hts hn
  rw [List.length_append] at hn
  have hcount := length_le_linkTokens ((c, second) :: links)
  obtain ⟨us, vs, rfl, hus, hvs⟩ := hts.exists_append
  obtain ⟨nodes, hnodes, hreads⟩ : ∃ nodes, Node.Links nodes ((c, second) :: links) ∧
      Reads (repeated startsComparison (comparisonLink (expression n)) n) (vs ++ t :: rest) nodes
        (t :: rest) :=
    reads_links hlinks (by omega) (by omega) hvs ht rest
  obtain ⟨o, vs, rfl, ho, -⟩ := hvs.exists_cons
  obtain ⟨x, hx, hleft⟩ := hfirst.reads n Level.lowest (vs ++ t :: rest) hus (by omega)
    (.comparison (Nat.lt_succ_self _) ho.kind)
  obtain ⟨f, hspelled⟩ := hfirst.spelled
  obtain ⟨u, us, rfl, hu⟩ := hus.exists_begins hspelled
  refine ⟨_, Node.stands_row hx hnodes, ?_⟩
  have hinfixed : Reads (infixed n (expression n) Level.lowest x) (o :: (vs ++ t :: rest))
      (some (.of .comparison (x :: nodes))) (t :: rest) := by
    refine reads_peek.bind ?_
    simp only [startsComparison_of_mark ho.kind, Level.lowest, Nat.zero_le, decide_true,
      Bool.and_true, if_true]
    have hrow : Reads (comparison n (expression n) x) (o :: (vs ++ t :: rest))
        (.of .comparison (x :: nodes)) (t :: rest) := hreads.bind (reads_pure _ _)
    exact hrow.bind (reads_pure _ _)
  obtain ⟨m, rfl⟩ : ∃ m, n = m + 1 := ⟨n - 1, by simp at hcount; omega⟩
  rw [List.append_assoc]
  exact reads_expression_infixed hu ht hleft hinfixed

/-! ### Everything that is written -/

/-- How an expression of a form is read. -/
def FormReads : Expr.Form → Expr → Prop
  | .atom, e => OperandReads e
  | .row, e => ∃ first c second links, IsComparand first ∧ LinksRead ((c, second) :: links) ∧
      e = (Expr.binary (.compare c) first second false).linked links
  | .whole, e => WholeReads e

theorem FormReads.wholeReads (he : e.Spelled f) (h : FormReads f e) : WholeReads e := by
  cases f with
  | atom => exact wholeReads_of_comparand he h.comparand
  | row =>
    obtain ⟨first, c, second, links, hfirst, hlinks, rfl⟩ := h
    exact wholeReads_row hfirst hlinks
  | whole => exact h

theorem isComparand_of_operand (he : e.Spelled .atom) (h : OperandReads e) : IsComparand e :=
  ⟨⟨_, he⟩, h.comparand⟩

theorem formReads (h : e.Spelled f) : FormReads f e := by
  induction h with
  | num h => exact operandReads_num h
  | bool b => exact operandReads_bool b
  | name h => exact operandReads_name h
  | paren h ih => exact operandReads_paren h (ih.wholeReads h)
  | @unary op e hop h ih =>
    cases op with
    | not => exact wholeReads_not h ih
    | plus => exact wholeReads_of_comparand (.unary hop h) (comparandReads_sign (.inl rfl) h ih)
    | minus => exact wholeReads_of_comparand (.unary hop h) (comparandReads_sign (.inr rfl) h ih)
    | unsupported => cases hop
  | binary hop hno hl hr ihl ihr => exact wholeReads_binary hop hno hl hr ihl ihr
  | @compare c l r hl hr ihl ihr =>
    exact ⟨l, c, r, [], isComparand_of_operand hl ihl,
      List.forall_mem_singleton.mpr (isComparand_of_operand hr ihr), rfl⟩
  | @link c l r hl hr ihl ihr =>
    obtain ⟨first, c', second, links, hfirst, hlinks, rfl⟩ := ihl
    refine ⟨first, c', second, links ++ [(c, r)], hfirst, ?_, ?_⟩
    · rw [← List.cons_append]
      exact List.forall_mem_append.mpr
        ⟨hlinks, List.forall_mem_singleton.mpr (isComparand_of_operand hr ihr)⟩
    · simp [Expr.linked]

end

end Rule
end Foregone
