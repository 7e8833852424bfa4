import Foregone.Proofs.Lexing
import Foregone.Proofs.Reading

/-! # Reading undoes writing

A text that is written from an expression is one statement that is one expression, and
it is read back as the expression it was written from. -/

namespace Foregone

namespace Rule

variable {x : Context} {t u e : Token} {us ts : List Token} {node : Node}

/-- A statement that is a written condition is no assignment. -/
theorem reads_assignment (ht : t.kind = .newline) (k : Nat) (left : List Node) :
    Reads (assignment x k left) (t :: ts) none (t :: ts) := by
  cases k with
  | zero => exact reads_pure _ _
  | succ k =>
    refine reads_peek.bind ?_
    simp only [ht]
    exact reads_pure _ _

theorem reads_expressions {expr : Inner} {k : Nat} (hu : Begins u) (ht : t.kind = .newline)
    (h : Reads (expr Level.lowest) (u :: us) node (t :: ts)) :
    Reads (expressions expr (k + 1)) (u :: us) [node] (t :: ts) := by
  have hcomma : t.isMark "," = false := by simp [Token.isMark, ht]
  refine (reads_child (hu.ne (by decide)) hu.leading h).bind ((reads_atMark ",").bind ?_)
  rw [hcomma]
  exact reads_pure _ _

theorem reads_expressionStatement {n : Nat} (hx : x.repeats = n + 1) (hu : Begins u)
    (ht : t.kind = .newline) (h : Reads (x.expr Level.lowest) (u :: us) node (t :: ts)) :
    Reads (expressionStatement x) (u :: us) (.of .expressionStatement [node]) (t :: ts) := by
  have hyield : u.isName "yield" = false := by
    simpa [Token.isName] using hu.ne (k := .name "yield") (by decide)
  have hexpressions : Reads x.expressions (u :: us) [node] (t :: ts) := by
    rw [Context.expressions, hx]
    exact reads_expressions hu ht h
  refine (reads_atName "yield").bind ?_
  rw [hyield]
  exact hexpressions.bind ((reads_assignment ht _ _).bind (reads_pure _ _))

theorem reads_simpleStatement {n : Nat} (hx : x.repeats = n + 1) (hu : Begins u)
    (ht : t.kind = .newline) (h : Reads (x.expr Level.lowest) (u :: us) node (t :: ts)) :
    Reads (simpleStatement x) (u :: us) (.of .expressionStatement [node]) (t :: ts) := by
  refine reads_peek.bind ?_
  split
  case h_15 => exact reads_expressionStatement hx hu ht h
  all_goals
    rename_i hk
    exact absurd hk (hu.ne (by decide))

theorem reads_statementRule {n : Nat} (hx : x.repeats = n + 1) (hu : Begins u)
    (ht : t.Is .newline) (h : Reads (x.expr Level.lowest) (u :: us) node (t :: ts)) :
    Reads (statementRule x) (u :: us) [.of .expressionStatement [node], t.leaf] ts := by
  have hsemicolon : t.isMark ";" = false := by simp [Token.isMark, ht.kind]
  have hline : Reads (simpleStatements x x.repeats) (u :: us)
      [.of .expressionStatement [node], t.leaf] ts := by
    rw [hx]
    refine (reads_child (hu.ne (by decide)) hu.leading (reads_simpleStatement hx hu ht.kind h)).bind
      ((reads_atMark ";").bind ?_)
    rw [hsemicolon]
    exact (reads_token ht).bind (reads_pure _ _)
  refine reads_peek.bind ?_
  split
  case h_11 => exact hline
  all_goals
    rename_i hk
    exact absurd hk (hu.ne (by decide))

/-- A text that is a written condition is one statement. -/
theorem reads_fullText {n : Nat} (hu : Begins u) (ht : t.Is .newline) (he : e.Is .endOfText)
    (h : Reads (expression (n + 2) Level.lowest) (u :: us) node [t, e]) :
    Reads (fullText (n + 1)) (u :: us) (.branch (.other "module") none 0 0
      [.of .expressionStatement [node], t.leaf, e.leaf]) [] := by
  have hstatement : Reads (statement (n + 1) (expression (n + 2)) (n + 1)) (u :: us)
      [.of .expressionStatement [node], t.leaf] [e] := reads_statementRule rfl hu ht h
  have hbegins : (u.kind != .endOfText) = true := by simpa using hu.ne (k := .endOfText) rfl
  have hend : (e.kind != .endOfText) = false := by simp [he.kind]
  have hbody : Reads (repeated (fun t => t.kind != .endOfText)
      (statement (n + 1) (expression (n + 2)) (n + 1)) (n + 1)) (u :: us)
      [.of .expressionStatement [node], t.leaf] [e] :=
    reads_repeated_cons hbegins hstatement (reads_repeated_nil hend _ n)
  exact hbody.bind ((reads_token he).bind (reads_pure _ _))

end Rule

/-- The statement is found again in the tree of the text. -/
theorem Node.onlyExpression?_eq {node : Node} {e : Expr} {t u : Token} (h : node.Stands e)
    (ht : t.kind = .newline) (hu : u.kind = .endOfText) :
    (Node.branch (.other "module") none 0 0
      [.of .expressionStatement [node], t.leaf, u.leaf]).onlyExpression? = some node := by
  have hlayout {t : Token} (ht : t.kind = .newline ∨ t.kind = .endOfText) :
      t.leaf.isPart = false := by
    rcases ht with ht | ht <;> simp [Token.leaf, ht, isPart, Node.kind, Kind.isNamed]
  have hparts : (Node.branch (.other "module") none 0 0
      [.of .expressionStatement [node], t.leaf, u.leaf]).operands =
        [.of .expressionStatement [node]] := by
    have hstatement : (Node.of .expressionStatement [node]).isPart = true := rfl
    simp [operands_eq, children, List.filter, hstatement, hlayout (.inl ht), hlayout (.inr hu)]
  have hinner : (Node.of .expressionStatement [node]).operands = [node] := by
    simp [operands_eq, children_of, h.isExtra, h.isPart]
  have hkind := h.kind
  simp only [onlyExpression?, hparts, kind_of, hinner]
  cases hk : node.kind with
  | assignment | augmentedAssignment | yield =>
    rw [hk] at hkind
    cases hkind
  | _ => rfl

namespace Expr

variable {f : Form} {e : Expr}

/-- The only expression of a written text is the one that it was written from. -/
theorem IsMadeOfTokens.ofSource? (h : e.IsMadeOfTokens) (hwhole : Rule.WholeReads e) :
    ∃ tree node : Node, Node.ofSource? (Utf8.encode e.text) = some tree ∧
      tree.onlyExpression? = some node ∧ node.toExpr = e := by
  obtain ⟨ts, hts, hkinds, hleading⟩ := h.ofGlyphs?
  have hspells : Rule.Spells ts (e.tokens ++ [.newline, .endOfText]) := by
    rw [← hkinds]
    exact List.forall₂_map_right_iff.mpr
      (List.forall₂_same.mpr fun t ht => ⟨rfl, hleading t ht⟩)
  obtain ⟨us, vs, rfl, hus, hvs⟩ := hspells.exists_append
  obtain ⟨t, _, rfl, ht, hlast⟩ := hvs.exists_cons
  obtain ⟨u, rfl, hu⟩ := hlast.exists_single
  have hlength : (us ++ [t, u]).length = e.tokens.length + 2 := by
    rw [List.length_append, hus.length_eq]
    rfl
  obtain ⟨node, hnode, hreads⟩ := hwhole (e.tokens.length + 2) [u] hus (Nat.le_add_right _ _)
    (.newline ht.kind)
  obtain ⟨v, us, rfl, hv⟩ := hus.exists_begins_of_tokens h.begins
  obtain ⟨tree, hfull, htree⟩ : ∃ tree : Node,
      (Rule.fullText (v :: us ++ [t, u]).length).run (v :: us ++ [t, u]) = some (tree, []) ∧
        tree.onlyExpression? = some node := by
    rw [hlength]
    exact ⟨_, Rule.reads_fullText hv ht hu hreads,
      Node.onlyExpression?_eq hnode ht.kind hu.kind⟩
  refine ⟨tree, node, ?_, htree, hnode.toExpr⟩
  simp only [Node.ofSource?, hts, Option.bind_eq_bind, Option.bind_some, hfull]

/-- The usual host refuses a written text for its depth only. -/
theorem IsMadeOfTokens.ofText_eq (h : e.IsMadeOfTokens) (hwhole : Rule.WholeReads e)
    (hdepth : e.conversionDepth ≤ Host.usualRoom) : ofText e.text = .ok e := by
  obtain ⟨tree, node, htree, hnode, rfl⟩ := h.ofSource? hwhole
  have hconvert : Host.usual.cannotConvert node = false := decide_eq_false (not_lt.mpr hdepth)
  rw [ofText, htree]
  simp only [hnode, hconvert, if_neg Bool.false_ne_true]

theorem Spelled.ofText_eq (h : Spelled f e) (hdepth : e.conversionDepth ≤ Host.usualRoom) :
    ofText e.text = .ok e :=
  h.isMadeOfTokens.ofText_eq ((Rule.formReads h).wholeReads h) hdepth

/-- Reading undoes writing, up to two hundred layers. -/
theorem ofText_text (h : Spelled f e) (hlayers : e.layers ≤ 200) : ofText e.text = .ok e :=
  h.ofText_eq (h.conversionDepth_le_usualRoom hlayers)

/-- A chain of comparisons with an operand in parentheses, itself in parentheses. -/
theorem ofText_text_chain_in_parentheses :
    let chain : Expr := .binary (.compare .le)
      (.binary (.compare .lt) (.num (some 1) true) (.name "x1") false)
      (.paren (.binary (.arith .pow) (.name "x1") (.num (some 12) true) false)) true
    let whole : Expr := .binary (.logical .and)
      (.paren (.unary .not (.paren chain))) (.paren (.unary .minus (.name "_y"))) false
    whole.text = "(not (1 < x1 <= (x1 ** 12))) and (-_y)" ∧ whole.layers ≤ 200 ∧
      Spelled .whole whole ∧
      ofText "(not (1 < x1 <= (x1 ** 12))) and (-_y)" = .ok whole := by
  intro chain whole
  have htext : whole.text = "(not (1 < x1 <= (x1 ** 12))) and (-_y)" := by decide
  have hlayers : whole.layers ≤ 200 := by decide
  have hname : Spelled .atom (.name "x1") := .name (by decide)
  have hchain : Spelled .row chain :=
    .link (.compare (.num (n := 1) (by decide)) hname)
      (.paren (.binary rfl rfl hname (.num (n := 12) (by decide))))
  have hwhole : Spelled .whole whole :=
    .binary rfl rfl (.paren (.unary rfl (.paren hchain))) (.paren (.unary rfl (.name (by decide))))
  have hread := ofText_text hwhole hlayers
  rw [htext] at hread
  exact ⟨htext, hlayers, hwhole, hread⟩

end Expr
end Foregone
