import Foregone.Proofs.Spans

/-! # Where expressions lie

Every rule for an expression lays the expression it reads, provided the rule for the
expressions inside does. So by induction on the depth all of them do. -/

namespace Foregone.Rule

variable {B F : Nat → Prop} {expr : Inner}

theorem lays_firstElement {r : Rule (Node × Bool)} (hr : Lays B (fun e => [e.1]) r) :
    Lays B (fun e => e.1) (firstElement r) :=
  hr.withLeading (g := fun extras e => (extras ++ [e.1], e.2)) fun _ _ => rfl

section Inner

variable (hexpr : ∀ level, LaysOne B (expr level))

include hexpr

theorem laysAll_expressions (n : Nat) : LaysAll B (expressions expr n) := by
  induction n with
  | zero => exact fun F => .fail
  | succ n ih =>
    refine fun F => (laysAll_child (hexpr _)).begin fun first => ?_
    refine (stays_atMark _).test ?_ (.here rfl)
    refine laysAll_shift.add fun comma => stays_peek.test ?_ (.here rfl)
    exact ih.add fun rest => .here rfl

theorem laysOne_yieldRule (n : Nat) : LaysOne B (yieldRule n expr) := by
  refine fun F => (laysAll_keyword _).begin fun word => (stays_atName _).test ?_ ?_
  · refine laysAll_shift.add fun source => ?_
    exact (laysAll_child (hexpr _)).add fun e => .of rfl
  · exact stays_peek.test ((laysAll_expressions hexpr n).add fun es => .of rfl) (.of rfl)

theorem laysOne_splat {kind : Kind} (hkind : kind.isPlain = true) :
    LaysOne B (splat expr kind) :=
  fun _ => laysAll_shift.begin fun _ => (laysAll_child (hexpr _)).add fun _ => .of hkind

theorem laysOne_wrappedSplat (n : Nat) : LaysOne B (wrappedSplat expr n) := by
  induction n with
  | zero => exact fun F => .fail
  | succ n ih =>
    refine fun F => (laysAll_mark _).begin fun left => stays_splitStars.then fun _ => ?_
    refine (stays_atMark _).test ?_ ?_
    · refine (laysAll_child (laysOne_splat hexpr rfl)).add fun inner => ?_
      exact (laysAll_mark _).add fun right => .of rfl
    · refine (laysAll_child ih).add fun inner => ?_
      exact (laysAll_mark _).add fun right => .of rfl

/-! ## Elements and clauses -/

theorem lays_elementOrExpression (n : Nat) :
    Lays B (fun e => [e.1]) (elementOrExpression n expr) := by
  have hwhole (F) : Keeps B F (do return (← expr Level.lowest, true))
      fun e : Node × Bool => Upon B F [e.1] := (hexpr _).begin fun e => .here rfl
  refine fun F => stays_splitStars.then fun _ => stays_peek.then fun t => ?_
  split
  · refine .orElse ?_ ((laysOne_splat hexpr rfl).begin fun e => .here rfl)
    exact (hwhole F).bind fun e => stays_peek.test (.here rfl) .fail
  · refine (hwhole F).orElse (stays_get.test ?_ .fail)
    exact (laysOne_wrappedSplat hexpr n).begin fun e => .here rfl
  · exact (laysOne_yieldRule hexpr n).begin fun e => .here rfl
  · exact hwhole F

theorem laysOne_element (n : Nat) : LaysOne B (element n expr) :=
  fun _ => (lays_elementOrExpression hexpr n).begin fun _ => .here rfl

theorem laysOne_target : LaysOne B (target expr) := by
  refine fun F => (hexpr _).begin fun n => ?_
  split
  · exact .here rfl
  · exact .fail

theorem laysAll_loopHead (n : Nat) {source : Rule (List Node)} (hsource : LaysAll B source) :
    LaysAll B (loopHead n expr source) := by
  refine fun F => (laysAll_keyword _).begin fun word => ?_
  refine (laysAny_separated (laysOne_target hexpr) _ n).add fun targets => ?_
  split
  · exact .fail_bind
  · exact (laysAll_keyword _).add fun inWord => hsource.add fun ns => .here rfl

theorem laysOne_parameter {type : Rule (List Node)} (htype : LaysAny B type) :
    LaysOne B (parameter expr type) := by
  have hdefault : LaysAny B (markThen "=" (child (expr Level.lowest))) :=
    laysAny_markThen (laysAll_child (hexpr _)).any
  refine fun F => stays_peek.then fun t => ?_
  split
  · exact laysAll_shift.begin fun slash => .of rfl
  split
  · refine laysAll_shift.begin fun star => stays_peek.test ?_ ?_
    · refine (laysAll_child (hexpr _)).add fun name => ?_
      split
      · exact htype.add fun kind => .of rfl
      · exact .fail
    · split
      · exact .of rfl
      · exact .fail
  split
  · refine (hexpr _).begin fun names => ?_
    split
    · split
      · exact hdefault.add fun value => .of rfl
      · exact .fail
    · split
      · exact hdefault.add fun value => .of rfl
      · exact .fail
    · exact .fail
  · refine (laysAll_child laysOne_identifier).begin fun name => ?_
    exact htype.add fun kind => hdefault.add fun value => .of rfl

theorem laysOne_lambda (n : Nat) {body : Rule Node} (hbody : LaysOne B body) :
    LaysOne B (lambda n expr body) := by
  refine fun F => (laysAll_keyword _).begin fun word => ?_
  refine (laysAny_separated (laysOne_parameter hexpr .none) _ n).add fun parameters => ?_
  exact (laysAll_mark _).add fun colon => (laysAll_child hbody).add fun e => .of rfl

theorem laysOne_clauseSource (n k : Nat) : LaysOne B (clauseSource n expr k) := by
  induction k with
  | zero => exact fun F => .fail
  | succ k ih => exact fun F => (stays_atName _).test (laysOne_lambda hexpr n ih F) (hexpr _ F)

theorem laysAll_clauseSources (n k : Nat) : LaysAll B (clauseSources n expr k) := by
  induction k with
  | zero => exact fun F => .fail
  | succ k ih =>
    refine fun F => (laysAll_child (laysOne_clauseSource hexpr n n)).begin fun first => ?_
    refine (stays_atMark _).test ?_ (.here rfl)
    refine laysAll_shift.add fun comma => stays_peek.test ?_ (.here rfl)
    exact ih.add fun rest => .here rfl

theorem laysAll_clause (n : Nat) : LaysAll B (clause n expr) := by
  have hloop := laysAll_loopHead hexpr n (laysAll_clauseSources hexpr n n)
  refine fun F => (stays_atName _).test ?_ ((stays_atName _).test ?_ ?_)
  · exact laysAll_shift.begin fun word => (laysAll_child (hexpr _)).add fun e => .here rfl
  · exact laysAll_shift.begin fun asyncWord => hloop.add fun ns => .here rfl
  · exact hloop.begin fun ns => .here rfl

theorem laysAll_clauses (n : Nat) : LaysAll B (clauses n expr) := by
  refine fun F => (stays_atName _).test .fail_bind ?_
  refine (laysAll_clause hexpr n).begin fun first => ?_
  exact (laysAny_repeated (laysAll_clause hexpr n) _ n).add fun rest => .here rfl

/-! ## Brackets -/

theorem laysOne_parentheses (n : Nat) : LaysOne B (parentheses n expr) := by
  have hfirst := lays_firstElement (lays_elementOrExpression hexpr n)
  refine fun F => (laysAll_mark _).begin fun left => (stays_atMark _).test ?_ ?_
  · exact laysAll_shift.add fun right => .of rfl
  refine hfirst.add fun ⟨first, isExpression⟩ => (stays_atMark _).test ?_ ?_
  · refine laysAll_shift.add fun comma => ?_
    refine (laysAny_separated (laysOne_element hexpr n) _ n).add fun rest => ?_
    exact (laysAll_mark _).add fun right => .of rfl
  refine stays_peek.test ?_ ?_
  · refine (laysAll_clauses hexpr n).add fun loops => ?_
    exact (laysAll_mark _).add fun right => .of rfl
  · split
    · exact (laysAll_mark _).add fun right => .of rfl
    · exact .fail

theorem laysOne_squareBrackets (n : Nat) : LaysOne B (squareBrackets n expr) := by
  have hfirst := lays_firstElement (lays_elementOrExpression hexpr n)
  have hrest := laysAny_separated (laysOne_element hexpr n) (·.isMark "]") n
  refine fun F => (laysAll_mark _).begin fun left => (stays_atMark _).test ?_ ?_
  · exact laysAll_shift.add fun right => .of rfl
  refine hfirst.add fun ⟨first, isExpression⟩ => stays_peek.test ?_ ?_
  · refine (laysAll_clauses hexpr n).add fun loops => ?_
    exact (laysAll_mark _).add fun right => .of rfl
  · refine (laysAny_markThen hrest).add fun rest => ?_
    exact (laysAll_mark _).add fun right => .of rfl

theorem laysOne_pair : LaysOne B (pair expr) := by
  refine fun F => (stays_atMark _).test (laysOne_splat hexpr rfl F) ?_
  refine (laysAll_child (hexpr _)).begin fun key => (laysAll_mark _).add fun colon => ?_
  exact (laysAll_child (hexpr _)).add fun value => .of rfl

theorem keeps_dictionaryRest (n : Nat) (begun : List Node) :
    Keeps B (Upon B F begun) (dictionaryRest n expr begun) fun n => Upon B F [n] := by
  refine (laysAny_markThen (laysAny_separated (laysOne_pair hexpr) _ n)).add fun rest => ?_
  exact (laysAll_mark _).add fun right => .of rfl

theorem laysOne_braces (n : Nat) : LaysOne B (braces n expr) := by
  have hfirst := lays_firstElement (lays_elementOrExpression hexpr n)
  have hrest := laysAny_separated (laysOne_element hexpr n) (·.isMark "\x7d") n
  refine fun F => (laysAll_mark _).begin fun left => (stays_atMark _).test ?_ ?_
  · exact laysAll_shift.add fun right => .of rfl
  refine (stays_atMark _).test ?_ ((stays_atMark _).test ?_ ?_)
  · exact laysAll_shift.add fun comma => (laysAll_mark _).add fun right => .of rfl
  · exact (laysAll_child (laysOne_pair hexpr)).add fun first => keeps_dictionaryRest hexpr n _
  refine hfirst.begin fun ⟨first, isExpression⟩ => (stays_atMark _).test ?_ ?_
  · refine laysAll_shift.add fun colon => (laysAll_child (hexpr _)).add fun value => ?_
    -- the pair lies upon the brace, and both together are what has been laid
    refine Keeps.from (P := Upon B F (left ++ [.of (.other "pair") (first ++ colon ++ value)])) ?_
      fun _ h => (h.of rfl).join
    refine stays_peek.test ?_ (keeps_dictionaryRest hexpr n _)
    refine (laysAll_clauses hexpr n).add fun loops => ?_
    exact (laysAll_mark _).add fun right => .of rfl
  refine Keeps.from (P := Upon B F (left ++ first)) (stays_peek.test ?_ ?_) fun _ => Upon.join
  · refine (laysAll_clauses hexpr n).add fun loops => ?_
    exact (laysAll_mark _).add fun right => .of rfl
  · refine (laysAny_markThen hrest).add fun rest => ?_
    exact (laysAll_mark _).add fun right => .of rfl

/-! ## What is attached to a primary expression -/

theorem lays_argument (n : Nat) : Lays B (fun e => [e.1]) (argument n expr) := by
  refine fun F => stays_peek.then fun t => ?_
  split
  · exact (laysOne_splat hexpr rfl).begin fun e => .here rfl
  split
  · exact .fail
  refine stays_peekSecond?.then fun next => ?_
  split
  · split
    · refine (laysOne_shiftAs rfl _).begin fun key => laysAll_shift.add fun equals => ?_
      exact (laysAll_child (hexpr _)).add fun value => .result fun _ h => h.of rfl
    · exact lays_elementOrExpression hexpr n F
  · exact lays_elementOrExpression hexpr n F

theorem laysOne_arguments (n : Nat) : LaysOne B (arguments n expr) := by
  have hfurther : LaysOne B (do return (← argument n expr).1) :=
    fun _ => (lays_argument hexpr n).begin fun _ => .here rfl
  refine fun F => (laysAll_mark _).begin fun left => (stays_atMark _).test ?_ ?_
  · exact laysAll_shift.add fun right => .of rfl
  refine (stays_atMark _).test ?_ ?_
  · exact laysAll_shift.add fun comma => (laysAll_mark _).add fun right => .of rfl
  refine (lays_firstElement (lays_argument hexpr n)).add fun ⟨first, isExpression⟩ => ?_
  refine stays_peek.test ?_ ?_
  · refine (laysAll_clauses hexpr n).add fun loops => ?_
    exact (laysAll_mark _).add fun right => .of rfl
  · refine (laysAny_markThen (laysAny_separated hfurther _ n)).add fun rest => ?_
    exact (laysAll_mark _).add fun right => .of rfl

theorem laysAny_slicePart : LaysAny B (slicePart expr) :=
  .ahead stays_peek (laysAll_child (hexpr _)).any .none

theorem laysOne_index : LaysOne B (index expr) := by
  have hpart := laysAny_slicePart hexpr
  refine fun F => hpart.begin fun low => (stays_atMark _).test ?_ ?_
  · refine laysAll_shift.addTo fun colon => hpart.add fun high => ?_
    exact (laysAny_markThen hpart).add fun stride => .of rfl
  · split
    · rename_i n hn
      have hne : low ≠ [] := by
        intro hnil
        cases hnil ▸ hn
      refine .result fun q h => ?_
      obtain ⟨p, hp, hstretch⟩ := h.upon hne
      exact ⟨p, hp, hstretch.getLast hn⟩
    · exact .fail

theorem keeps_attach (n : Nat) (base : Node) :
    Keeps B (Upon B F [base]) (attach n expr base) fun o => Upon B F [o.getD base] := by
  refine stays_peek.then fun t => ?_
  split
  · refine laysAll_shift.add fun point => ?_
    exact (laysAll_child laysOne_identifier).add fun name => .result fun _ h => h.of rfl
  split
  · exact (laysAll_child (laysOne_arguments hexpr n)).add fun args => .result fun _ h => h.of rfl
  split
  · refine laysAll_shift.add fun left => ?_
    refine (laysAny_separated (laysOne_index hexpr) _ n).add fun inner => ?_
    split
    · exact .fail_bind
    · exact (laysAll_mark _).add fun right => .result fun _ h => h.of rfl
  · exact .here rfl

theorem keeps_attachments (n k : Nat) (base : Node) :
    Keeps B (Upon B F [base]) (attachments n expr k base) fun n => Upon B F [n] := by
  induction k generalizing base with
  | zero => exact .here rfl
  | succ k ih =>
    refine (keeps_attach hexpr n base).bind fun o => ?_
    cases o with
    | some wider => exact ih wider
    | none => exact .here rfl

/-! ## Operands -/

theorem laysAll_field (n k : Nat) : LaysAll B (field n expr k) := by
  induction k with
  | zero => exact fun F => .fail
  | succ k ih =>
    refine fun F => (laysAll_token _).begin fun left => ?_
    refine (stays_atName _).add (laysAll_child (laysOne_yieldRule hexpr n)).any
      (laysAll_expressions hexpr n).any fun inner => ?_
    refine (stays_atMark _).add laysAll_shift.any .none fun equals => ?_
    refine (stays_atKind _).add laysAll_shift.any .none fun conversion => ?_
    refine (stays_atKind _).test ?_ ?_
    · refine laysAll_shift.begin fun colon => (laysAny_repeated ih _ n).add fun fields => ?_
      exact .join ((laysAll_token _).add fun right => .here rfl)
    · exact LaysAny.none.add fun _ => (laysAll_token _).add fun right => .here rfl

theorem laysOne_stringRule (n : Nat) : LaysOne B (stringRule n expr) := by
  refine fun F => (laysAll_token _).begin fun left => ?_
  refine (laysAny_repeated (laysAll_field hexpr n n) _ n).add fun fields => ?_
  exact (laysAll_token _).add fun right => .of rfl

theorem laysOne_strings (n : Nat) : LaysOne B (strings n expr) := by
  have hstring := laysOne_stringRule hexpr n
  refine fun F => hstring.begin fun first => ?_
  refine (laysAny_repeated (laysAll_child hstring) _ n).add fun rest => ?_
  cases rest with
  | nil => exact .here rfl
  | cons _ _ => exact .of rfl

theorem laysOne_atom (n : Nat) : LaysOne B (atom n expr) := by
  refine fun F => stays_peek.then fun t => ?_
  split
  · exact laysOne_shiftAs rfl _ F
  · exact laysOne_shiftAs rfl _ F
  · exact laysOne_shiftAs rfl _ F
  · split
    · exact laysOne_shiftAs rfl _ F
    · exact .fail
  · exact laysOne_shiftAs rfl _ F
  · exact laysOne_shiftAs rfl _ F
  · exact laysOne_strings hexpr n F
  · exact laysOne_parentheses hexpr n F
  · exact laysOne_squareBrackets hexpr n F
  · exact laysOne_braces hexpr n F
  · exact laysOne_shiftAs rfl _ F
  · exact .fail

theorem laysOne_primary (n : Nat) : LaysOne B (primary n expr) :=
  fun _ => (laysOne_atom hexpr n).begin fun base => keeps_attachments hexpr n n base

theorem laysOne_signed : LaysOne B (signed expr) := by
  refine fun F => (laysAll_shiftLabelled _).begin fun sign => ?_
  exact (laysAll_childAs (hexpr _) _).add fun e => .of rfl

theorem laysOne_awaited : LaysOne B (awaited expr) :=
  fun _ => (laysAll_keyword _).begin fun _ => (laysAll_child (hexpr _)).add fun _ => .of rfl

theorem laysOne_starred : LaysOne B (starred expr) := by
  refine fun F => (laysAll_mark _).begin fun star => (laysAll_child (hexpr _)).add fun operand => ?_
  split
  · split
    · exact .of rfl
    · split
      · exact .of rfl
      · exact .fail
  · exact .fail

theorem laysOne_negation : LaysOne B (negation expr) :=
  fun _ => (laysAll_keyword _).begin fun _ => (laysAll_childAs (hexpr _) _).add fun _ => .of rfl

theorem laysOne_named (text : String) : LaysOne B (named text expr) := by
  refine fun F => (laysOne_shiftAs rfl _).begin fun name => (laysAll_mark _).add fun becomes => ?_
  exact (laysAll_child (hexpr _)).add fun e => .of rfl

theorem laysOne_operand (n level : Nat) : LaysOne B (operand n expr level) := by
  refine fun F => stays_splitStars.then fun _ => stays_peek.then fun t => ?_
  split
  · exact laysOne_signed hexpr F
  · exact laysOne_signed hexpr F
  · exact laysOne_signed hexpr F
  · exact laysOne_starred hexpr F
  · refine stays_peekSecond?.then fun next => ?_
    split
    · exact laysOne_named hexpr _ F
    split
    · exact laysOne_negation hexpr F
    split
    · exact laysOne_lambda hexpr n (hexpr _) F
    split
    · exact laysOne_awaited hexpr F
    · exact laysOne_primary hexpr n F
  · exact laysOne_primary hexpr n F

end Inner

/-! ## Operators -/

theorem keeps_binary {kind : Kind} (hkind : kind.isPlain = true) (left : Node) {right : Rule Node}
    (hright : LaysOne B right) :
    Keeps B (Upon B F [left]) (binary kind left right) fun n => Upon B F [n] := by
  refine Keeps.from (P := Upon B F [left.labelled .left]) ?_
    fun _ ⟨p, hp, h⟩ => ⟨p, hp, h.labelled _⟩
  refine (laysAll_shiftLabelled _).add fun op => ?_
  exact (laysAll_childAs hright _).add fun e => .of hkind

/-- Two words are one operator: it reaches from the first word to the end of the second. -/
theorem Reads.exists_two {t : Token} {ts us : List Token} {second text : String} {a : List Node}
    (h : Reads (do
      set ((← get).drop 1)
      skipNewlines
      let u ← peek
      if u.isName second then
        set ((← get).drop 1)
        return t.leading ++ [.leaf (.mark text) (some .operators) t.start u.stop text]
      else failure) (t :: ts) a us) :
    ∃ u, ts.dropWhile (fun t => t.kind == .newline) = u :: us ∧
      a = t.leading ++ [.leaf (.mark text) (some .operators) t.start u.stop text] := by
  obtain ⟨_, _, hget, h⟩ := h.of_bind
  cases hget
  obtain ⟨_, _, hset, h⟩ := h.of_bind
  cases hset
  obtain ⟨_, vs, hskip, h⟩ := h.of_bind
  have hvs : vs = ts.dropWhile fun t => t.kind == .newline := by
    cases hskip
    rfl
  cases vs with
  | nil => cases h
  | cons u vs =>
    obtain ⟨_, _, hpeek, h⟩ := h.of_bind
    cases hpeek
    split at h
    · cases h
      exact ⟨u, hvs.symm, rfl⟩
    · cases h

theorem laysAll_comparisonOp : LaysAll B comparisonOp := by
  intro F q ts a us hq hts h
  cases ts with
  | nil => cases h
  | cons t ts =>
    obtain ⟨_, _, hpeek, h⟩ := h.of_bind
    cases hpeek
    have htwo {text : String} {us : List Token} {a : List Node}
        (h : ∃ u, ts.dropWhile (fun t => t.kind == .newline) = u :: us ∧
          a = t.leading ++ [.leaf (.mark text) (some .operators) t.start u.stop text]) :
        ∃ q', Upon B F a q' ∧ Follow B q' us := by
      obtain ⟨u, hdrop, rfl⟩ := h
      obtain ⟨hp, ht, hts⟩ := hts.head
      obtain ⟨hle, hu, hus⟩ := (hdrop ▸ hts.dropWhile _ : Follow B t.stop (u :: us)).head
      have hlaid : Node.Laid B (.leaf (.mark text) (some .operators) t.start u.stop text) :=
        Node.laid_leaf ht.start hu.stop (ht.le.trans (hle.trans hu.le)) nofun nofun
      exact ⟨u.stop, ⟨q, hq, ht.stretch hp rfl rfl hlaid⟩, hus⟩
    dsimp only at h
    split at h
    · exact htwo h.exists_two
    · rcases h.of_orElse with h | h
      · exact htwo h.exists_two
      · exact laysAll_shiftLabelled _ F hq hts h
    · exact laysAll_shiftLabelled _ F hq hts h

section Inner

variable (hexpr : ∀ level, LaysOne B (expr level))

include hexpr

theorem laysAll_comparisonLink : LaysAll B (comparisonLink expr) :=
  fun _ => laysAll_comparisonOp.begin fun _ => (laysAll_child (hexpr _)).add fun _ => .here rfl

theorem keeps_comparison (n : Nat) (left : Node) :
    Keeps B (Upon B F [left]) (comparison n expr left) fun n => Upon B F [n] :=
  (laysAny_repeated (laysAll_comparisonLink hexpr) _ n).add fun _ => .of rfl

theorem keeps_conditional (left : Node) :
    Keeps B (Upon B F [left]) (conditional expr left) fun n => Upon B F [n] := by
  refine (laysAll_keyword _).add fun ifWord => (laysAll_child (hexpr _)).add fun condition => ?_
  exact (laysAll_keyword _).add fun elseWord => (laysAll_child (hexpr _)).add fun other => .of rfl

theorem keeps_aliased (left : Node) :
    Keeps B (Upon B F [left]) (aliased expr left) fun n => Upon B F [n] :=
  (laysAll_keyword _).add fun _ => (laysAll_child (hexpr _)).add fun _ => .of rfl

/-- The operator takes in what stands in front of it. -/
theorem keeps_infixed (n level : Nat) (left : Node) :
    Keeps B (Upon B F [left]) (infixed n expr level left) fun o => Upon B F [o.getD left] := by
  have hsome {r : Rule Node} (hr : Keeps B (Upon B F [left]) r fun n => Upon B F [n]) :
      Keeps B (Upon B F [left]) (do return some (← r)) fun o => Upon B F [o.getD left] :=
    hr.bind fun _ => .here rfl
  have hnone : Keeps B (Upon B F [left]) (pure none) fun o => Upon B F [o.getD left] := .here rfl
  refine stays_peek.then fun t => ?_
  split
  · exact hsome (keeps_comparison hexpr n left)
  split
  · split
    · split
      · exact hsome (keeps_binary rfl left (hexpr _))
      · exact hnone
    · exact hnone
  · split
    · exact hsome (keeps_binary rfl left (hexpr _))
    · exact hnone
  · split
    · exact hsome (keeps_binary rfl left (hexpr _))
    · exact hnone
  · split
    · exact hsome (keeps_conditional hexpr left)
    · exact hnone
  · split
    · exact hsome (keeps_aliased hexpr left)
    · exact hnone
  · exact hnone

theorem keeps_infixes (n level k : Nat) (left : Node) :
    Keeps B (Upon B F [left]) (infixes n expr level k left) fun n => Upon B F [n] := by
  induction k generalizing left with
  | zero => exact .here rfl
  | succ k ih =>
    refine (keeps_infixed hexpr n level left).bind fun o => ?_
    cases o with
    | some wider => exact ih wider
    | none => exact .here rfl

end Inner

theorem laysOne_expression (n level : Nat) : LaysOne B (expression n level) := by
  induction n generalizing level with
  | zero => exact fun F => .fail
  | succ n ih =>
    refine fun F => stays_skipNewlines.then fun _ => ?_
    exact (laysOne_operand ih n level).begin fun left => keeps_infixes ih n level n left

end Foregone.Rule
