import Foregone.Proofs.ExpressionSpans

/-! # Where statements lie

The rules for patterns, types and statements lay what they read as well. Of an `if`
statement and of an `elif` clause more is to be said: its keyword comes first, and of the
parts it is read from one is labelled as its condition. -/

namespace Foregone.Rule

variable {B F : Nat → Prop} {expr : Inner}

/-! ## Patterns -/

theorem laysOne_dottedName (n : Nat) : LaysOne B (dottedName n) := by
  refine fun F => laysOne_identifier.begin fun first => ?_
  exact (laysAny_repeated (laysAll_shiftChild laysOne_identifier) _ n).add fun rest => .of rfl

theorem laysOne_numberPattern : LaysOne B numberPattern := by
  have hnumber : LaysAll B (do
      skipNewlines
      if isNumber (← peek) then shift else failure) := fun F =>
    stays_skipNewlines.then fun _ => stays_peek.test (laysAll_shift F) .fail
  refine fun F => (stays_atMark _).begin laysAll_shift.any .none fun sign => ?_
  refine hnumber.addTo fun first => ?_
  refine (stays_atMark _).then fun _ => (stays_atMark _).test ?_ (.of rfl)
  exact laysAll_shift.add fun op => hnumber.add fun second => .of rfl

theorem laysOne_bracketedPatterns (n : Nat) {item : Rule Node} (hitem : LaysOne B item)
    (close : String) : LaysOne B (bracketedPatterns n item close) := by
  refine fun F => laysAll_shift.begin fun left => (laysAny_separated hitem _ n).add fun inner => ?_
  exact (laysAll_mark _).add fun right => .of rfl

theorem laysOne_namePattern (n : Nat) {pattern : InnerPattern} (hpattern : LaysOne B pattern) :
    LaysOne B (namePattern n pattern) := by
  refine fun F => (stays_atName _).test (laysAll_shift.begin fun _ => .of rfl) ?_
  refine (laysAll_child (laysOne_dottedName n)).begin fun name => (stays_atMark _).test ?_ (.of rfl)
  exact (laysAll_child (laysOne_bracketedPatterns n hpattern _)).add fun patterns => .of rfl

theorem laysOne_splatPattern : LaysOne B splatPattern :=
  fun _ => laysAll_shift.begin fun _ => (laysAll_child laysOne_identifier).add fun _ => .of rfl

theorem laysOne_entryPattern {key pattern : Rule Node} (hkey : LaysOne B key)
    (hpattern : LaysOne B pattern) : LaysOne B (entryPattern key pattern) := by
  refine fun F => (stays_atMark _).then fun _ => (stays_atMark _).test (laysOne_splatPattern F) ?_
  refine (laysAll_child hkey).begin fun k => (laysAll_mark _).add fun colon => ?_
  exact (laysAll_child hpattern).add fun value => .of rfl

theorem laysOne_alternative (hexpr : ∀ level, LaysOne B (expr level)) (n : Nat)
    {key pattern : Rule Node} (hkey : LaysOne B key) (hpattern : LaysOne B pattern) :
    LaysOne B (alternative n expr key pattern) := by
  refine fun F => stays_skipNewlines.then fun _ => stays_peek.then fun t => ?_
  split
  · exact laysOne_splatPattern F
  · exact laysOne_splatPattern F
  · exact laysOne_bracketedPatterns n hpattern _ F
  · exact laysOne_bracketedPatterns n hpattern _ F
  · exact laysOne_bracketedPatterns n (laysOne_entryPattern hkey hpattern) _ F
  · exact laysOne_numberPattern F
  · exact laysOne_numberPattern F
  · exact laysOne_numberPattern F
  · exact laysOne_strings hexpr n F
  · exact laysAll_shift.begin fun _ => .of rfl
  · exact laysAll_shift.begin fun _ => .of rfl
  · exact laysAll_shift.begin fun _ => .of rfl
  · exact laysOne_namePattern n hpattern F

theorem laysOne_alternatives (n : Nat) {one : Rule Node} (hone : LaysOne B one) :
    LaysOne B (alternatives n one) := by
  refine fun F => (laysAll_child hone).begin fun first => ?_
  exact (laysAny_repeated (laysAll_shiftChild hone) _ n).add fun rest => .of rfl

theorem laysOne_patternWith (n : Nat) {simple : Rule Node} (hsimple : LaysOne B simple) :
    LaysOne B (patternWith n simple) := by
  intro F
  have hnames := laysAny_repeated (laysAll_shiftChild (B := B) laysOne_identifier) (·.isName "as") n
  have hvalue (key : List Node) : Keeps B (Perhaps B F key) (do
      let value ← child simple
      let names ← repeated (·.isName "as") (do
        let word ← shift
        return word ++ (← child identifier)) n
      return .of (.other "case_pattern") (key ++ value ++ names)) fun n => Upon B F [n] :=
    (laysAll_child hsimple).addTo fun value => hnames.add fun names => .of rfl
  refine stays_peekSecond?.test ?_ (.pure_bind (.from (hvalue []) fun _ => .none))
  refine (laysAll_child laysOne_identifier).begin fun name => (laysAll_mark _).add fun equals => ?_
  exact .pure_bind (.from (hvalue _) fun _ => .inr)

theorem laysOne_simplePattern (hexpr : ∀ level, LaysOne B (expr level)) (n k : Nat) :
    LaysOne B (simplePattern n expr k) := by
  induction k with
  | zero => exact fun F => .fail
  | succ k ih =>
    exact laysOne_alternatives n (laysOne_alternative hexpr n ih (laysOne_patternWith n ih))

theorem laysOne_casePattern (hexpr : ∀ level, LaysOne B (expr level)) (n : Nat) :
    LaysOne B (casePattern n expr) :=
  laysOne_patternWith n (laysOne_simplePattern hexpr n n)

/-! ## Types -/

theorem laysOne_genericType (n : Nat) {type : InnerType} (htype : LaysOne B type) :
    LaysOne B (genericType n type) := by
  refine fun F => (laysAll_child laysOne_identifier).begin fun name => ?_
  refine (laysAll_mark _).add fun left => (laysAny_separated htype _ n).add fun inner => ?_
  split
  · exact .fail_bind
  · exact (laysAll_mark _).add fun right => .of rfl

theorem laysOne_typeHead (hexpr : ∀ level, LaysOne B (expr level)) (n : Nat) {type : InnerType}
    (htype : LaysOne B type) : LaysOne B (typeHead n expr type) := by
  refine fun F => (stays_atMark _).test ?_ ?_
  · exact laysAll_shift.begin fun _ => (laysAll_child laysOne_identifier).add fun _ => .of rfl
  · exact (hexpr _ F).orElse ((laysOne_genericType n htype F).orElse (hexpr _ F))

theorem keeps_typeTail {type : InnerType} (htype : LaysOne B type) (bounded : Bool) (k : Nat)
    (begun : List Node) :
    Keeps B (Upon B F begun) (typeTail type bounded k begun) fun n => Upon B F [n] := by
  induction k generalizing begun with
  | zero => exact .fail
  | succ k ih =>
    refine stays_peek.then fun t => ?_
    split
    · exact laysAll_shift.add fun sign => (laysAll_child htype).add fun bound => .of rfl
    split
    · exact laysAll_shift.add fun point => (laysAll_child laysOne_identifier).add fun name => ih _
    · exact .of rfl

theorem laysOne_typeRule (hexpr : ∀ level, LaysOne B (expr level)) (n k : Nat) (bounded : Bool) :
    LaysOne B (typeRule n expr bounded k) := by
  induction k generalizing bounded with
  | zero => exact fun F => .fail
  | succ k ih =>
    refine fun F => (laysAll_child (laysOne_typeHead hexpr n (ih true))).begin fun head => ?_
    exact keeps_typeTail (ih bounded) bounded n head

/-! ## Simple statements -/

/-- The rules a statement is built from lay what they read. -/
structure Context.Lays (B : Nat → Prop) (x : Context) : Prop where
  expr : ∀ level, LaysOne B (x.expr level)
  statement : LaysAll B x.statement

theorem laysOne_importItem (n : Nat) : LaysOne B (importItem n) := by
  refine fun F => (laysAll_child (laysOne_dottedName n)).begin fun name => ?_
  refine (stays_atName _).test ?_ (.of rfl)
  exact laysAll_shift.add fun word => (laysAll_child laysOne_identifier).add fun given => .of rfl

/-- A list of items of which there has to be one. -/
theorem laysAll_nonempty {r : Rule (List Node)} (hr : LaysAny B r) :
    LaysAll B (do
      let ns ← r
      if ns.isEmpty then failure else return ns) := by
  refine fun F => hr.begin fun ns => ?_
  split
  · exact .fail
  · exact .result fun q h => h.upon (by simpa using ‹¬ns.isEmpty = true›)

theorem laysAll_importList (n : Nat) : LaysAll B (importList n) :=
  laysAll_nonempty (laysAny_separated (laysOne_importItem n) _ n)

theorem laysOne_whole {r : Rule Node} (hr : LaysOne B r) : LaysOne B (whole r) :=
  fun _ => hr.begin fun _ => stays_peek.test (.here rfl) .fail

theorem laysOne_namesStatement (kind word : String) (x : Context) :
    LaysOne B (namesStatement kind word x) := by
  refine fun F => (laysAll_keyword _).begin fun w => ?_
  refine (laysAll_child laysOne_identifier).add fun first => ?_
  exact (laysAny_repeated (laysAll_shiftChild laysOne_identifier) _ _).add fun rest => .of rfl

theorem laysOne_importStatement (x : Context) : LaysOne B (importStatement x) := fun _ =>
  (laysAll_keyword _).begin fun _ => (laysAll_importList _).add fun _ => .of rfl

theorem laysOne_fromImport (x : Context) : LaysOne B (fromImport x) := by
  refine fun F => (laysAll_keyword _).begin fun w => stays_skipNewlines.then fun _ => ?_
  refine (laysAny_repeated laysAll_shift _ _).add fun points => ?_
  refine (stays_atName _).then fun future => ?_
  refine (stays_atName _).then fun _ => ?_
  have hitems (source : List Node) : Keeps B (Upon B F (w ++ points ++ source)) (do
      let importWord ← keyword "import"
      skipNewlines
      let items ← if !(points.isEmpty && future) && (← atMark "*") then shift
        else if ← atMark "(" then
          let left ← shift
          let inner ← importList x.repeats
          pure (left ++ inner ++ (← mark ")"))
        else importList x.repeats
      return .of (.other "import_from_statement") (w ++ points ++ source ++ importWord ++ items))
      fun n => Upon B F [n] := by
    refine (laysAll_keyword _).add fun importWord => stays_skipNewlines.then fun _ => ?_
    refine (stays_atMark _).then fun _ => (stays_atMark _).then fun _ => ?_
    split
    · exact laysAll_shift.add fun star => .of rfl
    split
    · refine laysAll_shift.begin fun left => (laysAll_importList _).add fun inner => ?_
      exact (laysAll_mark _).add fun right => .join (.of rfl)
    · exact (laysAll_importList _).add fun items => .of rfl
  dsimp only
  split
  · exact laysAll_shift.add hitems
  split
  · exact (laysAll_child (laysOne_dottedName _)).add hitems
  · exact LaysAny.none.add hitems

section Statement

variable {x : Context} (hx : x.Lays B)

include hx

theorem laysAll_expressionRow : LaysAll B x.expressionRow := by
  refine fun F => (laysAll_child (hx.expr _)).begin fun first => ?_
  exact (laysAny_repeated (laysAll_shiftChild (hx.expr _)) _ _).add fun rest => .here rfl

theorem laysOne_type (bounded : Bool) : LaysOne B (x.type bounded) :=
  laysOne_typeRule hx.expr _ _ bounded

/-- An assignment takes in what stands on its left. -/
theorem keeps_assignment (n : Nat) (left : List Node) :
    Keeps B (Upon B F left) (assignment x n left) fun o => Upon B F (o.elim left fun a => [a]) := by
  induction n generalizing F left with
  | zero => exact .here rfl
  | succ n ih =>
    have hright {k : List Node → Option Node → Rule (List Node)}
        (hsome : ∀ values inner, k values (some inner) = pure [inner])
        (hnone : ∀ values, k values none = pure values) : LaysAll B (do
          if ← atName "yield" then child (yieldRule x.repeats x.expr)
          else
            let values ← x.expressions
            let inner? ← assignment x n values
            k values inner?) := by
      refine fun F => (stays_atName _).test (laysAll_child (laysOne_yieldRule hx.expr _) F) ?_
      refine (laysAll_expressions hx.expr _).begin fun values => (ih values).bind fun o => ?_
      cases o with
      | some inner =>
        rw [hsome]
        exact .here rfl
      | none =>
        rw [hnone]
        exact .here rfl
    refine stays_peek.then fun t => ?_
    dsimp only
    split
    · split
      · exact .fail_bind
      · refine laysAll_shift.add fun equals => ?_
        exact Lays.add (hright (by simp) (by simp)) fun value => .result fun _ h => h.of rfl
    · split
      · exact .fail_bind
      · refine laysAll_shift.add fun colon => (laysAll_child (laysOne_type hx _)).add fun type => ?_
        refine (laysAny_markThen (hright ?_ ?_).any).add fun value => .result fun _ h => h.of rfl
        · simp
        · simp
    · split
      · split
        · exact .fail_bind
        · refine laysAll_shift.add fun op => ?_
          exact Lays.add (hright (by simp) (by simp)) fun value => .result fun _ h => h.of rfl
      · exact .here rfl
    · exact .here rfl

theorem laysOne_expressionStatement : LaysOne B (expressionStatement x) := by
  refine fun F => (stays_atName _).test ?_ ?_
  · exact (laysOne_yieldRule hx.expr _).begin fun e => .of rfl
  refine (laysAll_expressions hx.expr _).begin fun left => ?_
  refine (keeps_assignment hx _ left).bind fun o => ?_
  cases o with
  | some whole => exact .of rfl
  | none => exact .of rfl

theorem laysOne_wordStatement (kind word : String) : LaysOne B (wordStatement kind word x) := by
  refine fun F => (laysAll_keyword _).begin fun w => stays_peek.test ?_ (.of rfl)
  exact (laysAll_expressions hx.expr _).add fun es => .of rfl

theorem laysOne_deleteStatement : LaysOne B (deleteStatement x) := fun _ =>
  (laysAll_keyword _).begin fun _ => (laysAll_expressions hx.expr _).add fun _ => .of rfl

theorem laysOne_assertStatement : LaysOne B (assertStatement x) := fun _ =>
  (laysAll_keyword _).begin fun _ => (laysAll_expressionRow hx).add fun _ => .of rfl

theorem laysOne_raiseStatement : LaysOne B (raiseStatement x) := by
  refine fun F => (laysAll_keyword _).begin fun w => ?_
  refine stays_peek.add (laysAll_expressions hx.expr _).any .none fun raised => ?_
  refine (stays_atName _).test ?_ (LaysAny.none.add fun _ => .of rfl)
  refine laysAll_shift.begin fun word => (laysAll_child (hx.expr _)).add fun cause => ?_
  exact .join (.of rfl)

theorem laysOne_printStatement : LaysOne B (printStatement x) := by
  refine fun F => (laysAll_keyword _).begin fun w => (stays_atMark _).test ?_ ?_
  · refine laysAll_shift.add fun arrow => (laysAll_child (hx.expr _)).add fun stream => ?_
    exact (laysAny_markThen (laysAny_separated (hx.expr _) _ _)).add fun rest => .of rfl
  · exact (laysAll_expressions hx.expr _).add fun es => .of rfl

theorem laysOne_execStatement : LaysOne B (execStatement x) := by
  refine fun F => (laysAll_keyword _).begin fun w => stays_peek.then fun t => ?_
  have hscope (code : List Node) : Keeps B (Upon B F (w ++ code)) (do
      let scope ← if ← atName "in" then
          let word ← shift
          pure (word ++ (← x.expressionRow))
        else pure []
      return .of (.other "exec_statement") (w ++ code ++ scope)) fun n => Upon B F [n] := by
    refine (stays_atName _).test ?_ (LaysAny.none.add fun _ => .of rfl)
    refine laysAll_shift.begin fun word => (laysAll_expressionRow hx).add fun row => ?_
    exact .join (.of rfl)
  split
  · exact (laysAll_child (laysOne_stringRule hx.expr _)).add hscope
  · exact (laysAll_child laysOne_identifier).add hscope

theorem laysOne_typeAlias : LaysOne B (typeAlias x) := by
  have htype := laysOne_type hx true
  refine fun F => (laysAll_keyword _).begin fun w => (laysAll_child htype).add fun left => ?_
  exact (laysAll_mark _).add fun equals => (laysAll_child htype).add fun right => .of rfl

theorem laysOne_simpleStatement : LaysOne B (simpleStatement x) := by
  refine fun F => stays_peek.then fun t => ?_
  have hexpression := laysOne_expressionStatement hx
  have hword {name : String} : Keeps B F (do return .of (.other name) (← shift))
      fun n => Upon B F [n] := laysAll_shift.begin fun _ => .of rfl
  split
  · exact laysOne_importStatement x F
  · exact laysOne_fromImport x F
  · exact laysOne_assertStatement hx F
  · exact laysOne_wordStatement hx _ _ F
  · exact laysOne_deleteStatement hx F
  · exact laysOne_raiseStatement hx F
  · exact hword
  · exact hword
  · exact hword
  · exact laysOne_namesStatement _ _ x F
  · exact laysOne_namesStatement _ _ x F
  · refine stays_peekSecond?.test (laysOne_printStatement hx F) ?_
    exact (laysOne_whole hexpression F).orElse (laysOne_printStatement hx F)
  · exact (laysOne_whole hexpression F).orElse (laysOne_execStatement hx F)
  · exact (laysOne_whole (laysOne_typeAlias hx) F).orElse (hexpression F)
  · exact hexpression F

theorem laysAll_simpleStatements (n : Nat) : LaysAll B (simpleStatements x n) := by
  induction n with
  | zero => exact fun F => .fail
  | succ n ih =>
    refine fun F => (laysAll_child (laysOne_simpleStatement hx)).begin fun first => ?_
    refine (stays_atMark _).test ?_ ((laysAll_token _).add fun line => .here rfl)
    refine laysAll_shift.add fun semicolon => (stays_atKind _).test ?_ ?_
    · exact laysAll_shift.add fun line => .here rfl
    · exact ih.add fun rest => .here rfl

/-! ## Blocks -/

theorem laysAll_suite : LaysAll B (suite x) := by
  refine fun F => (laysAll_mark _).begin fun colon => stays_peek.then fun t => ?_
  have hblock (body : List Node) : Keeps B (Upon B (Upon B F colon) body)
      (pure (colon ++ [block body])) fun ns => Upon B F ns := .result fun _ h => (h.of rfl).join
  split
  · exact laysAll_shift.begin hblock
  · refine laysAll_shift.begin fun start => (laysAny_repeated hx.statement _ _).add fun inner => ?_
    exact (laysAll_token _).add fun stop => .pure_bind (hblock _)
  · exact (laysAll_simpleStatements hx _).begin hblock

theorem laysOne_plainClause (kind word : String) : LaysOne B (plainClause kind word x) := fun _ =>
  (laysAll_keyword _).begin fun _ => (laysAll_suite hx).add fun _ => .of rfl

theorem laysAny_optionalClause (kind word : String) : LaysAny B (optionalClause kind word x) :=
  .ahead (stays_atName _) (laysAll_childAs (laysOne_plainClause hx _ _) _).any .none

end Statement

/-! ## Conditions -/

/-- A keyword that takes room comes first of all but extras. -/
structure Headed (ns : List Node) : Prop where
  exists_keyword : ∃ extras k rest, ns = extras ++ k :: rest ∧
    (∀ m ∈ extras, m.kind.isExtra = true ∧ m.label = none) ∧
    k.kind.isExtra = false ∧ k.children = [] ∧ k.start < k.stop

theorem Headed.append {ns : List Node} (h : Headed ns) (ms : List Node) : Headed (ns ++ ms) := by
  obtain ⟨extras, k, rest, rfl, hk⟩ := h
  exact ⟨extras, k, rest ++ ms, by simp, hk⟩

/-- A branch over such nodes starts with the keyword and has all their labels. -/
theorem Headed.branch {ns : List Node} (h : Headed ns) (kind : Kind) :
    (∃ k rest, (Node.of kind ns).children = k :: rest ∧ k.kind.isExtra = false ∧ k.children = [] ∧
      k.start < k.stop) ∧
      (Node.of kind ns).children.filterMap Node.label = ns.filterMap Node.label := by
  obtain ⟨extras, k, rest, rfl, hextras, hk, hleaf, hlt⟩ := h
  have hchildren : (Node.of kind (extras ++ k :: rest)).children = k :: rest := by
    show (extras ++ k :: rest).dropWhile (fun c => c.kind.isExtra) = k :: rest
    rw [List.dropWhile_append_of_pos fun m hm => (hextras m hm).1]
    exact List.dropWhile_cons_of_neg (by simp [hk])
  have hnone : extras.filterMap Node.label = [] :=
    List.filterMap_eq_nil_iff.mpr fun m hm => (hextras m hm).2
  rw [hchildren]
  exact ⟨⟨k, rest, rfl, hk, hleaf, hlt⟩, by rw [List.filterMap_append, hnone, List.nil_append]⟩

/-- A token that is taken as it is has no label. -/
theorem tells_shift : Tells B shift fun ns => ns.filterMap Node.label = [] := by
  intro q ts a us hts h
  obtain ⟨t, rfl, rfl⟩ := h.exists_cons_of_shift
  refine List.filterMap_eq_nil_iff.mpr fun m hm => ?_
  rcases List.mem_append.mp hm with hm | hm
  · exact (hts.head.2.1.leading m hm).1.2
  · rw [List.mem_singleton.mp hm]
    exact t.kind_leaf.2.1

/-- A rule that goes on only if it has seen what it wants. -/
theorem Reads.of_ahead {α : Type} {r : Rule α} {c : Token → Bool} {ts us : List Token} {a : α}
    (h : Reads (do if ← (do return c (← peek)) then r else failure) ts a us) :
    ∃ t rest, ts = t :: rest ∧ c t = true ∧ Reads r ts a us := by
  obtain ⟨_, _, hahead, h⟩ := h.of_bind
  cases ts with
  | nil => cases hahead
  | cons t ts =>
    cases hahead
    split at h
    · exact ⟨t, ts, rfl, ‹_›, h⟩
    · cases h

theorem tells_mark (text : String) :
    Tells B (mark text) fun ns => ns.filterMap Node.label = [] := by
  intro q ts a us hts h
  obtain ⟨_, vs, hskip, h⟩ := h.of_bind
  obtain ⟨q', -, hvs⟩ := stays_skipNewlines (fun _ => True) trivial hts hskip
  obtain ⟨t, vs, rfl, -, h⟩ := h.of_ahead
  exact tells_shift hvs h

theorem tells_keyword (text : String) :
    Tells B (keyword text) fun ns => Headed ns ∧ ns.filterMap Node.label = [] := by
  intro q ts a us hts h
  obtain ⟨_, vs, hskip, h⟩ := h.of_bind
  obtain ⟨q', -, hvs⟩ := stays_skipNewlines (fun _ => True) trivial hts hskip
  obtain ⟨t, vs, rfl, hname, h⟩ := h.of_ahead
  refine ⟨?_, tells_shift hvs h⟩
  obtain ⟨_, heq, rfl⟩ := h.exists_cons_of_shift
  cases heq
  have ht := hvs.head.2.1
  obtain ⟨hplain, -, hstart, hstop, hleaf⟩ := t.kind_leaf
  have hlt : t.leaf.start < t.leaf.stop := by
    rw [hstart, hstop]
    exact ht.name_lt text (by simpa [Token.isName] using hname)
  exact ⟨t.leading, t.leaf, [], rfl, fun m hm => (ht.leading m hm).1, (Kind.isPlain_facts hplain).1,
    hleaf, hlt⟩

theorem tells_childAs (l : Label) (r : Rule Node) :
    Tells B (childAs l r) fun ns => ns.filterMap Node.label = [l] := by
  intro q ts a us hts h
  obtain ⟨_, _, hget, h⟩ := h.of_bind
  cases hget
  obtain ⟨n, _, -, h⟩ := h.of_bind
  obtain ⟨rfl, rfl⟩ := h.of_pure
  have hnone : (leadingOf ts).filterMap Node.label = [] :=
    List.filterMap_eq_nil_iff.mpr fun m hm => (hts.leadingOf m hm).1.2
  simp [List.filterMap_append, hnone]

/-- Whatever the statements of a block are, the block has no label. -/
theorem tells_suite (x : Context) : Tells B (suite x) fun ns => ns.filterMap Node.label = [] := by
  intro q ts a us hts h
  obtain ⟨colon, _, hcolon, h⟩ := h.of_bind
  obtain ⟨t, _, -, h⟩ := h.of_bind
  have hblock : ∃ body, a = colon ++ [block body] := by
    dsimp only at h
    split at h
    · obtain ⟨body, _, -, h⟩ := h.of_bind
      exact ⟨body, h.of_pure.1⟩
    · obtain ⟨start, _, -, h⟩ := h.of_bind
      obtain ⟨inner, _, -, h⟩ := h.of_bind
      obtain ⟨stop, _, -, h⟩ := h.of_bind
      exact ⟨start ++ inner ++ stop, h.of_pure.1⟩
    · obtain ⟨body, _, -, h⟩ := h.of_bind
      exact ⟨body, h.of_pure.1⟩
  obtain ⟨body, rfl⟩ := hblock
  have hlabel : (block body).label = none := rfl
  simp [List.filterMap_append, tells_mark ":" hts hcolon, hlabel]

theorem tells_repeated {part : Rule (List Node)} {c : List Node → Prop} (hnil : c [])
    (happend : ∀ {ms ns}, c ms → c ns → c (ms ++ ns)) (hpart : LaysAll B part)
    (hc : Tells B part c) (begins : Token → Bool) (n : Nat) :
    Tells B (repeated begins part n) c := by
  induction n with
  | zero =>
    intro q ts a us hts h
    rw [h.of_pure.1]
    exact hnil
  | succ n ih =>
    intro q ts a us hts h
    obtain ⟨t, vs, hpeek, h⟩ := h.of_bind
    obtain ⟨q, -, hvs⟩ := stays_peek (fun _ => True) trivial hts hpeek
    split at h
    · obtain ⟨first, ws, hfirst, h⟩ := h.of_bind
      obtain ⟨q', -, hws⟩ := hpart (fun _ => True) trivial hvs hfirst
      obtain ⟨rest, _, hrest, h⟩ := h.of_bind
      rw [h.of_pure.1]
      exact happend (hc hvs hfirst) (ih hws hrest)
    · rw [h.of_pure.1]
      exact hnil

/-- A keyword comes first, and one part is labelled as the condition. -/
structure Guarded (ns : List Node) : Prop where
  headed : Headed ns
  labels : ns.filterMap Node.label = [.condition]

/-- All that is labelled is an alternative. -/
def Alternatives (ns : List Node) : Prop := ∀ l ∈ ns.filterMap Node.label, l = .alternative

theorem Alternatives.nil : Alternatives [] := by simp [Alternatives]

theorem Alternatives.append {ms ns : List Node} (hm : Alternatives ms) (hn : Alternatives ns) :
    Alternatives (ms ++ ns) := by
  intro l hl
  rw [List.filterMap_append] at hl
  rcases List.mem_append.mp hl with hl | hl
  · exact hm l hl
  · exact hn l hl

theorem Alternatives.exists_replicate {ns : List Node} (h : Alternatives ns) :
    ∃ i, ns.filterMap Node.label = List.replicate i .alternative :=
  ⟨_, List.eq_replicate_of_mem h⟩

theorem tells_alternative (r : Rule Node) : Tells B (childAs .alternative r) Alternatives := by
  intro q ts a us hts h l hl
  rw [tells_childAs _ _ hts h] at hl
  exact List.mem_singleton.mp hl

theorem tells_elifs (hpart : LaysOne B (elifClause x)) (n : Nat) :
    Tells B (repeated (·.isName "elif") (childAs .alternative (elifClause x)) n) Alternatives :=
  tells_repeated .nil .append (laysAll_childAs hpart _) (tells_alternative _) _ n

theorem tells_optionalClause (kind word : String) (x : Context) :
    Tells B (optionalClause kind word x) Alternatives := by
  intro q ts a us hts h
  obtain ⟨_, vs, hname, h⟩ := h.of_bind
  obtain ⟨q', -, hvs⟩ := stays_atName word (fun _ => True) trivial hts hname
  split at h
  · exact tells_alternative _ hvs h
  · rw [h.of_pure.1]
    exact .nil

section Statement

variable {x : Context} (hx : x.Lays B)

include hx

theorem keeps_guarded (word : String) :
    Keeps B F (guarded word x) fun ns q => Upon B F ns q ∧ Guarded ns := by
  refine (laysAll_keyword word F).bind_tells (tells_keyword word) fun w hw => ?_
  refine (laysAll_childAs (hx.expr _) _).any.add_tells (tells_childAs _ _) fun condition hc => ?_
  refine (laysAll_suite hx).any.add_tells (tells_suite x) fun body hbody => ?_
  refine .result fun q h => ⟨h, (hw.1.append _).append _, ?_⟩
  simp [List.filterMap_append, hw.2, hc, hbody]

theorem laysOne_elifClause : LaysOne B (elifClause x) := by
  refine fun F => (keeps_guarded hx "elif").bind fun ns => .result fun q ⟨⟨p, hp, h⟩, hns⟩ => ?_
  refine ⟨p, hp, h.branch rfl nofun fun _ => ?_⟩
  rw [(hns.headed.branch _).2, hns.labels]

theorem laysOne_ifStatement : LaysOne B (ifStatement x) := by
  have helif := laysOne_elifClause hx
  have helifs := laysAny_repeated (laysAll_childAs helif .alternative) (·.isName "elif") x.repeats
  refine fun F => (keeps_guarded hx "if").bind fun first => .given fun hfirst => ?_
  refine helifs.add_tells (tells_elifs helif _) fun elifs he => ?_
  refine (laysAny_optionalClause hx _ _).add_tells (tells_optionalClause _ _ x) fun other ho => ?_
  refine .result fun q ⟨p, hp, h⟩ => ⟨p, hp, h.branch rfl (fun _ => ?_) nofun⟩
  obtain ⟨hkeyword, hlabels⟩ := ((hfirst.headed.append elifs).append other).branch .ifStatement
  obtain ⟨i, hi⟩ := (he.append ho).exists_replicate
  refine ⟨hkeyword, i, ?_⟩
  rw [hlabels, List.append_assoc, List.filterMap_append, hfirst.labels, hi]
  rfl

theorem laysOne_whileStatement : LaysOne B (whileStatement x) := by
  refine fun F => (keeps_guarded hx "while").bind fun first => .given fun _ => ?_
  exact (laysAny_optionalClause hx _ _).add fun other => .of rfl

/-! ## Other compound statements -/

theorem keeps_forStatement (begun : List Node) :
    Keeps B (Perhaps B F begun) (forStatement x begun) fun n => Upon B F [n] := by
  refine (laysAll_loopHead hx.expr _ (laysAll_expressions hx.expr _)).addTo fun loop => ?_
  refine (laysAll_suite hx).add fun body => ?_
  exact (laysAny_optionalClause hx _ _).add fun other => .of rfl

theorem laysOne_exceptClause : LaysOne B (exceptClause x) := by
  refine fun F => (laysAll_keyword _).begin fun w => ?_
  refine (stays_atMark _).add laysAll_shift.any .none fun star => ?_
  refine (laysAny_separated (hx.expr _) _ _).add fun caught => ?_
  exact (laysAll_suite hx).add fun body => .of rfl

theorem laysOne_tryStatement : LaysOne B (tryStatement x) := by
  refine fun F => (laysAll_keyword _).begin fun w => (laysAll_suite hx).add fun body => ?_
  refine (laysAny_repeated (laysAll_child (laysOne_exceptClause hx)) _ _).add fun handlers => ?_
  have hfinal (otherwise : List Node) :
      Keeps B (Upon B F (w ++ body ++ handlers ++ otherwise)) (do
        let final ← optionalClause "finally_clause" "finally" x
        if handlers.isEmpty && final.isEmpty then failure
        return .of (.other "try_statement") (w ++ body ++ handlers ++ otherwise ++ final))
        fun n => Upon B F [n] := by
    refine (laysAny_optionalClause hx _ _).add fun final => ?_
    split
    · exact .fail_bind
    · exact .of rfl
  split
  · exact LaysAny.none.add hfinal
  · exact (laysAny_optionalClause hx _ _).add hfinal

theorem keeps_withStatement (begun : List Node) :
    Keeps B (Perhaps B F begun) (withStatement x begun) fun n => Upon B F [n] := by
  refine (laysAll_keyword _).addTo fun w => (laysAny_separated (hx.expr _) _ _).add fun items => ?_
  split
  · exact .fail_bind
  · exact (laysAll_suite hx).add fun body => .of rfl

theorem laysOne_typeParameter : LaysOne B (typeParameter x) := by
  refine fun F => (laysAll_child (laysOne_type hx _)).begin fun type => ?_
  exact (laysAny_markThen (laysAll_child (hx.expr _)).any).add fun default => .of rfl

theorem laysAny_typeParameters : LaysAny B (typeParameters x) := by
  refine fun F => (stays_atMark _).test ?_ (LaysAny.none F)
  refine laysAll_shift.begin fun left => ?_
  refine (laysAny_separated (laysOne_typeParameter hx) _ _).add fun inner => ?_
  split
  · exact .fail_bind
  · exact (laysAll_mark _).add fun right => .result fun _ => .inr

theorem keeps_functionDefinition (begun : List Node) :
    Keeps B (Perhaps B F begun) (functionDefinition x begun) fun n => Upon B F [n] := by
  have htype (bounded : Bool) (text : String) :
      LaysAny B (markThen text (child (x.type bounded))) :=
    laysAny_markThen (laysAll_child (laysOne_type hx bounded)).any
  refine (laysAll_keyword _).addTo fun w => (laysAll_child laysOne_identifier).add fun name => ?_
  refine (laysAny_typeParameters hx).add fun types => (laysAll_mark _).add fun left => ?_
  refine (laysAny_separated (laysOne_parameter hx.expr (htype _ _)) _ _).add fun parameters => ?_
  refine (laysAll_mark _).add fun right => (htype _ _).add fun result => ?_
  exact (laysAll_suite hx).add fun body => .of rfl

theorem laysOne_classDefinition : LaysOne B (classDefinition x) := by
  refine fun F => (laysAll_keyword _).begin fun w => ?_
  refine (laysAll_child laysOne_identifier).add fun name => ?_
  refine (laysAny_typeParameters hx).add fun types => ?_
  refine (stays_atMark _).add (laysAll_child (laysOne_arguments hx.expr _)).any .none ?_
  intro bases
  exact (laysAll_suite hx).add fun body => .of rfl

theorem laysOne_asyncStatement : LaysOne B (asyncStatement x) := by
  refine fun F => (laysAll_keyword _).begin fun w => stays_peek.then fun t => ?_
  split
  · exact (keeps_functionDefinition hx w).from fun _ => .inr
  · exact (keeps_forStatement hx w).from fun _ => .inr
  · exact (keeps_withStatement hx w).from fun _ => .inr
  · exact .fail

theorem laysAll_decorator : LaysAll B (decorator x) := by
  refine fun F => (laysAll_mark _).begin fun sign => (laysAll_child (hx.expr _)).add fun name => ?_
  exact (laysAll_token _).add fun line => .here rfl

theorem laysOne_decoratedDefinition : LaysOne B (decoratedDefinition x) := by
  refine fun F => (laysAny_repeated (laysAll_decorator hx) _ _).begin fun decorators => ?_
  refine stays_peek.then fun t => ?_
  split
  · exact (laysAll_child (laysOne_classDefinition hx)).addTo fun definition => .of rfl
  · exact (laysAll_child (laysOne_asyncStatement hx)).addTo fun definition => .of rfl
  · have hdef := laysOne_of_perhaps fun _ => keeps_functionDefinition hx []
    exact (laysAll_child hdef).addTo fun definition => .of rfl

theorem laysOne_caseClause : LaysOne B (caseClause x) := by
  refine fun F => (laysAll_keyword _).begin fun w => ?_
  refine (laysAny_separated (laysOne_casePattern hx.expr _) _ _).add fun patterns => ?_
  split
  · exact .fail_bind
  have hbody (condition : List Node) : Keeps B (Upon B F (w ++ patterns ++ condition)) (do
      return .of (.other "case_clause") (w ++ patterns ++ condition ++ (← suite x)))
      fun n => Upon B F [n] := (laysAll_suite hx).add fun body => .of rfl
  refine (stays_atName _).test ?_ (LaysAny.none.add hbody)
  exact laysAll_shift.begin fun word => (laysAll_child (hx.expr _)).add fun e => .join (hbody _)

theorem laysOne_matchStatement : LaysOne B (matchStatement x) := by
  refine fun F => (laysAll_keyword _).begin fun w => stays_peek.test .fail_bind ?_
  refine (laysAny_separated (hx.expr _) _ _).add fun subjects => ?_
  refine (laysAll_mark _).add fun colon => ?_
  have hblock (body : List Node) : Keeps B (Upon B (Upon B F (w ++ subjects ++ colon)) body)
      (pure (.of (.other "match_statement") (w ++ subjects ++ colon ++ [block body])))
      fun n => Upon B F [n] := .result fun _ h => ((h.of rfl).join).of rfl
  refine (stays_atKind _).test ?_ ((laysAll_token _).begin hblock)
  refine laysAll_shift.begin fun start => ?_
  refine (laysAny_repeated (laysAll_child (laysOne_caseClause hx)) _ _).add fun cases => ?_
  exact (laysAll_token _).add fun stop => .pure_bind (hblock _)

theorem laysAll_statementRule : LaysAll B (statementRule x) := by
  have hline := laysAll_simpleStatements hx x.repeats
  refine fun F => stays_peek.then fun t => ?_
  dsimp only
  split
  · exact laysAll_child (laysOne_ifStatement hx) F
  · exact laysAll_child (laysOne_whileStatement hx) F
  · exact laysAll_child (laysOne_of_perhaps fun _ => keeps_forStatement hx []) F
  · exact laysAll_child (laysOne_tryStatement hx) F
  · exact laysAll_child (laysOne_of_perhaps fun _ => keeps_withStatement hx []) F
  · exact laysAll_child (laysOne_of_perhaps fun _ => keeps_functionDefinition hx []) F
  · exact laysAll_child (laysOne_classDefinition hx) F
  · exact (laysAll_child (laysOne_asyncStatement hx) F).orElse (hline F)
  · exact (laysAll_child (laysOne_matchStatement hx) F).orElse (hline F)
  · exact laysAll_child (laysOne_decoratedDefinition hx) F
  · exact hline F

end Statement

theorem laysAll_statement (hexpr : ∀ level, LaysOne B (expr level)) (repeats n : Nat) :
    LaysAll B (statement repeats expr n) := by
  induction n with
  | zero => exact fun F => .fail
  | succ n ih => exact laysAll_statementRule ⟨hexpr, ih⟩

end Foregone.Rule

namespace Foregone

/-- The tree of a whole source: what it is made of lies in order. -/
structure Node.IsModule (B : Nat → Prop) (tree : Node) : Prop where
  kind : tree.kind = .other "module"
  row : ∃ p q, Row p q tree.children
  laid : ∀ c ∈ tree.children, c.Laid B

theorem Rule.keeps_fullText {B : Nat → Prop} (repeats : Nat) :
    Keeps B (fun _ => True) (fullText repeats) fun tree _ => tree.IsModule B := by
  have hstatement := laysAll_statement (B := B) (laysOne_expression (repeats + 1)) repeats repeats
  refine (laysAny_repeated hstatement _ repeats).begin fun body => ?_
  refine (laysAll_token _).addTo fun stop => .result fun q ⟨p, _, h⟩ => ?_
  exact ⟨rfl, ⟨p, q, h.row⟩, h.laid⟩

end Foregone
