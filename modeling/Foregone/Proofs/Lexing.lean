import Foregone.Condition
import Foregone.Proofs.Scanning

/-! # The tokens of a written condition

What is written is cut into tokens where it was put together: every word, number and
operator ends where the next one begins, and brackets are closed in order. A piece of text
is read in front of what follows it, so that the pieces can be put together. -/

namespace Foregone

/-! ## One token -/

namespace Lexer

open Scan

/-- The state between two tokens: the tokens so far are of the given kinds and had
nothing in front of them, nothing is set aside, and no block is open. -/
structure Between (st : State) (kinds : List TokenKind) (depth : Nat) : Prop where
  spells : st.tokens.reverse.map Token.kind = kinds
  bare : ∀ t ∈ st.tokens, t.leading = []
  extras : st.extras = []
  indents : st.indents = []
  modes : st.modes = List.replicate depth .bracket
  line : st.line = .begun ∨ kinds = [] ∧ depth = 0

namespace Between

variable {st : State} {kinds : List TokenKind} {depth : Nat}

theorem start : Between {} [] 0 := ⟨rfl, by simp, rfl, rfl, rfl, .inr ⟨rfl, rfl⟩⟩

theorem withOffset (h : Between st kinds depth) (offset : Nat) :
    Between { st with offset := offset } kinds depth :=
  ⟨h.spells, h.bare, h.extras, h.indents, h.modes, h.line⟩

theorem withColumn (h : Between st kinds depth) (column : Nat) :
    Between { st with column := column } kinds depth :=
  ⟨h.spells, h.bare, h.extras, h.indents, h.modes, h.line⟩

theorem withDepth (h : Between st kinds depth) (hne : kinds ≠ []) (depth' : Nat) :
    Between { st with modes := List.replicate depth' .bracket } kinds depth' :=
  ⟨h.spells, h.bare, h.extras, h.indents, rfl, .inl (h.line.resolve_right fun hno => hne hno.1)⟩

theorem begun (h : Between st kinds depth) : Between st.beginToken kinds depth ∧
    st.beginToken.line = .begun := by
  by_cases hmodes : st.modes = []
  · have hclose : st.closeBlocks st.column = st := by simp [State.closeBlocks, h.indents]
    have hst : st.beginToken = { st with line := .begun } := by
      simp [State.beginToken, hmodes, hclose]
    rw [hst]
    exact ⟨⟨h.spells, h.bare, h.extras, h.indents, h.modes, .inl rfl⟩, rfl⟩
  · have hst : st.beginToken = st := by simp [State.beginToken, hmodes]
    rw [hst]
    refine ⟨h, h.line.resolve_right ?_⟩
    rintro ⟨-, rfl⟩
    exact hmodes h.modes

/-- One more token. -/
theorem token (h : Between st kinds depth) (kind : TokenKind) (bytes : Nat) :
    Between (st.beginToken.emitHere kind bytes) (kinds ++ [kind]) depth := by
  obtain ⟨hb, hline⟩ := h.begun
  refine ⟨?_, ?_, rfl, hb.indents, hb.modes, .inl hline⟩
  · rw [← hb.spells]
    simp [State.emitHere, State.emit]
  · intro t ht
    rcases List.mem_cons.mp ht with rfl | ht
    · exact hb.extras
    · exact hb.bare t ht

theorem passBlank (h : Between st kinds depth) (c : Char) :
    Between (st.passBlank c) kinds depth := by
  unfold State.passBlank
  split
  · split
    · exact h.withColumn _
    · split
      · exact h.withColumn _
      · split
        · exact h.withColumn _
        · exact h
  · exact h

theorem step_eq (h : Between st kinds depth) (g : Glyph) (rest : List Glyph) :
    step st g rest = codeStep st g rest := by
  cases depth with
  | zero => rw [step, h.modes]; rfl
  | succ depth => rw [step, h.modes]; rfl

/-- Outside of strings no lambda has a colon of its own to wait for. -/
theorem nameStep_eq (h : Between st kinds depth) (g : Glyph) (rest : List Glyph) {n : Nat}
    (hn : run Text.isIdentifierPart rest = n) :
    nameStep st (g :: rest) = some
      (st.beginToken.emitHere (.name (textOf (n + 1) (g :: rest))) (bytesOf (n + 1) (g :: rest)),
        n) := by
  subst hn
  simp only [nameStep, List.drop_succ_cons, List.drop_zero, Nat.add_sub_cancel]
  split
  · rename_i hmodes
    rw [(h.token _ _).modes] at hmodes
    cases depth with
    | zero => cases hmodes
    | succ depth => cases hmodes
  · rfl

theorem beginsFormat_eq (h : Between st kinds depth) (text : String) :
    beginsFormat st text = false := by
  cases depth with
  | zero => rw [beginsFormat, h.modes]; rfl
  | succ depth => rw [beginsFormat, h.modes]; rfl

theorem markStep_open (h : Between st kinds depth) :
    markStep st "(" = some ({ st.beginToken.emitHere (.mark "(") 1 with
      modes := List.replicate (depth + 1) .bracket }, 0) := by
  have hformat := h.begun.1.beginsFormat_eq "("
  have hmodes := h.begun.1.modes
  simp only [markStep, hformat]
  rw [hmodes]
  rfl

theorem markStep_close (h : Between st kinds (depth + 1)) :
    markStep st ")" = some ({ st.beginToken.emitHere (.mark ")") 1 with
      modes := List.replicate depth .bracket }, 0) := by
  have hformat := h.begun.1.beginsFormat_eq ")"
  have hmodes := h.begun.1.modes
  simp only [markStep, hformat]
  rw [hmodes]
  rfl

theorem markStep_operator (h : Between st kinds depth) {text : String}
    (hmark : text ∈ operatorMarks) :
    markStep st text = some (st.beginToken.emitHere (.mark text) text.length, text.length - 1) := by
  have hformat := h.begun.1.beginsFormat_eq text
  simp only [markStep, hformat, Bool.false_eq_true, if_false]
  -- brackets, braces and the colon are no operators
  split
  case h_11 => rfl
  all_goals exact absurd hmark (by decide)

end Between

/-- Reading `text` in front of `rest` puts out tokens of the given kinds and changes the
number of open brackets. -/
def Lexes (text : List Char) (kinds : List TokenKind) (depth depth' : Nat)
    (rest : List Glyph) : Prop :=
  ∀ st before, Between st before depth → ∃ st', Between st' (before ++ kinds) depth' ∧
    tokensFrom st 0 (text.map Glyph.narrow ++ rest) = tokensFrom st' 0 rest

theorem tokensFrom_skip (st : State) (n : Nat) (gs : List Glyph) :
    ∃ offset, tokensFrom st n gs = tokensFrom { st with offset := offset } 0 (gs.drop n) := by
  induction n generalizing st gs with
  | zero => exact ⟨st.offset, rfl⟩
  | succ n ih =>
    cases gs with
    | nil => exact ⟨st.offset, rfl⟩
    | cons g gs => exact ih _ gs

section

variable (st : State) (g : Glyph) (rest : List Glyph) (hbegins : beginsToken g.char = true)
  (hquote : delimiter? (g :: rest) = none)

include hbegins hquote

theorem codeStep_number (hnumber : startsNumber (g :: rest) = true) :
    codeStep st g rest = numberStep st (g :: rest) := by
  simp [codeStep, beginsToken_facts hbegins, hquote, hnumber]

theorem codeStep_name (hnumber : startsNumber (g :: rest) = false)
    (hstart : Text.isIdentifierStart g.char = true) :
    codeStep st g rest = nameStep st (g :: rest) := by
  simp [codeStep, beginsToken_facts hbegins, hquote, hnumber, hstart]

theorem codeStep_mark {text : String} (hnumber : startsNumber (g :: rest) = false)
    (hstart : Text.isIdentifierStart g.char = false) (hmark : mark? (g :: rest) = some text) :
    codeStep st g rest = markStep st text := by
  simp [codeStep, beginsToken_facts hbegins, hquote, hnumber, hstart, hmark]

end

namespace Lexes

variable {text : List Char} {kinds : List TokenKind} {depth depth' : Nat} {rest : List Glyph}

theorem append {a b : List Char} {ka kb : List TokenKind} {d d' d'' : Nat}
    (ha : Lexes a ka d d' (b.map Glyph.narrow ++ rest)) (hb : Lexes b kb d' d'' rest) :
    Lexes (a ++ b) (ka ++ kb) d d'' rest := by
  intro st before h
  obtain ⟨st₁, h₁, heq₁⟩ := ha st before h
  obtain ⟨st₂, h₂, heq₂⟩ := hb st₁ _ h₁
  refine ⟨st₂, by rwa [← List.append_assoc], ?_⟩
  rw [List.map_append, List.append_assoc, heq₁, heq₂]

/-- One step that takes exactly the given characters. -/
theorem of_step {c : Char} {cs : List Char}
    (h : ∀ st before, Between st before depth → ∃ st',
      codeStep st (Glyph.narrow c) (cs.map Glyph.narrow ++ rest) = some (st', cs.length) ∧
      Between st' (before ++ kinds) depth') :
    Lexes (c :: cs) kinds depth depth' rest := by
  intro st before hst
  obtain ⟨st', hstep, hst'⟩ := h st before hst
  obtain ⟨offset, hskip⟩ := tokensFrom_skip
    { st' with offset := st'.offset + (Glyph.narrow c).width } cs.length
    (cs.map Glyph.narrow ++ rest)
  refine ⟨_, hst'.withOffset offset, ?_⟩
  rw [List.map_cons, List.cons_append, tokensFrom, hst.step_eq, hstep]
  simpa using hskip

theorem blank : Lexes [' '] [] depth depth rest := by
  refine of_step fun st before h => ⟨st.passBlank ' ', ?_, ?_⟩
  · simp [codeStep, Glyph.narrow, isGap, Text.isBlank]
  · rw [List.append_nil]
    exact h.passBlank ' '

/-- A word that something else than a word follows. -/
theorem word {c : Char} {cs : List Char} (hc : isWordStart c = true)
    (hcs : cs.all isWordPart = true) (hrest : Breaks rest) :
    Lexes (c :: cs) [.name (String.ofList (c :: cs))] depth depth rest := by
  obtain ⟨hpart, hdigit, hstart⟩ := wordStart_facts hc
  obtain ⟨hbegins, -, hpoint, -⟩ := word_facts hpart
  have hall : ∀ c' ∈ c :: cs, isWordPart c' = true := by
    simpa [hpart] using hcs
  have hquote := delimiter?_of_word hall hrest
  have hnumber : startsNumber ((c :: cs).map Glyph.narrow ++ rest) = false := by
    simp [startsNumber, Glyph.narrow, hdigit, hpoint]
  have hrun : run Text.isIdentifierPart (cs.map Glyph.narrow ++ rest) = cs.length :=
    run_append (fun c' hc' => (word_facts (hall c' (List.mem_cons_of_mem _ hc'))).2.1)
      (hrest.headIs rfl rfl)
  refine of_step fun st before h => ?_
  have htext : textOf (cs.length + 1) (Glyph.narrow c :: (cs.map Glyph.narrow ++ rest)) =
      String.ofList (c :: cs) := textOf_append (c :: cs) rest
  refine ⟨_, ?_, h.token _ (bytesOf (cs.length + 1) ((c :: cs).map Glyph.narrow ++ rest))⟩
  rw [codeStep_name st (Glyph.narrow c) (cs.map Glyph.narrow ++ rest) hbegins hquote hnumber hstart,
    h.nameStep_eq _ _ hrun, htext]
  rfl

/-- A number that something else than a word follows. -/
theorem integer {cs : List Char} (hne : cs ≠ []) (hcs : ∀ c ∈ cs, c.isDigit = true)
    (hrest : Breaks rest) : Lexes cs [.integer (String.ofList cs)] depth depth rest := by
  obtain ⟨c, cs, rfl⟩ := List.exists_cons_of_ne_nil hne
  have hdigit : c.isDigit = true := hcs c List.mem_cons_self
  have hall : ∀ c' ∈ c :: cs, isWordPart c' = true := fun c' hc' =>
    isWordPart_of_isDigit (hcs c' hc')
  have hbegins := (word_facts (hall c List.mem_cons_self)).1
  have hquote := delimiter?_of_word hall hrest
  have hnumber : startsNumber ((c :: cs).map Glyph.narrow ++ rest) = true := by
    simp [startsNumber, Glyph.narrow, hdigit]
  have htext : textOf (cs.length + 1) (Glyph.narrow c :: (cs.map Glyph.narrow ++ rest)) =
      String.ofList (c :: cs) := textOf_append (c :: cs) rest
  have hlength : number (Glyph.narrow c :: (cs.map Glyph.narrow ++ rest)) =
      ⟨cs.length + 1, true⟩ := number_append hcs hrest
  refine of_step fun st before h => ?_
  refine ⟨_, ?_, h.token _ (bytesOf (cs.length + 1) ((c :: cs).map Glyph.narrow ++ rest))⟩
  rw [codeStep_number st (Glyph.narrow c) (cs.map Glyph.narrow ++ rest) hbegins hquote hnumber,
    numberStep]
  simp only [hlength, htext, if_true, Nat.add_sub_cancel]
  rfl

/-- The step that a mark makes, in front of what can't be a part of it. -/
theorem of_mark {text : String} {d d' : Nat} (hmark : text ∈ plainMarks)
    (hrest : headIs extendsMark rest = false)
    (h : ∀ st before, Between st before d → ∃ st',
      markStep st text = some (st', text.length - 1) ∧ Between st' (before ++ [.mark text]) d') :
    Lexes text.toList [.mark text] d d' rest := by
  obtain ⟨c, cs, hcs, hbegins, hdigit, hpoint, hstart, hflag⟩ := mark_facts hmark
  have hfind := mark?_append hmark hrest
  have hlength : text.length - 1 = cs.length := by
    rw [← String.length_toList, hcs]
    rfl
  rw [hcs] at hfind ⊢
  refine of_step fun st before hst => ?_
  obtain ⟨st', hstep, hst'⟩ := h st before hst
  refine ⟨st', ?_, hst'⟩
  have hquote := delimiter?_of_not_isFlag (Glyph.narrow c) (cs.map Glyph.narrow ++ rest) hflag
    (beginsToken_facts hbegins).1
  have hnumber : startsNumber (Glyph.narrow c :: (cs.map Glyph.narrow ++ rest)) = false := by
    simp [startsNumber, Glyph.narrow, hdigit, hpoint]
  rw [codeStep_mark st (Glyph.narrow c) (cs.map Glyph.narrow ++ rest) hbegins hquote hnumber hstart
    hfind, hstep, hlength]

/-- An operator. -/
theorem operator {text : String} (hmark : text ∈ operatorMarks)
    (hrest : headIs extendsMark rest = false) :
    Lexes text.toList [.mark text] depth depth rest :=
  of_mark (List.mem_cons_of_mem _ (List.mem_cons_of_mem _ hmark)) hrest fun _ _ h =>
    ⟨_, h.markStep_operator hmark, h.token _ _⟩

theorem openParenthesis (hrest : headIs extendsMark rest = false) :
    Lexes ['('] [.mark "("] depth (depth + 1) rest :=
  of_mark (by decide) hrest fun _ _ h =>
    ⟨_, h.markStep_open, (h.token _ _).withDepth (by simp) _⟩

theorem closeParenthesis (hrest : headIs extendsMark rest = false) :
    Lexes [')'] [.mark ")"] (depth + 1) depth rest :=
  of_mark (by decide) hrest fun _ _ h =>
    ⟨_, h.markStep_close, (h.token _ _).withDepth (by simp) _⟩

end Lexes

/-- At the end of the text the line is closed. -/
theorem finish_eq {st : State} {kinds : List TokenKind} (h : Between st kinds 0)
    (hne : kinds ≠ []) : ∃ ts, finish st = some ts ∧
      ts.map Token.kind = kinds ++ [.newline, .endOfText] ∧ ∀ t ∈ ts, t.leading = [] := by
  have hline : st.line = .begun := h.line.resolve_right fun hno => hne hno.1
  have hfinish : finish st = some (st.tokens.reverse ++
      [⟨.newline, st.last, st.last, []⟩, ⟨.endOfText, st.last, st.last, []⟩]) := by
    have hmodes : st.modes = [] := h.modes
    simp [finish, hmodes, State.endLine, hline, State.closeBlocks, State.emitLayout, State.emit,
      h.indents, h.extras]
  refine ⟨_, hfinish, by simp [← h.spells], ?_⟩
  simp only [List.mem_append, List.mem_reverse, List.mem_cons, List.not_mem_nil, or_false]
  rintro t (ht | rfl | rfl)
  · exact h.bare t ht
  · rfl
  · rfl

end Lexer

/-! ## Whole conditions -/

namespace Expr

open Lexer Scan

variable {f : Form} {e : Expr} {depth : Nat} {rest : List Glyph}

theorem lexes_unaryOp {op : UnaryOp} (h : op.isSupported = true)
    (hrest : headIs extendsMark rest = false) :
    Lexes op.text.toList [op.token] depth depth rest := by
  cases op with
  | not =>
    have hword : Lexes ['n', 'o', 't'] [.name "not"] depth depth ([' '].map Glyph.narrow ++ rest) :=
      .word (by decide) (by decide) (breaks_cons (.inl rfl) rest)
    exact hword.append .blank
  | plus => exact .operator (by decide) hrest
  | minus => exact .operator (by decide) hrest
  | unsupported => cases h

theorem lexes_binaryOp {op : BinaryOp} (h : op.isSupported = true) (rest : List Glyph) :
    Lexes (' ' :: op.symbol.toList ++ [' ']) [op.token] depth depth rest := by
  have hop : Lexes op.symbol.toList [op.token] depth depth ([' '].map Glyph.narrow ++ rest) := by
    cases op with
    | logical c =>
      have hbreaks : Breaks ([' '].map Glyph.narrow ++ rest) := breaks_cons (.inl rfl) rest
      cases c with
      | and => exact .word (by decide) (by decide) hbreaks
      | or => exact .word (by decide) (by decide) hbreaks
    | compare c =>
      have hmark : c.symbol ∈ operatorMarks := by cases c <;> decide
      exact .operator hmark rfl
    | arith a =>
      have hmark : a.symbol ∈ operatorMarks := by cases a <;> decide
      exact .operator hmark rfl
    | unsupported => cases h
  exact Lexes.append .blank (hop.append .blank)

/-- What is written first is never a part of the mark in front of it. -/
theorem Spelled.exists_text (h : Spelled f e) :
    ∃ c cs, e.text.toList = c :: cs ∧ extendsMark c = false := by
  have hword {c : Char} (hc : isWordPart c = true) : extendsMark c = false := (word_facts hc).2.2.2
  induction h with
  | @num n h =>
    obtain ⟨c, cs, hcs⟩ := List.exists_cons_of_ne_nil (Nat.toDigits_ne_nil (n := n) (b := 10))
    have hdigit : c.isDigit = true := Literal.isDigit_of_mem_toDigits c (hcs ▸ List.mem_cons_self)
    exact ⟨c, cs, (toList_text_num n true).trans hcs, hword (isWordPart_of_isDigit hdigit)⟩
  | bool b => cases b <;> exact ⟨_, _, rfl, by decide⟩
  | name h =>
    obtain ⟨⟨c, cs, hcs, hc, -⟩, -⟩ := isFreeName_cases h
    exact ⟨c, cs, hcs, hword (wordStart_facts hc).1⟩
  | paren h => exact ⟨'(', _, by rw [text, String.toList_append, String.toList_append]; rfl, rfl⟩
  | @unary op e hop _ _ =>
    cases op with
    | unsupported => cases hop
    | _ => exact ⟨_, _, by rw [text, String.toList_append]; rfl, by decide⟩
  | binary _ _ _ _ ihl _ | compare _ _ ihl _ | link _ _ ihl _ =>
    obtain ⟨c, cs, hcs, hc⟩ := ihl
    exact ⟨c, _, by simp only [text, String.toList_append, hcs]; rfl, hc⟩

theorem Spelled.headIs_text (h : Spelled f e) (rest : List Glyph) :
    headIs extendsMark (e.text.toList.map Glyph.narrow ++ rest) = false := by
  obtain ⟨c, cs, hcs, hc⟩ := h.exists_text
  rw [hcs]
  exact hc

theorem lexes_binary {op : BinaryOp} {l r : Expr} {chained : Bool} (hop : op.isSupported = true)
    (hl : ∀ rest, Breaks rest → Lexes l.text.toList l.tokens depth depth rest)
    (hr : Lexes r.text.toList r.tokens depth depth rest) :
    Lexes (binary op l r chained).text.toList (binary op l r chained).tokens depth depth rest := by
  have hright := Lexes.append (lexes_binaryOp hop _) hr
  have hwhole := Lexes.append (hl _ (breaks_cons (.inl rfl) _)) hright
  have htext : (binary op l r chained).text.toList =
      l.text.toList ++ ((' ' :: op.symbol.toList ++ [' ']) ++ r.text.toList) := by
    simp [text]
  rw [htext]
  exact hwhole

theorem Spelled.lexes (h : Spelled f e) (hrest : Breaks rest) :
    Lexes e.text.toList e.tokens depth depth rest := by
  induction h generalizing rest depth with
  | @num n h =>
    have hinteger : Lexes (Nat.toDigits 10 n) [.integer (String.ofList (Nat.toDigits 10 n))] depth
        depth rest := .integer Nat.toDigits_ne_nil Literal.isDigit_of_mem_toDigits hrest
    rw [toList_text_num, tokens, toString_natCast]
    exact hinteger
  | bool b =>
    cases b with
    | true => exact .word (by decide) (by decide) hrest
    | false => exact .word (by decide) (by decide) hrest
  | @name x h =>
    obtain ⟨⟨c, cs, hcs, hc, hpart⟩, -⟩ := isFreeName_cases h
    have hword : Lexes (c :: cs) [.name (String.ofList (c :: cs))] depth depth rest :=
      .word hc hpart hrest
    rw [← hcs, String.ofList_toList] at hword
    exact hword
  | @paren f e h ih =>
    have hclose : Lexes [')'] [.mark ")"] (depth + 1) depth rest :=
      .closeParenthesis (hrest.headIs rfl rfl)
    have hinner := (ih (breaks_cons (.inr rfl) rest)).append hclose
    have hopen : Lexes ['('] [.mark "("] depth (depth + 1)
        ((e.text.toList ++ [')']).map Glyph.narrow ++ rest) := by
      refine .openParenthesis ?_
      rw [List.map_append, List.append_assoc]
      exact h.headIs_text _
    have htext : (Expr.paren e).text.toList = ['('] ++ (e.text.toList ++ [')']) := by simp [text]
    rw [htext]
    exact hopen.append hinner
  | @unary op e hop h ih =>
    rw [text, String.toList_append]
    exact (lexes_unaryOp hop (h.headIs_text rest)).append (ih hrest)
  | binary hop hno hl hr ihl ihr => exact lexes_binary hop (fun _ => ihl) (ihr hrest)
  | compare hl hr ihl ihr => exact lexes_binary rfl (fun _ => ihl) (ihr hrest)
  | link hl hr ihl ihr => exact lexes_binary rfl (fun _ => ihl) (ihr hrest)

theorem narrow_unaryOp {op : UnaryOp} (h : op.isSupported = true) :
    ∀ c ∈ op.text.toList, c.toNat < 128 := by
  cases op with
  | unsupported => cases h
  | _ => exact Utf8.narrow_of_all rfl

theorem narrow_binaryOp {op : BinaryOp} (h : op.isSupported = true) :
    ∀ c ∈ op.symbol.toList, c.toNat < 128 := by
  cases op with
  | logical c => cases c <;> exact Utf8.narrow_of_all rfl
  | compare c => cases c <;> exact Utf8.narrow_of_all rfl
  | arith a => cases a <;> exact Utf8.narrow_of_all rfl
  | unsupported => cases h

theorem text_narrow_binary {op : BinaryOp} {l r : Expr} {chained : Bool}
    (hop : op.isSupported = true) (hl : ∀ c ∈ l.text.toList, c.toNat < 128)
    (hr : ∀ c ∈ r.text.toList, c.toNat < 128) :
    ∀ c ∈ (binary op l r chained).text.toList, c.toNat < 128 := by
  simp only [text, String.toList_append, List.forall_mem_append]
  exact ⟨⟨⟨⟨hl, Utf8.narrow_of_all rfl⟩, narrow_binaryOp hop⟩, Utf8.narrow_of_all rfl⟩, hr⟩

/-- All that is written has seven bits. -/
theorem Spelled.text_narrow (h : Spelled f e) : ∀ c ∈ e.text.toList, c.toNat < 128 := by
  induction h with
  | @num n h =>
    intro c hc
    rw [toList_text_num] at hc
    exact isWordPart_lt (isWordPart_of_isDigit (Literal.isDigit_of_mem_toDigits c hc))
  | bool b => cases b <;> exact Utf8.narrow_of_all rfl
  | @name x h =>
    obtain ⟨⟨c, cs, hcs, hc, hpart⟩, -⟩ := isFreeName_cases h
    intro c' hc'
    rw [text, hcs] at hc'
    rcases List.mem_cons.mp hc' with rfl | hc'
    · exact isWordPart_lt (wordStart_facts hc).1
    · exact isWordPart_lt (List.all_eq_true.mp hpart c' hc')
  | paren _ ih =>
    simp only [text, String.toList_append, List.forall_mem_append]
    exact ⟨⟨Utf8.narrow_of_all rfl, ih⟩, Utf8.narrow_of_all rfl⟩
  | unary hop _ ih =>
    simp only [text, String.toList_append, List.forall_mem_append]
    exact ⟨narrow_unaryOp hop, ih⟩
  | binary hop _ _ _ ihl ihr => exact text_narrow_binary hop ihl ihr
  | compare _ _ ihl ihr | link _ _ ihl ihr => exact text_narrow_binary rfl ihl ihr

/-- A condition is made of its tokens as it is written. -/
structure IsMadeOfTokens (e : Expr) : Prop where
  narrow : ∀ c ∈ e.text.toList, c.toNat < 128
  lexes : ∀ depth rest, Breaks rest → Lexes e.text.toList e.tokens depth depth rest
  begins : ∃ k ks, e.tokens = k :: ks ∧ k.beginsCondition = true

theorem Spelled.isMadeOfTokens (h : Spelled f e) : e.IsMadeOfTokens where
  narrow := h.text_narrow
  lexes _ _ := h.lexes
  begins := h.exists_tokens

theorem IsMadeOfTokens.binary {op : BinaryOp} {l r : Expr} (hop : op.isSupported = true)
    (hl : l.IsMadeOfTokens) (hr : r.IsMadeOfTokens) (chained : Bool) :
    (binary op l r chained).IsMadeOfTokens where
  narrow := text_narrow_binary hop hl.narrow hr.narrow
  lexes depth rest hrest := lexes_binary hop (hl.lexes depth) (hr.lexes depth rest hrest)
  begins := by
    obtain ⟨k, ks, hks, hk⟩ := hl.begins
    exact ⟨k, _, by rw [tokens, hks]; rfl, hk⟩

/-- A written condition is read as its tokens and the end of the line. -/
theorem IsMadeOfTokens.ofGlyphs? (h : e.IsMadeOfTokens) :
    ∃ ts, Token.ofGlyphs? (Utf8.glyphs (Utf8.encode e.text)) = some ts ∧
      ts.map Token.kind = e.tokens ++ [.newline, .endOfText] ∧ ∀ t ∈ ts, t.leading = [] := by
  have hlexes : Lexes e.text.toList e.tokens 0 0 [] := h.lexes 0 [] (by simp [Breaks])
  have hne : e.tokens ≠ [] := by
    obtain ⟨k, ks, hks, -⟩ := h.begins
    simp [hks]
  obtain ⟨st, hst, hrun⟩ := hlexes {} [] Between.start
  obtain ⟨ts, hts, hkinds, hbare⟩ := finish_eq hst hne
  refine ⟨ts, ?_, hkinds, hbare⟩
  rw [Token.ofGlyphs?, Utf8.glyphs_encode h.narrow]
  rw [List.append_nil] at hrun
  rw [hrun]
  exact hts

end Expr
end Foregone
