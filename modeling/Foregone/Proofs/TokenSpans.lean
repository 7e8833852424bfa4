import Foregone.Proofs.Scanning
import Foregone.Proofs.StatementSpans

/-! # Where tokens lie

The tokens of a text lie one behind the other, and each of them starts and stops between
two glyphs. What a step puts out depends on the glyphs it looks at, so what it leaves
behind is said of the offset it stands at and of the glyphs from there on. -/

namespace Foregone

/-- A glyph as it stands in a source: it takes room, and one byte if it is of seven bits. -/
structure Glyph.Regular (g : Glyph) : Prop where
  pos : 0 < g.width
  narrow : g.char.toNat < 128 → g.width = 1

namespace Lexer

open Scan

/-! ## Bytes of glyphs -/

variable {g : Glyph} {gs rest : List Glyph}

@[simp] theorem bytesOf_zero (gs : List Glyph) : bytesOf 0 gs = 0 := rfl

@[simp] theorem bytesOf_nil (n : Nat) : bytesOf n [] = 0 := by simp [bytesOf]

theorem bytesOf_eq_sum (n : Nat) (gs : List Glyph) :
    bytesOf n gs = ((gs.take n).map Glyph.width).sum := by
  rw [bytesOf, List.sum_eq_foldl, List.foldl_map]

@[simp] theorem bytesOf_cons (n : Nat) (g : Glyph) (gs : List Glyph) :
    bytesOf (n + 1) (g :: gs) = g.width + bytesOf n gs := by
  simp [bytesOf_eq_sum]

theorem bytesOf_mono {m n : Nat} (h : m ≤ n) (gs : List Glyph) : bytesOf m gs ≤ bytesOf n gs := by
  induction gs generalizing m n with
  | nil => simp
  | cons g gs ih =>
    cases m with
    | zero => simp
    | succ m =>
      cases n with
      | zero => omega
      | succ n =>
        have := ih (Nat.le_of_succ_le_succ h)
        simp only [bytesOf_cons]
        omega

theorem bytesOf_one (hg : g.Regular) (hc : g.char.toNat < 128) (rest : List Glyph) :
    bytesOf 1 (g :: rest) = 1 := by
  simp [hg.narrow hc]

/-- Seven-bit characters at the head take one byte each. -/
theorem bytesOf_narrow {cs : List Char} (hgs : ∀ g ∈ gs, g.Regular)
    (h : (gs.take cs.length).map Glyph.char = cs) (hcs : ∀ c ∈ cs, c.toNat < 128) {k : Nat}
    (hk : k ≤ cs.length) : bytesOf k gs = k := by
  induction cs generalizing gs k with
  | nil =>
    cases Nat.le_zero.mp hk
    rfl
  | cons c cs ih =>
    cases k with
    | zero => rfl
    | succ k =>
      cases gs with
      | nil => cases h
      | cons g gs =>
        obtain ⟨hc, htail⟩ := List.cons.inj h
        have hg : g.width = 1 := by
          refine (hgs g List.mem_cons_self).narrow ?_
          rw [hc]
          exact hcs c List.mem_cons_self
        have hrest := ih (fun g' hg' => hgs g' (List.mem_cons_of_mem _ hg')) htail
          (fun c' hc' => hcs c' (List.mem_cons_of_mem _ hc')) (Nat.le_of_succ_le_succ hk)
        rw [bytesOf_cons, hg, hrest, Nat.add_comm]

theorem bytesOf_startsWith {text : String} (hgs : ∀ g ∈ gs, g.Regular)
    (h : startsWith gs text = true) (htext : ∀ c ∈ text.toList, c.toNat < 128) {k : Nat}
    (hk : k ≤ text.length) : bytesOf k gs = k := by
  have hlength : text.toList.length = text.length := String.length_toList
  refine bytesOf_narrow hgs ?_ htext (hlength ▸ hk)
  rw [hlength]
  exact beq_iff_eq.mp h

theorem mark?_facts {text : String} (h : mark? gs = some text) :
    startsWith gs text = true ∧ 0 < text.length ∧ ∀ c ∈ text.toList, c.toNat < 128 := by
  have hall : ∀ text ∈ marks, 0 < text.length ∧
      (text.toList.all fun c => decide (c.toNat < 128)) = true := by decide
  obtain ⟨hpos, hnarrow⟩ := hall text (List.mem_of_find?_eq_some h)
  exact ⟨List.find?_some h, hpos, Utf8.narrow_of_all hnarrow⟩

theorem isQuote_lt {c : Char} (h : isQuote c = true) : c.toNat < 128 := by
  simp only [isQuote, Bool.or_eq_true, beq_iff_eq] at h
  obtain (rfl | rfl) | rfl := h <;> decide

theorem delimiter?_quote {d : Delimiter} {n : Nat} (h : delimiter? gs = some (d, n)) :
    d.quote.toNat < 128 := by
  simp only [delimiter?] at h
  split at h
  · split at h
    · cases h
      exact isQuote_lt ‹_›
    · cases h
  · cases h

/-! ## What a state has put out -/

/-- The property holds wherever a glyph starts or stops from here on. -/
def Ahead (B : Nat → Prop) (o : Nat) (gs : List Glyph) : Prop := ∀ n, B (o + bytesOf n gs)

/-- The quotes of all open strings are of seven bits. -/
def Quoted (modes : List Mode) : Prop :=
  ∀ d fresh, Mode.text d fresh ∈ modes → d.quote.toNat < 128

/-- The state stands at `o` and has put out tokens and extras up to `bound` at most: they lie
in order, and so do further tokens that lie from there on. -/
structure Kept (B : Nat → Prop) (o bound : Nat) (st : State) : Prop where
  offset : st.offset = o
  le : st.last ≤ bound
  last : B st.last
  extras : ∀ m ∈ st.extras, (m.kind.isExtra = true ∧ m.label = none) ∧ m.Laid B
  tokens : ∀ us, Follow B st.last us → Follow B 0 (st.tokens.reverse ++ us)
  quoted : Quoted st.modes

namespace Kept

variable {B : Nat → Prop} {o bound : Nat} {st : State}

theorem mono {bound' : Nat} (h : Kept B o bound st) (hle : bound ≤ bound') : Kept B o bound' st :=
  { h with le := h.le.trans hle }

theorem withModes (h : Kept B o bound st) {modes : List Mode} (hmodes : Quoted modes) :
    Kept B o bound { st with modes := modes } :=
  ⟨h.offset, h.le, h.last, h.extras, h.tokens, hmodes⟩

theorem withLine (h : Kept B o bound st) (line : Line) : Kept B o bound { st with line := line } :=
  ⟨h.offset, h.le, h.last, h.extras, h.tokens, h.quoted⟩

theorem withColumn (h : Kept B o bound st) (column : Nat) :
    Kept B o bound { st with column := column } :=
  ⟨h.offset, h.le, h.last, h.extras, h.tokens, h.quoted⟩

theorem withIndents (h : Kept B o bound st) (indents : List Nat) :
    Kept B o bound { st with indents := indents } :=
  ⟨h.offset, h.le, h.last, h.extras, h.tokens, h.quoted⟩

theorem emit {kind : TokenKind} {start stop : Nat} (h : Kept B o start st) (hstart : B start)
    (hstop : B stop) (hle : start ≤ stop) (hname : ∀ text, kind = .name text → start < stop)
    (hstars : kind = .mark "**" → B (start + 1) ∧ start + 1 ≤ stop) :
    Kept B o stop (st.emit kind start stop) := by
  refine ⟨h.offset, Nat.le_refl _, hstop, nofun, fun us hus => ?_, h.quoted⟩
  have hall := h.tokens (⟨kind, start, stop, st.extras⟩ :: us)
    (.cons h.le ⟨hstart, hstop, hle, h.extras, hname, hstars⟩ hus)
  simpa [State.emit] using hall

theorem emitHere {bytes : Nat} (h : Kept B o o st) (kind : TokenKind) (ho : B o)
    (hbytes : B (o + bytes)) (hname : ∀ text, kind = .name text → 0 < bytes)
    (hstars : kind = .mark "**" → B (o + 1) ∧ 1 ≤ bytes) :
    Kept B o (o + bytes) (st.emitHere kind bytes) := by
  rw [State.emitHere, h.offset]
  refine h.emit ho hbytes (Nat.le_add_right _ _) (fun text ht => ?_) fun hs => ?_
  · have := hname text ht
    omega
  · obtain ⟨hone, hle⟩ := hstars hs
    exact ⟨hone, by omega⟩

theorem emitLayout (h : Kept B o bound st) (kind : TokenKind) (hname : ∀ text, kind ≠ .name text)
    (hstars : kind ≠ .mark "**") : Kept B o bound (st.emitLayout kind) := by
  have hlast : Kept B o st.last st := { h with le := Nat.le_refl _ }
  exact (hlast.emit h.last h.last (Nat.le_refl _) (fun text ht => (hname text ht).elim)
    fun hs => (hstars hs).elim).mono h.le

theorem addExtra {kind : Kind} {bytes : Nat} (h : Kept B o o st) (hkind : kind.isExtra = true)
    (ho : B o) (hbytes : B (o + bytes)) : Kept B o (o + bytes) (st.addExtra kind bytes) := by
  have hle : o ≤ o + bytes := Nat.le_add_right _ _
  refine ⟨h.offset, ?_, ?_, ?_, fun us hus => ?_, h.quoted⟩
  · rw [State.addExtra, h.offset]
  · rw [State.addExtra, h.offset]
    exact hbytes
  · intro m hm
    rcases List.mem_append.mp hm with hm | hm
    · exact h.extras m hm
    · cases List.mem_singleton.mp hm
      rw [h.offset]
      have hif : kind ≠ .ifStatement := by
        rintro rfl
        cases hkind
      have helif : kind ≠ .elifClause := by
        rintro rfl
        cases hkind
      exact ⟨⟨hkind, rfl⟩, Node.laid_leaf ho hbytes hle hif helif⟩
  · refine h.tokens us (hus.mono ?_)
    rw [State.addExtra, h.offset]
    exact h.le.trans hle

/-- The number of bytes is given by that of the glyphs if these are of seven bits. -/
theorem emitGlyphs {n : Nat} (h : Kept B o o st) (hahead : Ahead B o gs) (hn : bytesOf n gs = n)
    (kind : TokenKind) (hname : ∀ text, kind ≠ .name text) (hstars : kind ≠ .mark "**") :
    Kept B o (o + bytesOf n gs) (st.emitHere kind n) := by
  have hstop : B (o + n) := hn ▸ hahead n
  rw [hn]
  exact h.emitHere kind (hahead 0) hstop (fun text ht => (hname text ht).elim)
    fun hs => (hstars hs).elim

theorem addGlyphs {n : Nat} (h : Kept B o o st) (hahead : Ahead B o gs) (hn : bytesOf n gs = n)
    (kind : Kind) (hkind : kind.isExtra = true) :
    Kept B o (o + bytesOf n gs) (st.addExtra kind n) := by
  have hstop : B (o + n) := hn ▸ hahead n
  rw [hn]
  exact h.addExtra hkind (hahead 0) hstop

theorem closeBlocks (h : Kept B o bound st) (width : Nat) :
    Kept B o bound (st.closeBlocks width) := by
  rw [State.closeBlocks]
  generalize st.indents.takeWhile (width < ·) = closed
  induction closed generalizing st with
  | nil => exact h
  | cons _ closed ih => exact ih ((h.emitLayout .dedent nofun nofun).withIndents _)

theorem endLine (h : Kept B o bound st) (ahead : Nat) : Kept B o bound (st.endLine ahead) := by
  have hnewline := ((h.emitLayout .newline nofun nofun).withLine .fresh).withColumn 0
  have hindent := ((h.emitLayout .indent nofun nofun).withLine .fresh).withColumn 0
  unfold State.endLine
  split
  · exact h.withColumn 0
  · exact hnewline
  · split
    · exact hindent.withIndents _
    · exact hnewline

theorem passBlank (h : Kept B o bound st) (c : Char) : Kept B o bound (st.passBlank c) := by
  unfold State.passBlank
  split
  · split
    · exact h.withColumn _
    split
    · exact h.withColumn _
    split
    · exact h.withColumn _
    · exact h
  · exact h

theorem beginToken (h : Kept B o bound st) : Kept B o bound st.beginToken := by
  unfold State.beginToken
  split
  · dsimp only
    split
    · exact (h.closeBlocks _).withLine _
    · exact h.withLine _
  · exact h

theorem beginComment (h : Kept B o bound st) (ahead : Nat) :
    Kept B o bound (st.beginComment ahead) := by
  unfold State.beginComment
  split
  · exact h.closeBlocks _
  · exact h

end Kept

theorem Quoted.tail {m : Mode} {modes : List Mode} (h : Quoted (m :: modes)) : Quoted modes :=
  fun d fresh hd => h d fresh (List.mem_cons_of_mem _ hd)

theorem Quoted.cons {m : Mode} {modes : List Mode} (h : Quoted modes)
    (hm : ∀ d fresh, m = .text d fresh → d.quote.toNat < 128) : Quoted (m :: modes) := by
  intro d fresh hd
  rcases List.mem_cons.mp hd with hd | hd
  · exact hm d fresh hd.symm
  · exact h d fresh hd

/-! ## Steps -/

/-- What a step leaves reaches no further than the glyphs it passes over. -/
def Advances (B : Nat → Prop) (o : Nat) (gs : List Glyph) : Step → Prop
  | some (st, skip) => Kept B o (o + bytesOf (skip + 1) gs) st
  | none => True

section Step

variable {B : Nat → Prop} {o : Nat} {st : State}

theorem Advances.of_kept {n : Nat} (h : Kept B o (o + bytesOf n gs) st) :
    Advances B o gs (some (st, n - 1)) :=
  h.mono (Nat.add_le_add_left (bytesOf_mono (by omega) gs) o)

theorem Advances.stay {skip : Nat} (h : Kept B o o st) : Advances B o gs (some (st, skip)) :=
  h.mono (Nat.le_add_right _ _)

variable (hgs : ∀ g' ∈ g :: rest, g'.Regular) (hahead : Ahead B o (g :: rest)) (h : Kept B o o st)

include hgs hahead h

theorem nameStep_advances : Advances B o (g :: rest) (nameStep st (g :: rest)) := by
  have hpos (n : Nat) : 0 < bytesOf (n + 1) (g :: rest) := by
    have := (hgs g List.mem_cons_self).pos
    rw [bytesOf_cons]
    omega
  have hname (text : String) (n : Nat) := h.beginToken.emitHere (.name text) (hahead 0)
    (hahead (n + 1)) (fun _ _ => hpos n) nofun
  refine .of_kept ((hname _ _).withModes ?_)
  split
  · rename_i hmodes
    have hquoted : Quoted (.field _ :: _) := hmodes ▸ (hname _ _).quoted
    exact hquoted.tail.cons nofun
  · exact (hname _ _).quoted

omit hgs in
theorem numberStep_advances : Advances B o (g :: rest) (numberStep st (g :: rest)) := by
  refine .of_kept (h.beginToken.emitHere _ (hahead 0) (hahead _) (fun text ht => ?_) fun hs => ?_)
  · split at ht <;> cases ht
  · split at hs <;> cases hs

omit hgs in
/-- A mark may be cut down to the colon at its head. -/
theorem markStep_advances {text : String} (hpos : 0 < text.length)
    (hmark : ∀ k ≤ text.length, bytesOf k (g :: rest) = k) :
    Advances B o (g :: rest) (markStep st text) := by
  have hB {k : Nat} (hk : k ≤ text.length) : B (o + k) := hmark k hk ▸ hahead k
  have hemit (kind : TokenKind) (hname : ∀ text, kind ≠ .name text) {n : Nat} (hn : 0 < n)
      (hle : n ≤ text.length) :
      Kept B o (o + bytesOf n (g :: rest)) (st.beginToken.emitHere kind n) := by
    rw [hmark n hle]
    exact h.beginToken.emitHere kind (hahead 0) (hB hle) (fun t ht => (hname t ht).elim)
      fun _ => ⟨hB hpos, hn⟩
  have hquoted := h.beginToken.quoted
  have houter {m : Mode} {outer : List Mode} (hm : st.beginToken.modes = m :: outer) :
      Quoted outer := (hm ▸ hquoted : Quoted (m :: outer)).tail
  unfold markStep
  dsimp only
  generalize htext' : (if beginsFormat st.beginToken text then ":" else text) = text'
  have hlength : 0 < text'.length ∧ text'.length ≤ text.length := by
    subst htext'
    split
    · exact ⟨by decide, hpos⟩
    · exact ⟨hpos, Nat.le_refl _⟩
  have hplain := hemit (.mark text') nofun hlength.1 hlength.2
  have hopen := Advances.of_kept (hplain.withModes (hquoted.cons (m := .bracket) nofun))
  split
  · exact hopen
  · exact hopen
  · exact hopen
  · exact .of_kept (hplain.withModes (houter ‹_›))
  · exact .of_kept (hplain.withModes (houter ‹_›))
  · exact .of_kept (hplain.withModes (houter ‹_›))
  · exact .of_kept ((hemit .fieldClose nofun hlength.1 hlength.2).withModes (houter ‹_›))
  · have hformat := hemit .fieldFormat nofun hlength.1 hlength.2
    exact .of_kept (hformat.withModes ((houter ‹_›).cons nofun))
  · exact .of_kept (hplain.withModes ((houter ‹_›).cons nofun))
  · exact .of_kept (hplain.withLine _)
  · exact .of_kept hplain

theorem conversionStep_advances : Advances B o (g :: rest) (conversionStep st (g :: rest)) := by
  unfold conversionStep
  split
  · rename_i letter tail _ heq
    cases heq
    split
    · rename_i hc
      simp only [Bool.and_eq_true, beq_iff_eq, decide_eq_true_eq] at hc
      obtain ⟨⟨hbang, -⟩, hz⟩ := hc
      have hletter : letter.char.toNat < 128 :=
        Nat.lt_of_le_of_lt (UInt32.le_iff_toNat_le.mp hz) (by decide)
      have hg : g.width = 1 := (hgs g List.mem_cons_self).narrow (by rw [hbang]; decide)
      have hbytes : bytesOf 2 (g :: letter :: tail) = 2 := by
        rw [bytesOf_cons, hg, bytesOf_one (hgs letter (by simp)) hletter]
      exact .of_kept (h.emitGlyphs hahead hbytes .conversion nofun nofun)
    · trivial
  · trivial

/-- A step in code. -/
theorem codeStep_advances : Advances B o (g :: rest) (codeStep st g rest) := by
  have hrest : ∀ g' ∈ rest, g'.Regular := fun g' hg' => hgs g' (List.mem_cons_of_mem _ hg')
  unfold codeStep
  dsimp only
  split
  · exact .stay (h.endLine _)
  split
  · rename_i hback
    have hone : g.width = 1 := by
      refine (hgs g List.mem_cons_self).narrow ?_
      rw [beq_iff_eq.mp hback]
      decide
    have hjoin {n : Nat} (hn : bytesOf n rest = n) : bytesOf (n + 1) (g :: rest) = n + 1 := by
      rw [bytesOf_cons, hone, hn, Nat.add_comm]
    split
    · have hn := hjoin (bytesOf_startsWith hrest ‹_› (by simp) (k := 2) (by decide))
      exact .of_kept (h.addGlyphs hahead hn .lineJoin rfl)
    split
    · have hn := hjoin (bytesOf_startsWith hrest ‹_› (by simp) (k := 1) (by decide))
      exact .of_kept (h.addGlyphs hahead hn .lineJoin rfl)
    split
    · exact .of_kept (h.addGlyphs hahead (hjoin (bytesOf_zero rest)) .lineJoin rfl)
    · trivial
  split
  · exact .stay (h.passBlank _)
  split
  · exact .of_kept ((h.beginComment _).addExtra rfl (hahead 0) (hahead _))
  split
  · rename_i d n hd
    have hopen := h.beginToken.emitHere .stringOpen (hahead 0) (hahead n) nofun nofun
    refine .of_kept (hopen.withModes (hopen.quoted.cons fun d' fresh hd' => ?_))
    cases hd'
    exact delimiter?_quote hd
  split
  · exact numberStep_advances hahead h
  split
  · exact nameStep_advances hgs hahead h
  split
  · rename_i text htext
    obtain ⟨hstarts, hpos, hnarrow⟩ := mark?_facts htext
    exact markStep_advances hahead h hpos fun k hk => bytesOf_startsWith hgs hstarts hnarrow hk
  · exact conversionStep_advances hgs hahead h

/-- A step in a string. -/
theorem textStep_advances {d : Delimiter} {fresh : Bool} {outer : List Mode}
    (hmodes : st.modes = .text d fresh :: outer) :
    Advances B o (g :: rest) (textStep st d fresh outer g rest) := by
  have hquote : d.quote.toNat < 128 := h.quoted d fresh (by simp [hmodes])
  have houter : Quoted outer := (hmodes ▸ h.quoted : Quoted (.text d fresh :: outer)).tail
  have htext (fresh : Bool) : Quoted (.text d fresh :: outer) := houter.cons fun d' _ hd => by
    cases hd
    exact hquote
  have hstay (fresh : Bool) (skip : Nat) : Advances B o (g :: rest)
      (some ({ st with modes := .text d fresh :: outer }, skip)) :=
    .stay (h.withModes (htext fresh))
  have hone (hc : g.char.toNat < 128) : bytesOf 1 (g :: rest) = 1 :=
    bytesOf_one (hgs g List.mem_cons_self) hc rest
  unfold textStep
  dsimp only
  split
  · rename_i hc
    split
    · exact hstay _ _
    · have hbrace : g.char.toNat < 128 := by
        rw [beq_iff_eq.mp (Bool.and_eq_true_iff.mp hc).2]
        decide
      have hopen := h.emitGlyphs hahead (hone hbrace) .fieldOpen nofun nofun
      exact .of_kept (hopen.withModes ((htext true).cons (m := .field 0) nofun))
  split
  · split
    · exact hstay _ _
    · trivial
  split
  · exact hstay _ _
  split
  · rename_i hc
    have hg : g.char.toNat < 128 := by
      rw [beq_iff_eq.mp hc]
      exact hquote
    split
    · have hclose := h.emitGlyphs hahead (hone hg) .stringClose nofun nofun
      exact .of_kept (hclose.withModes houter)
    split
    · rename_i hquotes
      have hbytes : bytesOf 3 (g :: rest) = 3 := by
        have hrest : ∀ g' ∈ rest, g'.Regular := fun g' hg' => hgs g' (List.mem_cons_of_mem _ hg')
        rw [bytesOf_cons, (hgs g List.mem_cons_self).narrow hg,
          bytesOf_startsWith hrest hquotes (by simpa using hquote) (by simp)]
      have hclose := h.emitGlyphs hahead hbytes .stringClose nofun nofun
      exact .of_kept (hclose.withModes houter)
    · exact hstay _ _
  split
  · trivial
  · exact hstay _ _

/-- A step in the format of a replacement field. -/
theorem formatStep_advances {outer : List Mode} (hmodes : st.modes = .format :: outer) :
    Advances B o (g :: rest) (formatStep st outer g) := by
  have houter : Quoted outer := (hmodes ▸ h.quoted : Quoted (.format :: outer)).tail
  have hone {c : Char} (hg : (g.char == c) = true) (hc : c.toNat < 128) :
      bytesOf 1 (g :: rest) = 1 :=
    bytesOf_one (hgs g List.mem_cons_self) (by rw [beq_iff_eq.mp hg]; exact hc) rest
  unfold formatStep
  split
  · have hopen := h.emitGlyphs hahead (hone ‹_› (by decide)) .fieldOpen nofun nofun
    exact .of_kept (hopen.withModes ((houter.cons (m := .format) nofun).cons (m := .field 0) nofun))
  split
  · have hclose := h.emitGlyphs hahead (hone ‹_› (by decide)) .fieldClose nofun nofun
    exact .of_kept (hclose.withModes houter)
  split
  · trivial
  · exact .stay h

theorem step_advances : Advances B o (g :: rest) (step st g rest) := by
  unfold step
  split
  · exact textStep_advances hgs hahead h ‹_›
  · exact formatStep_advances hgs hahead h ‹_›
  · exact codeStep_advances hgs hahead h

end Step

/-! ## All tokens -/

variable {B : Nat → Prop}

theorem Ahead.next {o : Nat} (h : Ahead B o (g :: rest)) : Ahead B (o + g.width) rest := by
  intro n
  rw [Nat.add_assoc, ← bytesOf_cons]
  exact h (n + 1)

theorem Kept.withOffset {o bound : Nat} {st : State} (h : Kept B o bound st) (offset : Nat) :
    Kept B offset bound { st with offset := offset } :=
  ⟨rfl, h.le, h.last, h.extras, h.tokens, h.quoted⟩

theorem Kept.finish {o bound : Nat} {st : State} {tokens : List Token} (h : Kept B o bound st)
    (ht : finish st = some tokens) : Follow B 0 tokens := by
  unfold Lexer.finish at ht
  split at ht
  · cases ht
    have hend := ((h.endLine 0).closeBlocks 0).emitLayout .endOfText nofun nofun
    simpa using hend.tokens [] (.nil _)
  · cases ht

theorem follow_tokensFrom {st : State} {skip : Nat} {gs : List Glyph} {tokens : List Token}
    (hgs : ∀ g ∈ gs, g.Regular) (hahead : Ahead B st.offset gs)
    (h : Kept B st.offset (st.offset + bytesOf skip gs) st)
    (ht : tokensFrom st skip gs = some tokens) : Follow B 0 tokens := by
  induction gs generalizing st skip with
  | nil =>
    rw [tokensFrom] at ht
    exact h.finish ht
  | cons g rest ih =>
    have hrest : ∀ g' ∈ rest, g'.Regular := fun g' hg' => hgs g' (List.mem_cons_of_mem _ hg')
    cases skip with
    | succ skip =>
      rw [tokensFrom] at ht
      refine ih hrest hahead.next ?_ ht
      rw [bytesOf_cons, ← Nat.add_assoc] at h
      exact h.withOffset _
    | zero =>
      rw [tokensFrom] at ht
      split at ht
      · rename_i st' skip hstep
        have hnext : Kept B st.offset (st.offset + bytesOf (skip + 1) (g :: rest)) st' := by
          have hadvances := step_advances hgs hahead h
          rw [hstep] at hadvances
          exact hadvances
        have hoffset : st'.offset = st.offset := hnext.offset
        rw [bytesOf_cons, ← Nat.add_assoc, ← hoffset] at hnext
        exact ih hrest (hoffset ▸ hahead.next) (hnext.withOffset _) ht
      · cases ht

end Lexer

/-- The offset lies between two glyphs. -/
def Glyph.Between (gs : List Glyph) (o : Nat) : Prop := ∃ n, Lexer.bytesOf n gs = o

/-- The tokens of a text lie in order, and between its glyphs. -/
theorem Token.follow_ofGlyphs? {gs : List Glyph} {tokens : List Token} (hgs : ∀ g ∈ gs, g.Regular)
    (h : Token.ofGlyphs? gs = some tokens) : Follow (Glyph.Between gs) 0 tokens := by
  have hahead : Lexer.Ahead (Glyph.Between gs) 0 gs := fun n => ⟨n, (Nat.zero_add _).symm⟩
  refine Lexer.follow_tokensFrom hgs hahead ?_ h
  exact ⟨rfl, Nat.le_refl _, ⟨0, rfl⟩, nofun, fun us hus => hus, nofun⟩

end Foregone
