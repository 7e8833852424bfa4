import Mathlib.Data.List.Find
import Foregone.Proofs.Numerals
import Foregone.Proofs.Spelling
import Foregone.Token.Scan

/-! # How far written words, numbers and operators reach

Seven-bit text is one glyph for each character. A word or a number ends in front of a
blank, a closing parenthesis or the end of the text, and an operator in front of every
character that no longer operator has in its place. -/

namespace Foregone

/-- A character of one byte. -/
def Glyph.narrow (c : Char) : Glyph := ⟨c, 1⟩

/-! ## Bytes and glyphs of seven-bit text -/

namespace Utf8

theorem narrow_of_all {cs : List Char} (h : (cs.all fun c => decide (c.toNat < 128)) = true) :
    ∀ c ∈ cs, c.toNat < 128 := by
  simpa using h

theorem toList_loop (bytes : ByteArray) (i : Nat) (acc : List UInt8) :
    ByteArray.toList.loop bytes i acc = acc.reverse ++ bytes.data.toList.drop i := by
  fun_induction ByteArray.toList.loop bytes i acc with
  | case1 i acc h ih =>
    have hi : i < bytes.data.toList.length := by simpa using h
    have hbyte : bytes.get! i = bytes.data.toList[i] := by simp [ByteArray.get!, h]
    rw [ih, List.drop_eq_getElem_cons hi, hbyte]
    simp
  | case2 i acc h =>
    rw [List.drop_eq_nil_of_le (by simpa using Nat.le_of_not_lt h), List.append_nil]

theorem encode_eq (s : String) : encode s = s.toList.flatMap String.utf8EncodeChar := by
  have hbytes : s.toUTF8 = (s.toList.flatMap String.utf8EncodeChar).toByteArray := by
    conv => lhs; rw [← String.ofList_toList (s := s)]
    rfl
  rw [encode, hbytes, ByteArray.toList, toList_loop]
  simp

/-- A seven-bit character is its own byte. -/
theorem encode_of_narrow {s : String} (h : ∀ c ∈ s.toList, c.toNat < 128) :
    encode s = s.toList.map fun c => c.val.toUInt8 := by
  have hone : ∀ c ∈ s.toList, String.utf8EncodeChar c = [c.val.toUInt8] := fun c hc => by
    refine String.utf8EncodeChar_eq_singleton (Char.utf8Size_eq_one_iff.mpr ?_)
    rw [UInt32.le_iff_toNat_le]
    exact Nat.le_of_lt_succ (h c hc)
  rw [encode_eq, List.flatMap_congr hone, List.map_eq_flatMap]

theorem glyphAt_narrow {c : Char} (h : c.toNat < 128) (rest : List UInt8) :
    glyphAt c.val.toUInt8 rest = Glyph.narrow c := by
  have hbyte : c.val.toUInt8.toNat = c.toNat := by
    rw [UInt32.toNat_toUInt8, Char.toNat_val]
    omega
  have hlow : c.val.toUInt8 < 0x80 := by
    rw [UInt8.lt_iff_toNat_lt, hbyte]
    exact h
  rw [glyphAt, if_pos hlow, hbyte, Char.ofNat_toNat, Glyph.narrow]

theorem glyphsFrom_narrow {cs : List Char} (h : ∀ c ∈ cs, c.toNat < 128) :
    glyphsFrom 0 (cs.map fun c => c.val.toUInt8) = cs.map Glyph.narrow := by
  induction cs with
  | nil => rfl
  | cons c cs ih =>
    rw [List.map_cons, glyphsFrom, glyphAt_narrow (h c List.mem_cons_self), List.map_cons]
    exact congrArg _ (ih fun c' hc' => h c' (List.mem_cons_of_mem _ hc'))

theorem glyphs_encode {s : String} (h : ∀ c ∈ s.toList, c.toNat < 128) :
    glyphs (encode s) = s.toList.map Glyph.narrow := by
  rw [encode_of_narrow h, glyphs, glyphsFrom_narrow h]

end Utf8

/-! ## How far a token reaches -/

namespace Scan

/-- The text ends here, or goes on with a blank or a closing parenthesis. -/
def Breaks (rest : List Glyph) : Prop := ∀ g ∈ rest.head?, g.char = ' ' ∨ g.char = ')'

variable {p : Char → Bool} {cs : List Char} {rest : List Glyph}

theorem breaks_cons {c : Char} (hc : c = ' ' ∨ c = ')') (rest : List Glyph) :
    Breaks (Glyph.narrow c :: rest) := by
  intro g hg
  cases hg
  exact hc

theorem Breaks.headIs (h : Breaks rest) (hblank : p ' ' = false) (hclose : p ')' = false) :
    headIs p rest = false := by
  cases rest with
  | nil => rfl
  | cons g rest =>
    rcases h g rfl with hg | hg
    · simpa [Scan.headIs, hg] using hblank
    · simpa [Scan.headIs, hg] using hclose

theorem run_eq_zero (h : headIs p rest = false) : run p rest = 0 := by
  cases rest with
  | nil => rfl
  | cons g rest => simp [run, show p g.char = false from h]

theorem run_append (h : ∀ c ∈ cs, p c = true) (hrest : headIs p rest = false) :
    run p (cs.map Glyph.narrow ++ rest) = cs.length := by
  induction cs with
  | nil => exact run_eq_zero hrest
  | cons c cs ih =>
    have hc : p c = true := h c List.mem_cons_self
    have hcs := ih fun c' hc' => h c' (List.mem_cons_of_mem _ hc')
    simp [run, Glyph.narrow, hc, hcs]

theorem textOf_append (cs : List Char) (rest : List Glyph) :
    textOf cs.length (cs.map Glyph.narrow ++ rest) = String.ofList cs := by
  have hchar : Glyph.char ∘ Glyph.narrow = id := rfl
  simp [textOf, hchar]

/-! ### Words -/

/-- A mark in front of such a character may be a longer one. -/
def extendsMark (c : Char) : Bool := ['=', '<', '>', '*', '/', '.'].contains c

theorem isWordPart_of_isDigit {c : Char} (h : c.isDigit = true) : isWordPart c = true := by
  simp [isWordPart, Char.isAlphanum, h]

theorem isWordPart_lt {c : Char} (h : isWordPart c = true) : c.toNat < 128 := by
  have hbound {high : UInt32} (hc : c.val ≤ high) (hhigh : high.toNat < 128) : c.toNat < 128 :=
    Nat.lt_of_le_of_lt (UInt32.le_iff_toNat_le.mp hc) hhigh
  rcases Bool.or_eq_true_iff.mp h with hword | hc
  · rcases Bool.or_eq_true_iff.mp hword with halpha | hdigit
    · rcases Bool.or_eq_true_iff.mp halpha with hupper | hlower
      · exact hbound (of_decide_eq_true hupper).2 (by decide)
      · exact hbound (of_decide_eq_true (Bool.and_eq_true_iff.mp hlower).2) (by decide)
    · exact Nat.lt_of_le_of_lt (Text.toNat_of_isDigit hdigit).2 (by decide)
  · rw [beq_iff_eq.mp hc]
    decide

/-- A token begins here that is no string, comment or layout. -/
def beginsToken (c : Char) : Bool :=
  !isGap c && !isQuote c && c != '\n' && c != '\\' && c != '#'

theorem beginsToken_facts {c : Char} (h : beginsToken c = true) :
    isQuote c = false ∧ isGap c = false ∧ c ≠ '\n' ∧ c ≠ '\\' ∧ c ≠ '#' := by
  simp only [beginsToken, Bool.and_eq_true, Bool.not_eq_true', bne_iff_ne, ne_eq] at h
  obtain ⟨⟨⟨⟨hgap, hquote⟩, hline⟩, hback⟩, hcomment⟩ := h
  exact ⟨hquote, hgap, hline, hback, hcomment⟩

theorem word_facts {c : Char} (h : isWordPart c = true) :
    beginsToken c = true ∧ Text.isIdentifierPart c = true ∧ c ≠ '.' ∧ extendsMark c = false := by
  have hall : ∀ n < 128, isWordPart (Char.ofNat n) = true →
      beginsToken (Char.ofNat n) = true ∧ Text.isIdentifierPart (Char.ofNat n) = true ∧
      Char.ofNat n ≠ '.' ∧ extendsMark (Char.ofNat n) = false := by decide +kernel
  have hc := hall c.toNat (isWordPart_lt h)
  rw [Char.ofNat_toNat] at hc
  exact hc h

theorem wordStart_facts {c : Char} (h : isWordStart c = true) :
    isWordPart c = true ∧ c.isDigit = false ∧ Text.isIdentifierStart c = true := by
  have hpart : isWordPart c = true := by
    simp only [isWordStart, isWordPart, Char.isAlphanum, Bool.or_eq_true] at h ⊢
    exact h.imp_left .inl
  have hall : ∀ n < 128, isWordStart (Char.ofNat n) = true →
      (Char.ofNat n).isDigit = false ∧ Text.isIdentifierStart (Char.ofNat n) = true := by
    decide +kernel
  have hc := hall c.toNat (isWordPart_lt hpart)
  rw [Char.ofNat_toNat] at hc
  exact ⟨hpart, hc h⟩

/-- No string starts here if no quote stands behind the letters at the head. -/
theorem delimiter?_eq_none {gs : List Glyph}
    (h : headIs isQuote (gs.drop (run isFlag gs)) = false) : delimiter? gs = none := by
  simp only [delimiter?]
  split
  · rename_i q rest hq
    rw [hq] at h
    simp [show isQuote q.char = false from h]
  · rfl

theorem delimiter?_of_not_isFlag (g : Glyph) (rest : List Glyph) (hflag : isFlag g.char = false)
    (hquote : isQuote g.char = false) : delimiter? (g :: rest) = none := by
  refine delimiter?_eq_none ?_
  have hrun : run isFlag (g :: rest) = 0 := by simp [run, hflag]
  rw [hrun]
  exact hquote

theorem delimiter?_of_word (h : ∀ c ∈ cs, isWordPart c = true) (hrest : Breaks rest) :
    delimiter? (cs.map Glyph.narrow ++ rest) = none := by
  refine delimiter?_eq_none ?_
  induction cs with
  | nil =>
    rw [List.map_nil, List.nil_append, run_eq_zero (hrest.headIs rfl rfl)]
    exact hrest.headIs rfl rfl
  | cons c cs ih =>
    by_cases hc : isFlag c = true
    · have hrun : run isFlag ((c :: cs).map Glyph.narrow ++ rest) =
          run isFlag (cs.map Glyph.narrow ++ rest) + 1 := by simp [run, Glyph.narrow, hc]
      rw [hrun]
      exact ih fun c' hc' => h c' (List.mem_cons_of_mem _ hc')
    · have hrun : run isFlag ((c :: cs).map Glyph.narrow ++ rest) = 0 := by
        simp [run, Glyph.narrow, hc]
      rw [hrun]
      exact (beginsToken_facts (word_facts (h c List.mem_cons_self)).1).1

/-! ### Numbers -/

theorem decimalRun_append (h : ∀ c ∈ cs, c.isDigit = true) (hrest : Breaks rest) :
    decimalRun (cs.map Glyph.narrow ++ rest) = cs.length := by
  induction cs with
  | nil =>
    have hdigit : headIs Char.isDigit rest = false := hrest.headIs rfl rfl
    match rest with
    | [] => rfl
    | [d] => simp [decimalRun, show d.char.isDigit = false from hdigit]
    | d :: u :: rest => simp [decimalRun, show d.char.isDigit = false from hdigit]
  | cons c cs ih =>
    have hc : c.isDigit = true := h c List.mem_cons_self
    have hcs := ih fun c' hc' => h c' (List.mem_cons_of_mem _ hc')
    -- what follows a digit is no underscore
    have hnext : headIs (· == '_') (cs.map Glyph.narrow ++ rest) = false := by
      cases cs with
      | nil => exact hrest.headIs rfl rfl
      | cons c' cs =>
        have hc' : c'.isDigit = true := h c' (by simp)
        simp only [List.map_cons, List.cons_append, headIs, Glyph.narrow, beq_eq_false_iff_ne]
        rintro rfl
        exact absurd hc' (by decide)
    rw [List.map_cons, List.cons_append, List.length_cons, ← hcs]
    cases htail : cs.map Glyph.narrow ++ rest with
    | nil => simp [decimalRun, Glyph.narrow, hc]
    | cons u tail =>
      rw [htail] at hnext
      have hu : (u.char == '_') = false := hnext
      simp [decimalRun, Glyph.narrow, hc, hu]

theorem decimal_append (h : ∀ c ∈ cs, c.isDigit = true) (hrest : Breaks rest) :
    decimal (cs.map Glyph.narrow ++ rest) = ⟨cs.length, true⟩ := by
  have hdrop : (cs.map Glyph.narrow ++ rest).drop cs.length = rest := by simp
  have hpoint : headIs (· == '.') rest = false := hrest.headIs rfl rfl
  have hexponent : exponent rest = 0 := by simp [exponent, hrest.headIs]
  have hletter : optional (fun c => c == 'l' || c == 'L' || c == 'j' || c == 'J') rest = 0 := by
    simp [optional, hrest.headIs]
  simp [decimal, decimalRun_append h hrest, hdrop, hpoint, hexponent, hletter]

/-- The second character of a number without a base comes before all letters. -/
theorem second_le {zero letter : Glyph} {tail : List Glyph} (h : ∀ c ∈ cs, c.isDigit = true)
    (hrest : Breaks rest) (heq : cs.map Glyph.narrow ++ rest = zero :: letter :: tail)
    (hzero : zero.char = '0') : letter.char.toNat ≤ 57 := by
  match cs, heq with
  | [], heq =>
    subst heq
    rcases hrest zero rfl with hz | hz
    · exact absurd (hzero.symm.trans hz) (by decide)
    · exact absurd (hzero.symm.trans hz) (by decide)
  | [_], heq =>
    obtain ⟨-, hrest'⟩ := List.cons.inj heq
    have hhead : rest = letter :: tail := hrest'
    rcases hrest letter (by simp [hhead]) with hl | hl
    · rw [hl]
      decide
    · rw [hl]
      decide
  | _ :: c :: _, heq =>
    obtain ⟨hl, -⟩ := List.cons.inj (List.cons.inj heq).2
    rw [← hl]
    exact (Text.toNat_of_isDigit (h c (by simp))).2

theorem number_append (h : ∀ c ∈ cs, c.isDigit = true) (hrest : Breaks rest) :
    number (cs.map Glyph.narrow ++ rest) = ⟨cs.length, true⟩ := by
  rw [← decimal_append h hrest]
  unfold number
  split
  · rename_i zero letter tail heq
    split
    · rename_i hzero
      have hletter := second_le h hrest heq (by simpa using hzero)
      split
      case h_7 => rfl
      all_goals
        rename_i hl
        rw [hl] at hletter
        exact absurd hletter (by decide)
    · rfl
  · rfl

/-! ### Operators -/

/-- The operators of written conditions that are no words. -/
def operatorMarks : List String :=
  ["+", "-", "*", "/", "//", "%", "**", "==", "!=", "<", ">", "<=", ">="]

/-- The marks of written conditions. -/
def plainMarks : List String := "(" :: ")" :: operatorMarks

/-- If the second text is longer than the first and begins with it, it goes on with a
character that extends a mark. -/
def staysApart : List Char → List Char → Bool
  | _, [] => true
  | [], c :: _ => extendsMark c
  | a :: cs, c :: text => a != c || staysApart cs text

theorem startsWith_append {text : List Char} (h : staysApart cs text = true)
    (hrest : headIs extendsMark rest = false) :
    (((cs.map Glyph.narrow ++ rest).take text.length).map Glyph.char == text) =
      (((cs.map Glyph.narrow).take text.length).map Glyph.char == text) := by
  induction text generalizing cs with
  | nil => simp
  | cons c text ih =>
    cases cs with
    | nil =>
      cases rest with
      | nil => rfl
      | cons g rest =>
        have hne : (g.char == c) = false := by
          rw [beq_eq_false_iff_ne]
          rintro rfl
          have hg : extendsMark g.char = false := hrest
          simp [staysApart, hg] at h
        simp [hne]
    | cons a cs =>
      cases hac : a == c with
      | false => simp [Glyph.narrow, hac]
      | true =>
        have htail : staysApart cs text = true := by simpa [staysApart, bne, hac] using h
        simpa [Glyph.narrow, hac] using ih htail

theorem mark?_append {text : String} (h : text ∈ plainMarks)
    (hrest : headIs extendsMark rest = false) :
    mark? (text.toList.map Glyph.narrow ++ rest) = some text := by
  have hapart : ∀ text ∈ plainMarks, ∀ m ∈ marks, staysApart text.toList m.toList = true := by
    decide
  have halone : ∀ text ∈ plainMarks, mark? (text.toList.map Glyph.narrow) = some text := by decide
  rw [← halone text h, mark?, mark?]
  refine List.find?_congr fun m hm => ?_
  have hstarts := startsWith_append (hapart text h m hm) hrest
  rw [String.length_toList] at hstarts
  exact hstarts

theorem mark_facts {text : String} (h : text ∈ plainMarks) :
    ∃ c cs, text.toList = c :: cs ∧ beginsToken c = true ∧ c.isDigit = false ∧ c ≠ '.' ∧
      Text.isIdentifierStart c = false ∧ isFlag c = false := by
  have hall : ∀ text ∈ plainMarks, (text.toList.head?.any fun c => beginsToken c && !c.isDigit &&
      c != '.' && !Text.isIdentifierStart c && !isFlag c) = true := by decide
  obtain ⟨c, hc, hfacts⟩ := (Option.any_eq_true _ _).mp (hall text h)
  obtain ⟨cs, hcs⟩ := List.head?_eq_some_iff.mp hc
  simp only [Bool.and_eq_true, Bool.not_eq_true', bne_iff_ne, and_assoc] at hfacts
  exact ⟨c, cs, hcs, hfacts⟩

end Scan

end Foregone
