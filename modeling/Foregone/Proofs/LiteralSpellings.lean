import Mathlib.Data.Nat.Digits.Defs
import Foregone.Proofs.Numerals

/-! # Spellings of integers

A number is spelled in base two, eight or sixteen behind a zero and the letter of the base,
with any zeros in front, or in base ten, with a zero in front only if all digits are zeros.
An underscore may stand between two digits and behind the letter of the base. Every spelling
is read as its number. What is behind the last digit, and what stands between two digits, is
never passed over: one wrong character there and the text has no value. -/

namespace Foregone.Literal

/-! ## Spellings -/

/-- The character is the digit of value `d`; letters may be of either case. -/
def IsDigit (d : Nat) (c : Char) : Prop := c = d.digitChar ∨ c = d.digitChar.toUpper

/-- Digits of a base, highest first, with at most one underscore between any two. -/
inductive Digits (base : Nat) : List Nat → List Char → Prop
  | last {d : Nat} {c : Char} (hd : d < base) (hc : IsDigit d c) : Digits base [d] [c]
  | next {d : Nat} {c : Char} {ds : List Nat} {cs : List Char} (hd : d < base) (hc : IsDigit d c)
      (h : Digits base ds cs) : Digits base (d :: ds) (c :: cs)
  | gap {d : Nat} {c : Char} {ds : List Nat} {cs : List Char} (hd : d < base) (hc : IsDigit d c)
      (h : Digits base ds cs) : Digits base (d :: ds) (c :: '_' :: cs)

/-- The letters of the bases. -/
def baseLetters : List (Nat × Char) :=
  [(2, 'b'), (2, 'B'), (8, 'o'), (8, 'O'), (16, 'x'), (16, 'X')]

/-- A spelling of `n` behind the letter of a base, with an underscore in between or none. -/
inductive BasedSpelling (n : Nat) : List Char → Prop
  | of {base : Nat} {letter : Char} {gap : List Char} {ds : List Nat} {cs : List Char}
      (hbase : (base, letter) ∈ baseLetters) (hgap : gap = [] ∨ gap = ['_'])
      (h : Digits base ds cs) (hn : Nat.ofDigits base ds.reverse = n) :
      BasedSpelling n ('0' :: letter :: (gap ++ cs))

/-- A spelling of `n` in base ten. -/
structure DecimalSpelling (n : Nat) (cs : List Char) : Prop where
  exists_digits : ∃ ds, Digits 10 ds cs ∧ ds.length ≤ 4300 ∧
    (ds.head? ≠ some 0 ∨ ∀ d ∈ ds, d = 0) ∧ Nat.ofDigits 10 ds.reverse = n

/-! ## Reading digits -/

theorem ofDigits_eq (base : Nat) (ds : List Nat) :
    ofDigits base ds = Nat.ofDigits base ds.reverse := by
  rw [Nat.ofDigits_eq_foldr, List.foldr_reverse, ofDigits]
  simp only [Nat.cast_id, Nat.add_comm, Nat.mul_comm]

/-- What the reader makes of the digits up to fifteen. -/
theorem digitChar_facts : ∀ d < 16, plain d.digitChar = d.digitChar ∧
    plain d.digitChar.toUpper = d.digitChar ∧ Text.digit? d.digitChar = some d ∧
    d.digitChar ∉ ['_', ' ', 'x', 'o', '+', '-'] := by
  decide +kernel

theorem IsDigit.plain_eq {d : Nat} {c : Char} (hd : d < 16) (h : IsDigit d c) :
    plain c = d.digitChar := by
  obtain ⟨hlower, hupper, -⟩ := digitChar_facts d hd
  rcases h with rfl | rfl
  · exact hlower
  · exact hupper

theorem digitBelow?_digitChar {base d : Nat} (hbase : base ≤ 16) (hd : d < base) :
    digitBelow? base d.digitChar = some d := by
  simp only [digitBelow?, (digitChar_facts d (Nat.lt_of_lt_of_le hd hbase)).2.2.1, if_pos hd]

/-- An underscore behind a digit is passed over. -/
theorem digits?_gap (base : Nat) (c : Char) (cs : List Char) :
    digits? base (c :: '_' :: cs) =
      (digitBelow? base c).bind fun d => (digits? base cs).map (d :: ·) := by
  rw [digits?]
  cases digitBelow? base c with
  | none => rfl
  | some d => cases digits? base cs <;> rfl

theorem digits?_cons (base : Nat) (c : Char) {c' : Char} (hc : c' ≠ '_') (cs : List Char) :
    digits? base (c :: c' :: cs) =
      (digitBelow? base c).bind fun d => (digits? base (c' :: cs)).map (d :: ·) := by
  rw [digits?]
  · cases digitBelow? base c with
    | none => rfl
    | some d => cases digits? base (c' :: cs) <;> rfl
  · exact List.cons_ne_nil _ _
  · rintro rest ⟨⟩
    exact hc rfl

theorem Digits.exists_cons {base : Nat} {ds : List Nat} {cs : List Char} (h : Digits base ds cs) :
    ∃ d ds' c cs', ds = d :: ds' ∧ cs = c :: cs' ∧ d < base ∧ IsDigit d c := by
  cases h with
  | last hd hc => exact ⟨_, _, _, _, rfl, rfl, hd, hc⟩
  | next hd hc _ => exact ⟨_, _, _, _, rfl, rfl, hd, hc⟩
  | gap hd hc _ => exact ⟨_, _, _, _, rfl, rfl, hd, hc⟩

/-- The plain forms of the characters are the digits in lower case, and underscores. -/
theorem Digits.mem_map_plain {base : Nat} {ds : List Nat} {cs : List Char} (hbase : base ≤ 16)
    (h : Digits base ds cs) : ∀ c ∈ cs.map plain, c = '_' ∨ ∃ d < base, c = d.digitChar := by
  have hgap : plain '_' = '_' := by decide
  induction h with
  | last hd hc =>
    intro x hx
    cases List.mem_singleton.mp hx
    exact .inr ⟨_, hd, hc.plain_eq (Nat.lt_of_lt_of_le hd hbase)⟩
  | next hd hc _ ih =>
    intro x hx
    rcases List.mem_cons.mp hx with rfl | hx
    · exact .inr ⟨_, hd, hc.plain_eq (Nat.lt_of_lt_of_le hd hbase)⟩
    · exact ih x hx
  | gap hd hc _ ih =>
    intro x hx
    rcases List.mem_cons.mp hx with rfl | hx
    · exact .inr ⟨_, hd, hc.plain_eq (Nat.lt_of_lt_of_le hd hbase)⟩
    · rcases List.mem_cons.mp hx with rfl | hx
      · exact .inl hgap
      · exact ih x hx

theorem Digits.digits?_map_plain {base : Nat} {ds : List Nat} {cs : List Char} (hbase : base ≤ 16)
    (h : Digits base ds cs) : digits? base (cs.map plain) = some ds := by
  have hgap : plain '_' = '_' := by decide
  induction h with
  | last hd hc =>
    rw [List.map_singleton, hc.plain_eq (Nat.lt_of_lt_of_le hd hbase), digits?,
      digitBelow?_digitChar hbase hd]
    rfl
  | next hd hc h ih =>
    obtain ⟨d', ds', c', cs', rfl, rfl, hd', hc'⟩ := h.exists_cons
    have hlt := Nat.lt_of_lt_of_le hd' hbase
    have hne : plain c' ≠ '_' := by
      rw [hc'.plain_eq hlt]
      exact List.ne_of_not_mem_cons (digitChar_facts d' hlt).2.2.2
    rw [List.map_cons, hc.plain_eq (Nat.lt_of_lt_of_le hd hbase), List.map_cons,
      digits?_cons _ _ hne, digitBelow?_digitChar hbase hd, ← List.map_cons, ih]
    rfl
  | gap hd hc h ih =>
    rw [List.map_cons, hc.plain_eq (Nat.lt_of_lt_of_le hd hbase), List.map_cons, hgap, digits?_gap,
      digitBelow?_digitChar hbase hd, ih]
    rfl

/-! ## Blanks around a text -/

theorem dropWhile_blank_append (cs : List Char) {ds : List Char} (h : ∀ c ∈ ds.head?, c ≠ ' ') :
    (cs ++ ds).dropWhile (· == ' ') = cs.dropWhile (· == ' ') ++ ds := by
  induction cs with
  | nil =>
    cases ds with
    | nil => rfl
    | cons d ds => simp [h d rfl]
  | cons c cs ih =>
    by_cases hc : c = ' '
    · simpa [hc] using ih
    · simp [hc]

/-- What has no blanks stays when the blanks around a text are dropped. -/
theorem trimmed_append (cs : List Char) {ms : List Char} (ds : List Char) (hne : ms ≠ [])
    (hblank : ∀ c ∈ ms, c ≠ ' ') :
    trimmed (cs ++ (ms ++ ds)) =
      cs.dropWhile (· == ' ') ++ (ms ++ (ds.reverse.dropWhile (· == ' ')).reverse) := by
  have hhead : ∀ (ms ds : List Char), ms ≠ [] → (∀ c ∈ ms, c ≠ ' ') →
      ∀ c ∈ (ms ++ ds).head?, c ≠ ' ' := by
    intro ms ds hne hblank c hc
    obtain ⟨m, ms, rfl⟩ := List.exists_cons_of_ne_nil hne
    cases hc
    exact hblank c List.mem_cons_self
  have hreverse : ∀ c ∈ ms.reverse, c ≠ ' ' := fun c hc => hblank c (List.mem_reverse.mp hc)
  rw [trimmed, dropWhile_blank_append cs (hhead ms ds hne hblank), List.reverse_append,
    List.reverse_append, List.append_assoc, dropWhile_blank_append ds.reverse
      (hhead ms.reverse _ (List.reverse_ne_nil_iff.mpr hne) hreverse)]
  simp only [List.reverse_append, List.reverse_reverse, List.append_assoc]

theorem trimmed_eq_self {cs : List Char} (h : ∀ c ∈ cs, c ≠ ' ') : trimmed cs = cs := by
  by_cases hne : cs = []
  · rw [hne]
    rfl
  · simpa using trimmed_append [] [] hne h

/-! ## Reading whole texts -/

theorem signed?_eq_natural? {cs : List Char} (h : ∀ c ∈ cs.head?, c ∉ ['+', '-']) :
    signed? cs = (natural? cs).map Int.ofNat := by
  unfold signed?
  split
  · exact absurd (h '+' rfl) (by decide)
  · exact absurd (h '-' rfl) (by decide)
  · rfl

theorem natural?_eq_decimal? {cs : List Char} (h : ∀ c ∈ cs.tail.head?, c ∉ ['x', 'o', 'b']) :
    natural? cs = decimal? cs := by
  unfold natural?
  split
  · exact absurd (h 'x' rfl) (by decide)
  · exact absurd (h 'o' rfl) (by decide)
  · exact absurd (h 'b' rfl) (by decide)
  · rfl

theorem natural?_baseLetter {base : Nat} {letter : Char} (h : (base, letter) ∈ baseLetters)
    (rest : List Char) :
    natural? ('0' :: plain letter :: rest) = based? base rest ∧ plain letter ∉ [' ', '+', '-'] ∧
      base ≤ 16 := by
  have hplain : plain 'b' = 'b' ∧ plain 'B' = 'b' ∧ plain 'o' = 'o' ∧ plain 'O' = 'o' ∧
      plain 'x' = 'x' ∧ plain 'X' = 'x' := by decide +kernel
  obtain ⟨hb, hB, ho, hO, hx, hX⟩ := hplain
  simp only [baseLetters, List.mem_cons, Prod.mk.injEq, List.not_mem_nil, or_false] at h
  rcases h with ⟨rfl, rfl⟩ | ⟨rfl, rfl⟩ | ⟨rfl, rfl⟩ | ⟨rfl, rfl⟩ | ⟨rfl, rfl⟩ | ⟨rfl, rfl⟩
  · rw [hb]
    exact ⟨rfl, by decide, by decide⟩
  · rw [hB]
    exact ⟨rfl, by decide, by decide⟩
  · rw [ho]
    exact ⟨rfl, by decide, by decide⟩
  · rw [hO]
    exact ⟨rfl, by decide, by decide⟩
  · rw [hx]
    exact ⟨rfl, by decide, by decide⟩
  · rw [hX]
    exact ⟨rfl, by decide, by decide⟩

/-- A text without blanks and signs is read as it stands, in plain form. -/
theorem integer?_ofList {cs : List Char} (h : ∀ c ∈ cs.map plain, c ∉ [' ', '+', '-']) :
    integer? (String.ofList cs) = (natural? (cs.map plain)).map Int.ofNat := by
  have hblank : ∀ c ∈ cs.map plain, c ≠ ' ' := fun c hc => List.ne_of_not_mem_cons (h c hc)
  rw [integer?, String.toList_ofList, trimmed_eq_self hblank, signed?_eq_natural? ?_]
  intro c hc
  exact List.not_mem_of_not_mem_cons (h c (List.mem_of_mem_head? hc))

/-- The characters of a spelling are no blanks and no signs. -/
theorem Digits.not_mem_map_plain {base : Nat} {ds : List Nat} {cs : List Char} (hbase : base ≤ 16)
    (h : Digits base ds cs) : ∀ c ∈ cs.map plain, c ∉ [' ', '+', '-'] := by
  intro c hc
  rcases h.mem_map_plain hbase c hc with rfl | ⟨d, hd, rfl⟩
  · decide
  · have hfacts := (digitChar_facts d (Nat.lt_of_lt_of_le hd hbase)).2.2.2
    simp only [List.mem_cons, List.not_mem_nil, or_false, not_or] at hfacts ⊢
    exact ⟨hfacts.2.1, hfacts.2.2.2.2⟩

theorem based?_of_ne {base : Nat} {c : Char} (hc : c ≠ '_') (cs : List Char) :
    based? base (c :: cs) = (digits? base (c :: cs)).map (ofDigits base) := by
  rw [based?]
  rintro rest ⟨⟩
  exact hc rfl

theorem Digits.based?_eq {base : Nat} {gap : List Char} {ds : List Nat} {cs : List Char}
    (hbase : base ≤ 16) (hgap : gap = [] ∨ gap = ['_']) (h : Digits base ds cs) :
    based? base ((gap ++ cs).map plain) = some (ofDigits base ds) := by
  have hread := h.digits?_map_plain hbase
  rcases hgap with rfl | rfl
  · obtain ⟨d, ds', c, cs', -, rfl, hd, hc⟩ := h.exists_cons
    have hlt := Nat.lt_of_lt_of_le hd hbase
    have hne : plain c ≠ '_' := by
      rw [hc.plain_eq hlt]
      exact List.ne_of_not_mem_cons (digitChar_facts d hlt).2.2.2
    rw [List.nil_append, List.map_cons, based?_of_ne hne, ← List.map_cons, hread]
    rfl
  · have hplain : plain '_' = '_' := by decide
    rw [List.singleton_append, List.map_cons, hplain, based?, hread]
    rfl

theorem BasedSpelling.integer?_eq {n : Nat} {cs : List Char} (h : BasedSpelling n cs) :
    integer? (String.ofList cs) = some (n : Int) := by
  obtain ⟨hbase, hgap, h, hn⟩ := h
  rename_i base letter gap ds cs
  obtain ⟨hnatural, hletter, hle⟩ := natural?_baseLetter hbase ((gap ++ cs).map plain)
  have hzero : plain '0' = '0' := by decide
  have hplain : ∀ c ∈ ('0' :: letter :: (gap ++ cs)).map plain, c ∉ [' ', '+', '-'] := by
    simp only [List.map_cons, List.map_append, List.forall_mem_cons, List.forall_mem_append]
    refine ⟨by rw [hzero]; decide, hletter, ?_, h.not_mem_map_plain hle⟩
    rcases hgap with rfl | rfl
    · exact List.forall_mem_nil _
    · exact List.forall_mem_singleton.mpr (by decide)
  rw [integer?_ofList hplain, List.map_cons, hzero, List.map_cons, hnatural,
    h.based?_eq hle hgap, ofDigits_eq, hn]
  rfl

/-- In base ten a zero in front of other digits spoils the number. -/
theorem Digits.decimal?_eq {ds : List Nat} {cs : List Char} (h : Digits 10 ds cs) :
    natural? (cs.map plain) =
      if maxDigits < ds.length then none
      else if ds.head? = some 0 ∧ ofDigits 10 ds ≠ 0 then none
      else some (ofDigits 10 ds) := by
  have hdecimal : ∀ c ∈ (cs.map plain).tail.head?, c ∉ ['x', 'o', 'b'] := by
    intro c hc
    have hmem := List.mem_of_mem_tail (List.mem_of_mem_head? hc)
    rcases h.mem_map_plain (by decide) c hmem with rfl | ⟨d, hd, rfl⟩
    · decide
    · have hdigits : ∀ d < 10, d.digitChar ∉ ['x', 'o', 'b'] := by decide
      exact hdigits d hd
  rw [natural?_eq_decimal? hdecimal, decimal?, h.digits?_map_plain (by decide)]

theorem Digits.integer?_eq {ds : List Nat} {cs : List Char} (h : Digits 10 ds cs) :
    integer? (String.ofList cs) =
      if 4300 < ds.length then none
      else if ds.head? = some 0 ∧ Nat.ofDigits 10 ds.reverse ≠ 0 then none
      else some ((Nat.ofDigits 10 ds.reverse : Nat) : Int) := by
  rw [integer?_ofList (h.not_mem_map_plain (by decide)), h.decimal?_eq, ofDigits_eq, maxDigits]
  split_ifs <;> rfl

theorem DecimalSpelling.integer?_eq {n : Nat} {cs : List Char} (h : DecimalSpelling n cs) :
    integer? (String.ofList cs) = some (n : Int) := by
  obtain ⟨ds, hds, hlength, hhead, rfl⟩ := h
  have hzeros : (∀ d ∈ ds, d = 0) → Nat.ofDigits 10 ds.reverse = 0 := by
    intro hall
    rw [List.eq_replicate_of_mem hall, List.reverse_replicate, Nat.ofDigits_replicate_zero]
  rw [hds.integer?_eq, if_neg (Nat.not_lt.mpr hlength), if_neg]
  rintro ⟨hzero, hne⟩
  rcases hhead with hhead | hall
  · exact hhead hzero
  · exact hne (hzeros hall)

/-- A number other than zero cannot have one more zero in front. -/
theorem DecimalSpelling.integer?_zero_cons {n : Nat} {cs : List Char} (h : DecimalSpelling n cs)
    (hn : n ≠ 0) : integer? (String.ofList ('0' :: cs)) = none := by
  obtain ⟨ds, hds, -, -, rfl⟩ := h
  have hzero : Digits 10 (0 :: ds) ('0' :: cs) := .next (by decide) (.inl rfl) hds
  rw [hzero.integer?_eq, Nat.ofDigits_reverse_zero_cons]
  split
  · rfl
  · exact if_pos ⟨rfl, hn⟩

/-! ## Texts that are no spellings

A tail that holds no digits where they are expected spoils every text that ends in it. -/

/-- The tail begins with a character that is no part of a sign or of the letter of a base, and
no digits can be read from it, nor from what is behind its first underscore. -/
structure Spoils (tail : List Char) : Prop where
  head : ∃ c rest, tail = c :: rest ∧ c ∉ ['0', 'x', 'o', 'b', '+', '-']
  digits : ∀ base ≤ 16, digits? base tail = none
  digits_behind : ∀ base ≤ 16, ∀ rest, tail = '_' :: rest → digits? base rest = none

variable {tail : List Char}

/-- A character in front does not help, whether it is a digit or not. -/
theorem Spoils.digits?_cons (h : Spoils tail) {base : Nat} (hbase : base ≤ 16) (c : Char) :
    digits? base (c :: tail) = none := by
  obtain ⟨t, rest, rfl, -⟩ := h.head
  by_cases ht : t = '_'
  · subst ht
    rw [digits?_gap, h.digits_behind base hbase rest rfl]
    cases digitBelow? base c <;> rfl
  · rw [Literal.digits?_cons _ _ ht, h.digits base hbase]
    cases digitBelow? base c <;> rfl

/-- Neither do several. -/
theorem Spoils.digits?_append (h : Spoils tail) {base : Nat} (hbase : base ≤ 16) (cs : List Char) :
    digits? base (cs ++ tail) = none := by
  match cs with
  | [] => exact h.digits base hbase
  | [c] => exact h.digits?_cons hbase c
  | c :: c' :: cs =>
    by_cases hc : c' = '_'
    · subst hc
      rw [List.cons_append, List.cons_append, digits?_gap, h.digits?_append hbase cs]
      cases digitBelow? base c <;> rfl
    · have hrest := h.digits?_append hbase (c' :: cs)
      rw [List.cons_append] at hrest
      rw [List.cons_append, List.cons_append, Literal.digits?_cons _ _ hc, hrest]
      cases digitBelow? base c <;> rfl

theorem Spoils.based?_append (h : Spoils tail) {base : Nat} (hbase : base ≤ 16) (cs : List Char) :
    based? base (cs ++ tail) = none := by
  have hbehind : ∀ rest, cs ++ tail = '_' :: rest → digits? base rest = none := by
    intro rest heq
    cases cs with
    | nil => exact h.digits_behind base hbase rest heq
    | cons c cs =>
      obtain ⟨-, rfl⟩ := List.cons.inj heq
      exact h.digits?_append hbase cs
  unfold based?
  split
  · rename_i rest heq
    exact congrArg (Option.map (ofDigits base)) (hbehind rest heq)
  · exact congrArg (Option.map (ofDigits base)) (h.digits?_append hbase cs)

/-- A character that the tail cannot begin with is in front of it. -/
theorem Spoils.exists_of_append_eq (h : Spoils tail) {c : Char} {cs rest : List Char}
    (hc : c ∈ ['0', 'x', 'o', 'b', '+', '-']) (heq : cs ++ tail = c :: rest) :
    ∃ cs', rest = cs' ++ tail := by
  cases cs with
  | nil =>
    obtain ⟨t, ts, ht, hnot⟩ := h.head
    obtain ⟨rfl, -⟩ := List.cons.inj (ht.symm.trans heq)
    exact (hnot hc).elim
  | cons _ cs => exact ⟨cs, (List.cons.inj heq).2.symm⟩

theorem Spoils.natural?_append (h : Spoils tail) (cs : List Char) :
    natural? (cs ++ tail) = none := by
  have hbased {base : Nat} {c : Char} {rest : List Char} (hbase : base ≤ 16)
      (hc : c ∈ ['0', 'x', 'o', 'b', '+', '-']) (heq : cs ++ tail = '0' :: c :: rest) :
      based? base rest = none := by
    obtain ⟨cs', heq'⟩ := h.exists_of_append_eq (by decide) heq
    obtain ⟨cs'', rfl⟩ := h.exists_of_append_eq hc heq'.symm
    exact h.based?_append hbase cs''
  unfold natural?
  split
  · rename_i rest heq
    exact hbased (by decide) (by decide) heq
  · rename_i rest heq
    exact hbased (by decide) (by decide) heq
  · rename_i rest heq
    exact hbased (by decide) (by decide) heq
  · rw [decimal?, h.digits?_append (by decide)]

theorem Spoils.signed?_append (h : Spoils tail) (cs : List Char) :
    signed? (cs ++ tail) = none := by
  unfold signed?
  split
  · rename_i rest heq
    obtain ⟨cs', rfl⟩ := h.exists_of_append_eq (by decide) heq
    rw [h.natural?_append]
    rfl
  · rename_i rest heq
    obtain ⟨cs', rfl⟩ := h.exists_of_append_eq (by decide) heq
    rw [h.natural?_append]
    rfl
  · rw [h.natural?_append]
    rfl

/-! ### Endings and doubled underscores -/

theorem digitBelow?_eq_none : ∀ c ∈ ['j', 'l', '_'], ∀ base ≤ 16, digitBelow? base c = none := by
  simp only [List.forall_mem_cons]
  exact ⟨by decide +kernel, by decide +kernel, by decide +kernel, List.forall_mem_nil _⟩

theorem digits?_underscore {base : Nat} (hbase : base ≤ 16) (cs : List Char) :
    digits? base ('_' :: cs) = none := by
  have hnone : digitBelow? base '_' = none := digitBelow?_eq_none '_' (by decide) base hbase
  cases cs with
  | nil =>
    rw [digits?, hnone]
    rfl
  | cons c cs =>
    by_cases hc : c = '_'
    · rw [hc, digits?_gap, hnone]
      rfl
    · rw [digits?_cons _ _ hc, hnone]
      rfl

theorem spoils_single {c : Char} (hc : c ∈ ['j', 'l', '_']) : Spoils [c] where
  head := by
    have hnot : ∀ c ∈ ['j', 'l', '_'], c ∉ ['0', 'x', 'o', 'b', '+', '-'] := by simp
    exact ⟨c, [], rfl, hnot c hc⟩
  digits base hbase := by
    rw [digits?, digitBelow?_eq_none c hc base hbase]
    rfl
  digits_behind base hbase rest heq := by
    obtain ⟨-, rfl⟩ := List.cons.inj heq
    rfl

theorem spoils_doubled (rest : List Char) : Spoils ('_' :: '_' :: rest) where
  head := ⟨'_', '_' :: rest, rfl, by decide⟩
  digits base hbase := digits?_underscore hbase _
  digits_behind base hbase rest' heq := by
    obtain ⟨-, rfl⟩ := List.cons.inj heq
    exact digits?_underscore hbase rest

theorem integer?_push {c : Char} (hc : c ∈ ['j', 'J', 'l', 'L', '_']) (s : String) :
    integer? (s.push c) = none := by
  have hplain : ∀ c ∈ ['j', 'J', 'l', 'L', '_'], plain c ∈ ['j', 'l', '_'] := by
    simp only [List.forall_mem_cons]
    exact ⟨by decide, by decide, by decide, by decide, by decide, List.forall_mem_nil _⟩
  have hblank : ∀ c ∈ ['j', 'l', '_'], c ≠ ' ' := by simp
  have hsingle : ∀ m ∈ [plain c], m ≠ ' ' := by
    intro m hm
    cases List.mem_singleton.mp hm
    exact hblank _ (hplain c hc)
  have htext : (s.push c).toList.map plain = s.toList.map plain ++ ([plain c] ++ []) := by simp
  rw [integer?, htext, trimmed_append _ [] (List.cons_ne_nil _ _) hsingle]
  exact (spoils_single (hplain c hc)).signed?_append _

theorem integer?_doubled (s t : String) : integer? (s ++ "__" ++ t) = none := by
  have hplain : ("__".toList.map plain) = ['_', '_'] := by decide +kernel
  have htext : (s ++ "__" ++ t).toList.map plain =
      s.toList.map plain ++ (['_', '_'] ++ t.toList.map plain) := by
    rw [String.toList_append, String.toList_append, List.map_append, List.map_append, hplain,
      List.append_assoc]
  rw [integer?, htext, trimmed_append _ _ (List.cons_ne_nil _ _) (by simp)]
  exact (spoils_doubled _).signed?_append _

/-- Every spelling of a number, in each of the four bases, is read as that number. A text that
ends in an underscore or in one of the letters `j` and `l`, or that has two underscores side by
side, has no value, whatever the rest of it is; neither has the decimal spelling of a number
other than zero with one more zero in front. -/
theorem integer?_exact (n : Nat) :
    (∀ cs, BasedSpelling n cs ∨ DecimalSpelling n cs →
      integer? (String.ofList cs) = some (n : Int)) ∧
    (∀ s : String, ∀ c ∈ ['j', 'J', 'l', 'L', '_'], integer? (s.push c) = none) ∧
    (∀ s t : String, integer? (s ++ "__" ++ t) = none) ∧
    (n ≠ 0 → ∀ cs, DecimalSpelling n cs → integer? (String.ofList ('0' :: cs)) = none) := by
  refine ⟨?_, ?_, integer?_doubled, ?_⟩
  · rintro cs (h | h)
    · exact h.integer?_eq
    · exact h.integer?_eq
  · intro s c hc
    exact integer?_push hc s
  · intro hn cs h
    exact h.integer?_zero_cons hn

/-- A capital letter for the base, an underscore behind it, a zero in front and digits of
either case; the same number in base ten; and the latter with a zero in front. -/
theorem integer?_exact_mixed_case :
    BasedSpelling 2989 "0X_0bA_d".toList ∧ DecimalSpelling 2989 "2_989".toList ∧
      integer? "0X_0bA_d" = some 2989 ∧ integer? "2_989" = some 2989 ∧
      integer? "02_989" = none := by
  have hhex : Digits 16 [0, 11, 10, 13] "0bA_d".toList :=
    .next (by decide) (.inl rfl) <| .next (by decide) (.inl rfl) <|
      .gap (by decide) (.inr rfl) <| .last (by decide) (.inl rfl)
  have hten : Digits 10 [2, 9, 8, 9] "2_989".toList :=
    .gap (by decide) (.inl rfl) <| .next (by decide) (.inl rfl) <|
      .next (by decide) (.inl rfl) <| .last (by decide) (.inl rfl)
  have hbased : BasedSpelling 2989 "0X_0bA_d".toList :=
    @BasedSpelling.of 2989 16 'X' ['_'] _ _ (by decide) (.inr rfl) hhex (by decide)
  have hdecimal : DecimalSpelling 2989 "2_989".toList :=
    ⟨_, hten, by decide, .inl (by decide), by decide⟩
  obtain ⟨hread, -, -, hzero⟩ := integer?_exact 2989
  exact ⟨hbased, hdecimal, hread _ (.inl hbased), hread _ (.inr hdecimal),
    hzero (by decide) _ hdecimal⟩

end Foregone.Literal
