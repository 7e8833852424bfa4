import Foregone.Literal

/-! # Decimal numerals

The usual decimal spelling of a number is read as that number, if it has no more digits
than a literal may have. -/

namespace Foregone

namespace Text

theorem toNat_of_isDigit {c : Char} (h : c.isDigit = true) : 48 ≤ c.toNat ∧ c.toNat ≤ 57 :=
  Char.isDigit_iff_toNat.mp h

theorem decimalDigit?_of_isDigit {c : Char} (h : c.isDigit = true) :
    decimalDigit? c = some (c.toNat - '0'.toNat) := by
  have hc : 48 ≤ c.toNat ∧ c.toNat < 48 + 10 := by
    have := toNat_of_isDigit h
    omega
  simp [decimalDigit?, zeros, hc]

end Text

namespace Literal

theorem plain_of_isDigit {c : Char} (h : c.isDigit = true) : plain c = c := by
  have hsum : '0'.toNat + (c.toNat - '0'.toNat) = c.toNat :=
    Nat.add_sub_of_le (Text.toNat_of_isDigit h).1
  simp only [plain, Text.decimalDigit?_of_isDigit h, hsum, Char.ofNat_toNat]

theorem digitBelow?_of_isDigit {c : Char} (h : c.isDigit = true) :
    digitBelow? 10 c = some (c.toNat - '0'.toNat) := by
  have hlt : c.toNat - '0'.toNat < 10 := by
    have := (Text.toNat_of_isDigit h).2
    show c.toNat - 48 < 10
    omega
  simp only [digitBelow?, Text.digit?, Text.decimalDigit?_of_isDigit h, if_pos hlt]

theorem digits?_of_isDigit {cs : List Char} (hne : cs ≠ []) (h : ∀ c ∈ cs, c.isDigit = true) :
    digits? 10 cs = some (cs.map fun c => c.toNat - '0'.toNat) := by
  fun_induction digits? 10 cs with
  | case1 => exact (hne rfl).elim
  | case2 c => simp [digitBelow?_of_isDigit (h c List.mem_cons_self)]
  | case3 c rest | case4 c rest =>
    -- an underscore is no digit
    exact absurd (h '_' (by simp)) (by decide)
  | case5 c rest hrest _ d ds hds hd ih =>
    have hrest' := ih hrest fun c' hc' => h c' (List.mem_cons_of_mem _ hc')
    cases hd.symm.trans (digitBelow?_of_isDigit (h c List.mem_cons_self))
    cases hds.symm.trans hrest'
    rfl
  | case6 c rest hrest _ hno ih =>
    have hds := ih hrest fun c' hc' => h c' (List.mem_cons_of_mem _ hc')
    exact (hno _ _ (digitBelow?_of_isDigit (h c List.mem_cons_self)) hds).elim

theorem ofDigits_map (cs : List Char) :
    ofDigits 10 (cs.map fun c => c.toNat - '0'.toNat) = Nat.ofDigitChars 10 cs 0 := by
  simp only [ofDigits, Nat.ofDigitChars, List.foldl_map, Nat.mul_comm]

theorem isDigit_of_mem_toDigits {n : Nat} : ∀ c ∈ Nat.toDigits 10 n, c.isDigit = true :=
  fun _ hc => Nat.isDigit_of_mem_toDigits (by decide) (by decide) hc

/-- No number but zero is written with a zero in front. -/
theorem head?_toDigits {n : Nat} (h : n ≠ 0) :
    (Nat.toDigits 10 n).head?.map (fun c => c.toNat - '0'.toNat) ≠ some 0 := by
  induction n using Nat.strongRecOn with
  | ind n ih =>
    by_cases hlt : n < 10
    · have hdigit : ∀ d < 10, (Nat.digitChar d).toNat - '0'.toNat = d := by decide
      rw [Nat.toDigits_of_lt_base hlt, List.head?_cons, Option.map_some, hdigit n hlt]
      exact fun hzero => h (Option.some.inj hzero)
    · obtain ⟨c, cs, hcs⟩ :=
        List.exists_cons_of_ne_nil (Nat.toDigits_ne_nil (n := n / 10) (b := 10))
      have htop := ih (n / 10) (by omega) (by omega)
      rw [hcs] at htop
      rw [Nat.toDigits_of_base_le (by decide) (by omega), hcs]
      exact htop

theorem decimal?_toDigits {n : Nat} (h : (Nat.toDigits 10 n).length ≤ maxDigits) :
    decimal? (Nat.toDigits 10 n) = some n := by
  have hdigits : ∀ c ∈ Nat.toDigits 10 n, c.isDigit = true := isDigit_of_mem_toDigits
  have hvalue : ofDigits 10 ((Nat.toDigits 10 n).map fun c => c.toNat - '0'.toNat) = n := by
    rw [ofDigits_map, Nat.ofDigitChars_ten_toDigits]
  have hhead : ¬(((Nat.toDigits 10 n).map fun c => c.toNat - '0'.toNat).head? = some 0 ∧
      n ≠ 0) := by
    rintro ⟨hzero, hn⟩
    rw [List.head?_map] at hzero
    exact head?_toDigits hn hzero
  simp only [decimal?, digits?_of_isDigit Nat.toDigits_ne_nil hdigits, List.length_map, hvalue,
    if_neg (Nat.not_lt.mpr h), if_neg hhead]

/-- Digits alone are a decimal number without a sign. -/
theorem signed?_of_isDigit {cs : List Char} (h : ∀ c ∈ cs, c.isDigit = true) :
    signed? cs = (decimal? cs).map Int.ofNat := by
  unfold signed?
  split
  · exact absurd (h '+' List.mem_cons_self) (by decide)
  · exact absurd (h '-' List.mem_cons_self) (by decide)
  · unfold natural?
    split
    · exact absurd (h 'x' (by simp)) (by decide)
    · exact absurd (h 'o' (by simp)) (by decide)
    · exact absurd (h 'b' (by simp)) (by decide)
    · rfl

theorem dropWhile_blank {cs : List Char} (h : ∀ c ∈ cs, c.isDigit = true) :
    cs.dropWhile (· == ' ') = cs := by
  cases cs with
  | nil => rfl
  | cons c cs =>
    have hc : c ≠ ' ' := by
      rintro rfl
      exact absurd (h ' ' List.mem_cons_self) (by decide)
    simp [hc]

theorem integer?_toString {n : Nat} (h : (Nat.toDigits 10 n).length ≤ maxDigits) :
    integer? (toString n) = some (n : Int) := by
  have hdigits : ∀ c ∈ Nat.toDigits 10 n, c.isDigit = true := isDigit_of_mem_toDigits
  have hplain : (Nat.toDigits 10 n).map plain = Nat.toDigits 10 n :=
    (List.map_congr_left fun c hc => plain_of_isDigit (hdigits c hc)).trans (List.map_id _)
  have hreverse : ∀ c ∈ (Nat.toDigits 10 n).reverse, c.isDigit = true := fun c hc =>
    hdigits c (List.mem_reverse.mp hc)
  rw [integer?, Nat.toString_eq_ofList_toDigits, String.toList_ofList, hplain, trimmed,
    dropWhile_blank hdigits, dropWhile_blank hreverse, List.reverse_reverse,
    signed?_of_isDigit hdigits, decimal?_toDigits h]
  rfl

end Literal
end Foregone
