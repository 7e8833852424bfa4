import Foregone.Proofs.ExactArithmetic
import Foregone.Proofs.RoundTrip
import Foregone.Proofs.Spine

/-! # Integers as they are written

A negative integer is a sign in front of a numeral, and both are judged on their own: the
numeral has to be a word before it is negated. So every word has a text of its own but for
the least one, whose numeral is one too large. -/

namespace Foregone

namespace Value

theorem checked_of_fits {n : Int} (h : -2 ^ 63 ≤ n ∧ n < 2 ^ 63) : checked n = .int n :=
  if_pos (Word.fits_iff.mpr h)

theorem checked_of_not_fits {n : Int} (h : ¬ (-2 ^ 63 ≤ n ∧ n < 2 ^ 63)) :
    checked n = .unknown := if_neg (mt Word.fits_iff.mp h)

end Value

namespace Expr

/-- An integer in base ten, with a sign in front of it if it is negative. -/
def numeral : Int → Expr
  | .ofNat k => .num (some k) true
  | .negSucc k => .unary .minus (.num (some (k + 1 : Nat)) true)

theorem text_numeral (n : Int) : (numeral n).text = toString n := by
  cases n with
  | ofNat k => rfl
  | negSucc k => rfl

variable {n : Int} (h : (toString n.natAbs).length ≤ Literal.maxDigits)

include h

/-! ## Reading -/

theorem numeral_spelled : ∃ f, (numeral n).Spelled f := by
  cases n with
  | ofNat k => exact ⟨.atom, .num h⟩
  | negSucc k => exact ⟨.whole, .unary rfl (.num h)⟩

theorem ofText_numeral : ofText (toString n) = .ok (numeral n) := by
  obtain ⟨f, hspelled⟩ := numeral_spelled h
  have hlayers : (numeral n).layers ≤ 200 := by
    cases n with
    | ofNat k => exact Nat.zero_le _
    | negSucc k => exact (by decide : 1 ≤ 200)
  have hread := hspelled.ofText_eq (hspelled.conversionDepth_le_usualRoom hlayers)
  rwa [text_numeral] at hread

/-- A sign belongs to the numeral behind it, on either side of a comparison. -/
theorem numeral_isComparand : Rule.IsComparand (numeral n) where
  spelled := numeral_spelled h
  reads := by
    cases n with
    | ofNat k => exact (Rule.operandReads_num h).comparand
    | negSucc k => exact Rule.comparandReads_sign (.inr rfl) (.num h) (Rule.operandReads_num h)

theorem ofText_compared_numerals (c : Comparison) :
    ofText (toString n ++ " " ++ c.symbol ++ " " ++ toString n) =
      .ok (.binary (.compare c) (numeral n) (numeral n) false) := by
  have hcomparand := numeral_isComparand h
  obtain ⟨f, hspelled⟩ := numeral_spelled h
  have hlinks : Rule.LinksRead [(c, numeral n)] := List.forall_mem_singleton.mpr hcomparand
  have hsupported : (BinaryOp.compare c).isSupported = true := rfl
  have hmade := hspelled.isMadeOfTokens.binary hsupported hspelled.isMadeOfTokens false
  have hdepth : (binary (.compare c) (numeral n) (numeral n) false).conversionDepth ≤
      Host.usualRoom := by
    cases n with
    | ofNat k => exact (by decide : 3 ≤ 960)
    | negSucc k => exact (by decide : 4 ≤ 960)
  have hread := hmade.ofText_eq (Rule.wholeReads_row hcomparand hlinks) hdepth
  rw [text, text_numeral] at hread
  exact hread

omit h

/-! ## Evaluation -/

/-- The bounds are the same on either side: it is the numeral that has to be a word. -/
theorem evaluate_numeral (n : Int) :
    (numeral n).evaluate = .ok (if -2 ^ 63 < n ∧ n < 2 ^ 63 then .int n else .unknown) := by
  have hliteral (k : Nat) : (num (some (k : Int)) true).evaluate = .ok (.checked k) := rfl
  by_cases h : -2 ^ 63 < n ∧ n < 2 ^ 63
  · rw [if_pos h]
    cases n with
    | ofNat k =>
      rw [Int.ofNat_eq_natCast] at h
      exact (hliteral k).trans (congrArg _ (Value.checked_of_fits (by omega)))
    | negSucc k =>
      refine evaluate_unary ((hliteral _).trans (congrArg _ (Value.checked_of_fits (by omega)))) ?_
      exact congrArg Except.ok (Value.checked_of_fits (by omega))
  · rw [if_neg h]
    cases n with
    | ofNat k =>
      rw [Int.ofNat_eq_natCast] at h
      exact (hliteral k).trans (congrArg _ (Value.checked_of_not_fits (by omega)))
    | negSucc k =>
      exact evaluate_unary ((hliteral _).trans (congrArg _ (Value.checked_of_not_fits (by omega)))) rfl

theorem verdict?_compared_numerals (c : Comparison) (n : Int) :
    (binary (.compare c) (numeral n) (numeral n) false).verdict? =
      .ok (if -2 ^ 63 < n ∧ n < 2 ^ 63 then some (c.holds n n) else none) := by
  rw [verdict?, evaluate_unchained _ (evaluate_numeral n) (evaluate_numeral n)]
  split
  · rfl
  · rfl

/-- An integer is read as it is written and evaluates to itself if it lies strictly between
the least word and the first that is too large, and is unknown otherwise. Compared with
itself it is always true in the first case only. -/
theorem evaluate_written_integer (h : (toString n.natAbs).length ≤ Literal.maxDigits) :
    (∃ e, ofText (toString n) = .ok e ∧
      e.evaluate = .ok (if -2 ^ 63 < n ∧ n < 2 ^ 63 then .int n else .unknown)) ∧
    ∃ e, ofText (toString n ++ " == " ++ toString n) = .ok e ∧
      e.verdict? = .ok (if -2 ^ 63 < n ∧ n < 2 ^ 63 then some true else none) := by
  have hsymbol : " == " = " " ++ (Comparison.eq.symbol ++ " ") := by decide
  have hread := ofText_compared_numerals h .eq
  simp only [String.append_assoc] at hread
  have hverdict := verdict?_compared_numerals .eq n
  rw [show Comparison.eq.holds n n = true from decide_eq_true rfl] at hverdict
  refine ⟨⟨_, ofText_numeral h, evaluate_numeral n⟩, _, ?_, hverdict⟩
  simpa only [hsymbol, String.append_assoc] using hread

/-- The least word that can be written, and the largest. -/
theorem evaluate_written_integer_extremes :
    (∃ e, ofText "-9223372036854775807" = .ok e ∧
      e.evaluate = .ok (.int (-9223372036854775807))) ∧
    ∃ e, ofText "9223372036854775807 == 9223372036854775807" = .ok e ∧
      e.verdict? = .ok (some true) := by
  obtain ⟨hleast, -⟩ := evaluate_written_integer (n := -9223372036854775807) (by decide)
  obtain ⟨-, hlargest⟩ := evaluate_written_integer (n := 9223372036854775807) (by decide)
  exact ⟨hleast, hlargest⟩

/-- The least word is written as the negation of a numeral that is no word. -/
theorem unknown_of_written_least_word :
    let n : Int := -2 ^ 63
    (toString n.natAbs).length ≤ Literal.maxDigits ∧ (-2 ^ 63 ≤ n ∧ n ≤ 2 ^ 63 - 1) ∧
      (∃ e, ofText "-9223372036854775808" = .ok e ∧ e.evaluate = .ok .unknown) ∧
      ∃ e, ofText "-9223372036854775808 == -9223372036854775808" = .ok e ∧
        e.verdict? = .ok none := by
  intro n
  have hlength : (toString n.natAbs).length ≤ Literal.maxDigits := by decide
  refine ⟨hlength, by decide, ⟨_, ofText_numeral hlength, evaluate_numeral n⟩, _,
    ofText_compared_numerals hlength .eq, verdict?_compared_numerals .eq n⟩

end Expr
end Foregone
