import FormulaSheet.Binary64.Shortest
import FormulaSheet.Proofs.Binary64.Literal
import FormulaSheet.Proofs.Text.Numeral
import FormulaSheet.Proofs.Text.Trim

/-!
# Characters of numerals

The text of a finite number is a numeral without an exponent, behind a minus sign if the number is
negative. So it holds no white space and is not empty, and it can be told from the text of an
infinity or of a value that is no number by its characters alone.

A decimal is written as a numeral, and a point with further digits if there are any (`text_eq`).

* `IsPlainNumeral`: such texts.
* `isPositional_magnitudeText`, `isPlainNumeral_text`: the texts of finite magnitudes and numbers.
* `trim_text`: trimming leaves the text of a number as it is.
* `isFinite_of_text`: a text of expression characters is that of a finite number.
-/

namespace FormulaSheet

open Text Expression

/-- Digits, and a point with further digits if there are any. -/
def IsPositional (cs : List Char) : Prop :=
  ∃ whole fraction, whole ≠ [] ∧ (∀ c ∈ whole ++ fraction, c.isDigit = true) ∧
    cs = whole ++ if fraction = [] then [] else '.' :: fraction

theorem IsPositional.isNumeral {cs : List Char} (h : IsPositional cs) : IsNumeral cs := by
  obtain ⟨whole, fraction, hne, hdigits, rfl⟩ := h
  refine ⟨whole, fraction, hdigits, List.append_ne_nil_of_left_ne_nil hne _, ?_⟩
  split
  · next hfraction => simp [hfraction]
  · exact Or.inr rfl

theorem IsPositional.ne_nil {cs : List Char} (h : IsPositional cs) : cs ≠ [] := by
  obtain ⟨whole, fraction, hne, -, rfl⟩ := h
  exact List.append_ne_nil_of_left_ne_nil hne _

/-- The same, behind a minus sign or not. -/
def IsPlainNumeral (cs : List Char) : Prop :=
  IsPositional cs ∨ ∃ magnitude, IsPositional magnitude ∧ cs = '-' :: magnitude

namespace IsPlainNumeral

variable {cs : List Char}

/-- Every character of a plain numeral is a minus sign, a digit or a point. -/
theorem eq_minus_or_isNumberChar (h : IsPlainNumeral cs) {c : Char} (hc : c ∈ cs) :
    c = '-' ∨ isNumberChar c = true := by
  rcases h with h | ⟨magnitude, h, rfl⟩
  · exact Or.inr (Binary64.isNumberChar_of_isNumeral h.isNumeral c hc)
  · exact (List.mem_cons.mp hc).imp_right (Binary64.isNumberChar_of_isNumeral h.isNumeral c)

theorem ne_nil (h : IsPlainNumeral cs) : cs ≠ [] := by
  rcases h with h | ⟨magnitude, -, rfl⟩
  · exact h.ne_nil
  · exact List.cons_ne_nil _ _

theorem trim_eq (h : IsPlainNumeral cs) : trim cs = cs := by
  refine trim_eq_self fun c hc => ?_
  rcases h.eq_minus_or_isNumberChar hc with rfl | hnumber
  · decide
  · exact isBlank_of_isNumberChar hnumber

end IsPlainNumeral

namespace Binary64

theorem isDigit_of_mem_fractionDigits {coefficient places : Nat} {c : Char}
    (h : c ∈ fractionDigits coefficient places) : c.isDigit = true := by
  unfold fractionDigits at h
  have hpadded := (List.dropWhile_sublist _).subset (List.mem_reverse.mp h)
  rcases List.mem_append.mp (List.mem_reverse.mp hpadded) with hzero | hdigit
  · rw [List.eq_of_mem_replicate hzero]
    decide
  · exact isDigit_of_mem_numeral hdigit

namespace Decimal

/-- The number in front of the point. -/
def whole (d : Decimal) : Nat :=
  match d.exponent with
  | .ofNat places => d.coefficient * Nat.pow 10 places
  | .negSucc n => d.coefficient / Nat.pow 10 (n + 1)

/-- The digits behind the point; there may be none, and then there is no point. -/
def fraction (d : Decimal) : List Char :=
  match d.exponent with
  | .ofNat _ => []
  | .negSucc n => fractionDigits d.coefficient (n + 1)

theorem text_eq (d : Decimal) :
    d.text = numeral d.whole ++ if d.fraction = [] then [] else '.' :: d.fraction := by
  obtain ⟨coefficient, exponent⟩ := d
  cases exponent with
  | ofNat places => exact (List.append_nil _).symm
  | negSucc n => rfl

theorem isDigit_of_mem_fraction {d : Decimal} {c : Char} (h : c ∈ d.fraction) :
    c.isDigit = true := by
  obtain ⟨coefficient, exponent⟩ := d
  cases exponent with
  | ofNat places => cases h
  | negSucc n => exact isDigit_of_mem_fractionDigits h

theorem isPositional_text (d : Decimal) : IsPositional d.text := by
  refine ⟨numeral d.whole, d.fraction, numeral_ne_nil _, fun c hc => ?_, d.text_eq⟩
  rcases List.mem_append.mp hc with hc | hc
  · exact isDigit_of_mem_numeral hc
  · exact isDigit_of_mem_fraction hc

end Decimal

section Magnitudes

variable {rank : Nat}

theorem isPositional_magnitudeText (h : rank ≠ infinityRank) :
    IsPositional (magnitudeText rank) := by
  rw [magnitudeText, if_neg h]
  split
  · exact ⟨['0'], [], by decide, by simp, rfl⟩
  · exact Decimal.isPositional_text _

theorem isNumberChar_of_mem_magnitudeText (h : rank ≠ infinityRank) {c : Char}
    (hc : c ∈ magnitudeText rank) : isNumberChar c = true :=
  isNumberChar_of_isNumeral (isPositional_magnitudeText h).isNumeral c hc

theorem magnitudeText_ne_nil (rank : Nat) : magnitudeText rank ≠ [] := by
  by_cases h : rank = infinityRank
  · rw [h]
    decide
  · exact (isPositional_magnitudeText h).ne_nil

end Magnitudes

section Numbers

variable {x : Binary64}

theorem isNaN_of_isFinite (h : x.isFinite = true) : x.isNaN = false := by
  simp only [isFinite, isNaN, decide_eq_true_eq, decide_eq_false_iff_not] at h ⊢
  omega

theorem rank_ne_of_isFinite (h : x.isFinite = true) : x.rank ≠ infinityRank := by
  simp only [isFinite, decide_eq_true_eq] at h
  omega

/-- The text of a finite number is the text of its magnitude, with or without a minus sign. -/
theorem text_of_isFinite (h : x.isFinite = true) :
    x.text = if x.negative then '-' :: magnitudeText x.rank else magnitudeText x.rank := by
  rw [text, if_neg (by simp [isNaN_of_isFinite h])]

theorem isPlainNumeral_text (h : x.isFinite = true) : IsPlainNumeral x.text := by
  have hmagnitude := isPositional_magnitudeText (rank_ne_of_isFinite h)
  rw [text_of_isFinite h]
  split
  · exact Or.inr ⟨_, hmagnitude, rfl⟩
  · exact Or.inl hmagnitude

/-- Every character of the text of a finite number is a minus sign, a digit or a point. -/
theorem eq_minus_or_isNumberChar_of_mem_text (h : x.isFinite = true) {c : Char}
    (hc : c ∈ x.text) : c = '-' ∨ isNumberChar c = true :=
  (isPlainNumeral_text h).eq_minus_or_isNumberChar hc

theorem trim_text (h : x.isFinite = true) : trim x.text = x.text :=
  (isPlainNumeral_text h).trim_eq

theorem numeral?_eq_some_iff {shown : String} :
    x.numeral? = some shown ↔ x.isFinite = true ∧ shown = String.ofList x.text := by
  unfold numeral?
  by_cases h : x.isFinite = true
  · simp [h, eq_comm]
  · simp [h]

/-- The text of a value that is not finite holds a letter. -/
theorem isFinite_of_text (h : x.text.all isExpressionChar = true) : x.isFinite = true := by
  by_contra hfinite
  simp only [isFinite, decide_eq_true_eq, not_lt] at hfinite
  have hletter : 'N' ∈ x.text ∨ 'n' ∈ x.text := by
    unfold text
    split
    · left
      decide
    · next hnan =>
        have hrank : x.rank = infinityRank := by
          simp only [isNaN, decide_eq_true_eq, not_lt] at hnan
          omega
        have hmagnitude : magnitudeText x.rank = "inf".toList := by
          rw [hrank]
          decide
        right
        rw [hmagnitude]
        split <;> decide
  rw [List.all_eq_true] at h
  rcases hletter with hletter | hletter
  · exact absurd (h _ hletter) (by decide)
  · exact absurd (h _ hletter) (by decide)

theorem isFinite_of_text_eq {y : Binary64} (hy : y.isFinite = true) (h : x.text = y.text) :
    x.isFinite = true := by
  refine isFinite_of_text (List.all_eq_true.mpr fun c hc => ?_)
  rcases eq_minus_or_isNumberChar_of_mem_text hy (h ▸ hc) with rfl | hnumber
  · rfl
  · simp [isExpressionChar, hnumber]

end Numbers

end Binary64

end FormulaSheet
