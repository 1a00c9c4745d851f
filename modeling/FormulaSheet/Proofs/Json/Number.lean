import FormulaSheet.Json.Reader
import FormulaSheet.Proofs.Text.Numeral
import FormulaSheet.Proofs.Text.Run

/-!
# Column keys read back

A column number is written in its digits between quotes. The reader takes these as a number of
JSON, without a leading zero, a point or an exponent, and keeps it as long as it fits into 64
bits, which it does to the last digit.

* `splitDigits_append`: a run of digits is taken as a whole.
* `extendWord_eq`: a run of digits whose value fits into 64 bits is kept as a whole.
* `readKey_numeral`: a written column number, behind its opening quote.
-/

namespace FormulaSheet
namespace Json

open Text

theorem splitDigits_append {digits : List Char} {rest : Input}
    (hdigits : ∀ c ∈ digits, c.isDigit = true) (hrest : rest.head?.any isDigit = false) :
    splitDigits (digits.map some ++ rest) = (digits, rest) := by
  have hrun : ∀ c ∈ digits.map some, isDigit c = true := by
    intro c hc
    obtain ⟨d, hd, rfl⟩ := List.mem_map.mp hc
    exact hdigits d hd
  have hstop : ∀ c ∈ rest.head?, isDigit c = false := by
    intro c hc
    rwa [Option.mem_def.mp hc] at hrest
  rw [splitDigits, takeWhile_run hrun hstop, dropWhile_run hrun hstop]
  simp

theorem extendWord_eq {digits : List Char} {value : Nat}
    (h : Nat.ofDigitChars 10 digits value < wordLimit) :
    extendWord value digits = (Nat.ofDigitChars 10 digits value, 0) := by
  induction digits generalizing value with
  | nil => rfl
  | cons c cs ih =>
      have hstep : Nat.ofDigitChars 10 (c :: cs) value =
          Nat.ofDigitChars 10 cs (value * 10 + digitValue c) := by
        rw [Nat.ofDigitChars_cons, Nat.mul_comm]
        rfl
      have hle : value * 10 + digitValue c ≤
          Nat.ofDigitChars 10 cs (value * 10 + digitValue c) := by
        rw [Nat.ofDigitChars_eq_ofDigitChars_zero]
        exact Nat.le_add_right_of_le (Nat.le_mul_of_pos_left _ (Nat.pow_pos (by decide)))
      rw [hstep] at h ⊢
      rw [extendWord, if_pos (by omega), ih h]

section Keys

variable {column : Nat} {rest : Input}

theorem readWhole_numeral (column : Nat) (rest : Input) :
    readWhole ((numeral column).map some ++ some '"' :: rest) =
      .ok (numeral column, some '"' :: rest) := by
  have hsplit : splitDigits ((numeral column).map some ++ some '"' :: rest) =
      (numeral column, some '"' :: rest) :=
    splitDigits_append (fun _ hc => isDigit_of_mem_numeral hc) rfl
  unfold readWhole
  rw [hsplit]
  cases hnumeral : numeral column with
  | nil => exact absurd hnumeral (numeral_ne_nil column)
  | cons c cs =>
      have hzero : ¬ (c = '0' ∧ cs ≠ []) := by
        rintro ⟨rfl, hcs⟩
        by_cases hcolumn : column = 0
        · subst hcolumn
          cases hnumeral
          exact hcs rfl
        · exact head?_numeral hcolumn (by rw [hnumeral]; rfl)
      simp only [if_neg hzero]

theorem readNumber_numeral (h : column < wordLimit) (rest : Input) :
    readNumber ((numeral column).map some ++ some '"' :: rest) =
      .ok (some column, some '"' :: rest) := by
  have hwhole := readWhole_numeral column rest
  have hvalue : extendWord 0 (numeral column) = (column, 0) := by
    have hcolumn : Nat.ofDigitChars 10 (numeral column) 0 = column := Nat.ofDigitChars_ten_toDigits
    rw [extendWord_eq (by rwa [hcolumn]), hcolumn]
  have hdigits : ∀ c ∈ numeral column, c.isDigit = true := fun _ hc => isDigit_of_mem_numeral hc
  generalize numeral column = digits at hwhole hvalue hdigits ⊢
  cases digits with
  | nil => cases hwhole
  | cons c cs =>
      have hminus : c ≠ '-' := by
        rintro rfl
        exact absurd (hdigits '-' List.mem_cons_self) (by decide)
      unfold readNumber
      split
      next negative body hbody =>
      split at hbody
      · next hinput => exact absurd (Option.some.inj (List.cons.inj hinput).1) hminus
      · cases hbody
        rw [hwhole]
        simp [readFraction, readExponent, hvalue, bind, Except.bind]

/-- A column number is read back behind the opening quote of its key. -/
theorem readKey_numeral (h : column < wordLimit) (rest : Input) :
    readKey ((numeral column).map some ++ some '"' :: rest) = .ok (column, rest) := by
  have hread := readNumber_numeral h rest
  have hdigits : ∀ c ∈ numeral column, c.isDigit = true := fun _ hc => isDigit_of_mem_numeral hc
  have hne := numeral_ne_nil column
  generalize numeral column = digits at hread hdigits hne ⊢
  cases digits with
  | nil => exact absurd rfl hne
  | cons c cs =>
      have hdigit : isDigit (some c) = true := hdigits c List.mem_cons_self
      rw [List.map_cons, List.cons_append] at hread ⊢
      rw [readKey, if_pos (Or.inr hdigit), hread]
      rfl

end Keys

end Json
end FormulaSheet
