import Mathlib.Data.List.TakeWhile
import Mathlib.Data.Nat.Digits.Lemmas
import FormulaSheet.Text.Numeral

/-!
# Values of numerals

A numeral has the value that it was written for; the value of a run of digits is made up of those
of its parts, and zeros in front or behind shift it.

* `numeralValue_numeral`: the value of a written number.
* `numeralValue_append`: the value of two runs, one behind the other.
* `lt_pow_length_numeral`, `pow_length_numeral_le`: the number of digits of a number.
* `head?_numeral`: a numeral has no leading zero.
* `numeral_numeralValue`: the value of digits, written again, is these digits without leading zeros.
* `numeral_mul_pow`: a power of ten is that many zeros behind.
-/

namespace FormulaSheet
namespace Text

theorem numeral_ne_nil (n : Nat) : numeral n ≠ [] :=
  Nat.toDigits_ne_nil

theorem isDigit_of_mem_numeral {n : Nat} {c : Char} (h : c ∈ numeral n) : c.isDigit = true :=
  Nat.isDigit_of_mem_toDigits (by decide) (by decide) h

theorem numeralValue_eq (cs : List Char) : numeralValue cs = Nat.ofDigitChars 10 cs 0 :=
  Nat.ofDigitChars_eq_foldl.symm

@[simp] theorem numeralValue_numeral (n : Nat) : numeralValue (numeral n) = n := by
  rw [numeralValue_eq, numeral, Nat.ofDigitChars_ten_toDigits]

theorem numeralValue_append (front back : List Char) :
    numeralValue (front ++ back) = numeralValue front * 10 ^ back.length + numeralValue back := by
  simp only [numeralValue_eq]
  rw [Nat.ofDigitChars_append, Nat.ofDigitChars_eq_ofDigitChars_zero, Nat.mul_comm]

@[simp] theorem numeralValue_replicate_zero (n : Nat) :
    numeralValue (List.replicate n '0') = 0 := by
  rw [numeralValue_eq, Nat.ofDigitChars_replicate_zero, Nat.mul_zero]

theorem length_numeral_pos (n : Nat) : 0 < (numeral n).length :=
  Nat.length_toDigits_pos

theorem length_numeral_le_iff {n places : Nat} (h : 0 < places) :
    (numeral n).length ≤ places ↔ n < 10 ^ places :=
  Nat.length_toDigits_le_iff (by decide) h

theorem lt_pow_length_numeral (n : Nat) : n < 10 ^ (numeral n).length :=
  (length_numeral_le_iff (length_numeral_pos n)).mp (Nat.le_refl _)

theorem pow_length_numeral_le {n : Nat} (h : n ≠ 0) : 10 ^ ((numeral n).length - 1) ≤ n := by
  rcases Nat.eq_zero_or_pos ((numeral n).length - 1) with hone | hpos
  · rw [hone]
    exact Nat.pos_of_ne_zero h
  · by_contra hlt
    have hshort := (length_numeral_le_iff hpos).mpr (Nat.not_le.mp hlt)
    omega

theorem head?_numeral {n : Nat} (h : n ≠ 0) : (numeral n).head? ≠ some '0' := by
  induction n using Nat.strongRecOn with
  | ind n ih =>
      unfold numeral at ih ⊢
      rw [Nat.toDigits_eq_if (by decide)]
      split
      · next hlt =>
          have hdigit : ∀ d < 10, d ≠ 0 → Nat.digitChar d ≠ '0' := by decide
          simpa using hdigit n hlt h
      · next hle =>
          rw [List.head?_append_of_ne_nil _ Nat.toDigits_ne_nil]
          exact ih (n / 10) (Nat.div_lt_self (by omega) (by decide)) (by omega)

/-- Without its trailing zeros, a text is the same but for these. -/
theorem exists_trailing_zeros (cs : List Char) :
    ∃ zeros, cs = (cs.reverse.dropWhile (· = '0')).reverse ++ List.replicate zeros '0' := by
  refine ⟨(cs.reverse.takeWhile (· = '0')).length, ?_⟩
  have hsplit := List.takeWhile_append_dropWhile (p := fun c => decide (c = '0')) (l := cs.reverse)
  have hzeros : cs.reverse.takeWhile (· = '0') =
      List.replicate (cs.reverse.takeWhile (· = '0')).length '0' :=
    List.eq_replicate_of_mem fun c hc => by simpa using List.mem_takeWhile_imp hc
  rw [← List.reverse_replicate, ← hzeros, ← List.reverse_append, hsplit, List.reverse_reverse]

section Runs

variable {digits : List Char}

theorem numeralValue_concat (front : List Char) (c : Char) :
    numeralValue (front ++ [c]) = 10 * numeralValue front + digitValue c := by
  rw [numeralValue, List.foldl_append]
  rfl

theorem numeral_digitValue {c : Char} (h : c.isDigit = true) : numeral (digitValue c) = [c] := by
  obtain ⟨hlow, hhigh⟩ := Char.isDigit_iff_toNat.mp h
  have hzero : '0'.toNat = 48 := rfl
  have hlt : digitValue c < 10 := by
    have hnine : '9'.toNat = 57 := rfl
    unfold digitValue
    omega
  have hchar : Nat.digitChar (digitValue c) = c := by
    apply Char.toNat_inj.mp
    rw [Nat.toNat_digitChar_of_lt_ten hlt, digitValue]
    omega
  rw [numeral, Nat.toDigits_of_lt_base hlt, hchar]

theorem digitValue_eq_zero_iff {c : Char} (h : c.isDigit = true) :
    digitValue c = 0 ↔ c = '0' := by
  constructor
  · intro hzero
    have hnumeral := numeral_digitValue h
    rw [hzero] at hnumeral
    exact (List.singleton_inj.mp hnumeral).symm
  · rintro rfl
    rfl

/-- Digits have the value zero only if all of them are zeros. -/
theorem numeralValue_eq_zero_iff (h : ∀ c ∈ digits, c.isDigit = true) :
    numeralValue digits = 0 ↔ ∀ c ∈ digits, c = '0' := by
  induction digits using List.reverseRecOn with
  | nil => simp [numeralValue]
  | append_singleton front c ih =>
      have hfront := ih fun d hd => h d (List.mem_append_left _ hd)
      have hlast := digitValue_eq_zero_iff (h c (by simp))
      rw [numeralValue_concat, Nat.add_eq_zero_iff, Nat.mul_eq_zero, hlast]
      simp [hfront, or_imp, forall_and]

/-- The digits of a number are written again without their leading zeros. -/
theorem numeral_numeralValue (h : ∀ c ∈ digits, c.isDigit = true)
    (hvalue : numeralValue digits ≠ 0) :
    numeral (numeralValue digits) = digits.dropWhile (· = '0') := by
  induction digits using List.reverseRecOn with
  | nil => exact absurd rfl hvalue
  | append_singleton front c ih =>
      have hfront : ∀ d ∈ front, d.isDigit = true := fun d hd => h d (List.mem_append_left _ hd)
      have hdigit := numeral_digitValue (h c (by simp))
      rw [numeralValue_concat] at hvalue ⊢
      by_cases hzero : numeralValue front = 0
      · have hzeros : ∀ d ∈ front, decide (d = '0') = true := by
          simpa using (numeralValue_eq_zero_iff hfront).mp hzero
        have hne : c ≠ '0' := by
          rintro rfl
          exact hvalue (by rw [hzero]; rfl)
        rw [hzero, Nat.mul_zero, Nat.zero_add, hdigit, List.dropWhile_append_of_pos hzeros]
        simp [hne]
      · have hlt : digitValue c < 10 := by
          have := lt_pow_length_numeral (digitValue c)
          rwa [hdigit] at this
        have hsplit := Nat.toDigits_append_toDigits (b := 10) (by decide)
          (Nat.pos_of_ne_zero hzero) hlt
        have hrest := ih hfront hzero
        have hne : (front.dropWhile (· = '0')).isEmpty = false := by
          rw [← hrest, List.isEmpty_eq_false_iff]
          exact numeral_ne_nil _
        unfold numeral at hdigit hrest ⊢
        rw [← hsplit, hrest, hdigit, List.dropWhile_append, hne]
        rfl

theorem dropWhile_numeral {n : Nat} (hn : n ≠ 0) :
    (numeral n).dropWhile (· = '0') = numeral n := by
  have hdigits := numeral_numeralValue (fun _ => isDigit_of_mem_numeral (n := n))
    (by rwa [numeralValue_numeral])
  rw [numeralValue_numeral] at hdigits
  exact hdigits.symm

theorem numeral_mul_pow {n : Nat} (hn : n ≠ 0) (k : Nat) :
    numeral (n * 10 ^ k) = numeral n ++ List.replicate k '0' := by
  have hvalue : numeralValue (numeral n ++ List.replicate k '0') = n * 10 ^ k := by
    rw [numeralValue_append, numeralValue_numeral, numeralValue_replicate_zero,
      List.length_replicate, Nat.add_zero]
  have hdigits : ∀ c ∈ numeral n ++ List.replicate k '0', c.isDigit = true := by
    intro c hc
    rcases List.mem_append.mp hc with hc | hc
    · exact isDigit_of_mem_numeral hc
    · rw [List.eq_of_mem_replicate hc]
      decide
  have hpos : n * 10 ^ k ≠ 0 := Nat.mul_ne_zero hn (Nat.pow_pos (by decide)).ne'
  have hne : (numeral n).isEmpty = false := List.isEmpty_eq_false_iff.mpr (numeral_ne_nil n)
  rw [← hvalue, numeral_numeralValue hdigits (hvalue ▸ hpos), List.dropWhile_append,
    dropWhile_numeral hn, hne]
  rfl

end Runs
end Text
end FormulaSheet
