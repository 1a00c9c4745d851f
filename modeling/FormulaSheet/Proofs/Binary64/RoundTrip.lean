import Mathlib
import FormulaSheet.Proofs.Binary64.Shortest
import FormulaSheet.Proofs.Binary64.Text

/-!
# Reading what was written

The numeral of a finite number is read back as the same number, the sign of zero included. The
decimal that is written is nearest to the magnitude of the number, and the digits of its text make
up a decimal of the same value.

* `Decimal.value_read`: writing and reading a decimal keeps its value.
* `denotes_text`: what the text of a finite number denotes.
* `parse?_text`: the text of a finite number is read as that number.
-/

namespace FormulaSheet
namespace Binary64

open Text

section Reading

variable {coefficient places : Nat}

/-- The digits behind the point, with the zeros that are left out, have the value of the
fraction. -/
theorem fractionDigits_spec (coefficient : Nat) (hplaces : 0 < places) :
    ∃ zeros, (fractionDigits coefficient places).length + zeros = places ∧
      numeralValue (fractionDigits coefficient places) * 10 ^ zeros =
        coefficient % 10 ^ places := by
  have hlength : (numeral (coefficient % Nat.pow 10 places)).length ≤ places :=
    (length_numeral_le_iff hplaces).mpr (Nat.mod_lt _ (Nat.pow_pos (by decide)))
  unfold fractionDigits
  generalize hdigits : numeral (coefficient % Nat.pow 10 places) = digits at hlength
  have hvalue : numeralValue (List.replicate (places - digits.length) '0' ++ digits) =
      coefficient % 10 ^ places := by
    rw [numeralValue_append, numeralValue_replicate_zero, ← hdigits, numeralValue_numeral,
      Nat.zero_mul, Nat.zero_add, Nat.pow_eq]
  have htotal : (List.replicate (places - digits.length) '0' ++ digits).length = places := by
    rw [List.length_append, List.length_replicate]
    omega
  simp only
  generalize List.replicate (places - digits.length) '0' ++ digits = padded at hvalue htotal ⊢
  obtain ⟨zeros, hzeros⟩ := exists_trailing_zeros padded
  refine ⟨zeros, ?_, ?_⟩
  · rw [← htotal]
    conv_rhs => rw [hzeros, List.length_append, List.length_replicate]
  · rw [← hvalue]
    conv_rhs => rw [hzeros, numeralValue_append, numeralValue_replicate_zero,
      List.length_replicate, Nat.add_zero]

namespace Decimal

/-- The decimal that the digits of a text make up. -/
def read (d : Decimal) : Decimal where
  coefficient := numeralValue (numeral d.whole ++ d.fraction)
  exponent := 0 - d.fraction.length

theorem denotes_text {sign : List Char} {negative : Bool} (hsign : DenotesSign sign negative)
    (d : Decimal) : Denotes (sign ++ d.text) negative d.read := by
  have htail : (if d.fraction = [] then [] else '.' :: d.fraction) = '.' :: d.fraction ∨
      d.fraction = [] ∧ (if d.fraction = [] then [] else '.' :: d.fraction) = [] := by
    split
    · next h => exact Or.inr ⟨h, rfl⟩
    · exact Or.inl rfl
  have hdenotes := Denotes.decimal hsign (fun _ => isDigit_of_mem_numeral)
    (fun _ => isDigit_of_mem_fraction)
    (List.append_ne_nil_of_left_ne_nil (numeral_ne_nil d.whole) d.fraction) htail .none
  rwa [List.append_nil, ← text_eq] at hdenotes

/-- Writing and reading a decimal keeps its value. -/
theorem value_read (d : Decimal) : d.read.value = d.value := by
  obtain ⟨coefficient, exponent⟩ := d
  cases exponent with
  | ofNat places =>
      simp [read, whole, fraction, value]
  | negSucc n =>
      obtain ⟨zeros, hlength, hvalue⟩ := fractionDigits_spec coefficient (show 0 < n + 1 by omega)
      have hread : (read ⟨coefficient, .negSucc n⟩).coefficient * 10 ^ zeros = coefficient := by
        simp only [read, whole, fraction, numeralValue_append, numeralValue_numeral]
        rw [Nat.add_mul, hvalue, Nat.mul_assoc, ← Nat.pow_add, hlength, Nat.pow_eq]
        exact Nat.div_add_mod' _ _
      have hexponent : (read ⟨coefficient, .negSucc n⟩).exponent =
          (zeros : Int) + Int.negSucc n := by
        simp only [read, fraction]
        omega
      rw [value, value, hexponent, zpow_add₀ (by norm_num), zpow_natCast, ← mul_assoc]
      congr 1
      exact_mod_cast hread

end Decimal

end Reading

section Numbers

variable {rank : Nat} {x : Binary64}

/-- The decimal as which a finite magnitude is written. -/
def written (rank : Nat) : Decimal :=
  if rank = 0 then ⟨0, 0⟩ else shortest rank

theorem magnitudeText_eq (h : rank ≠ infinityRank) : magnitudeText rank = (written rank).text := by
  rw [magnitudeText, if_neg h, written]
  split
  · rfl
  · rfl

/-- The decimal that is written is nearest to no other magnitude. -/
theorem isNearest_written (h : rank < infinityRank) : IsNearest (written rank).value rank := by
  unfold written
  split
  · next hzero =>
      subst hzero
      have hvalue : Decimal.value ⟨0, 0⟩ = 0 := by simp [Decimal.value]
      rw [hvalue, isNearest_iff h le_rfl]
      exact ⟨by simp, by simpa using magnitude_nonneg 1, fun hodd => by cases hodd⟩
  · next hpositive =>
      exact (isShortest_shortest (Nat.pos_of_ne_zero hpositive) h).inInterval.isNearest h.le

theorem rank_lt_of_isFinite (h : x.isFinite = true) : x.rank < infinityRank := by
  simpa [isFinite] using h

theorem denotes_text (h : x.isFinite = true) :
    Denotes x.text x.negative (written x.rank).read := by
  rw [text_of_isFinite h, magnitudeText_eq (rank_ne_of_isFinite h)]
  cases x.negative with
  | true => exact (written x.rank).denotes_text .minus
  | false => exact (written x.rank).denotes_text .none

/-- The text of a finite number is read as that number, with the sign of zero. -/
theorem parse?_text (h : x.isFinite = true) : parse? x.text = some x := by
  rw [parse?_of_denotes (denotes_text h), ofDecimal_eq_iff.mpr ⟨rfl, ?_⟩]
  rw [Decimal.value_read]
  exact isNearest_written (rank_lt_of_isFinite h)

end Numbers

end Binary64
end FormulaSheet
