import Mathlib
import FormulaSheet.Proofs.Binary64.Rounding
import FormulaSheet.Proofs.Text.Numeral

/-!
# Exact values

Decimals and magnitudes as rational numbers. A rounding interval consists of the rational numbers
that no other magnitude is nearer to, with its ends if they go to it because its rank is even; so
reading a decimal gives the nearest magnitude to its exact value. The infinities take part as if
their magnitude were `2 ^ 1024`, the one that the next rank would have.

* `magnitude`, `Decimal.value`: exact values.
* `IsNearest`: a magnitude is nearest to a rational number, and even if another is as near.
* `isNearest_ofDecimal`: a decimal is read as the number nearest to it.
* `ofDecimal_eq_iff`: it is read as a given number exactly if it lies in its rounding interval.
-/

namespace FormulaSheet
namespace Binary64

open Text

namespace Decimal

/-- The value of a decimal is this number of units over its denominator. -/
def numerator (d : Decimal) : Nat :=
  d.coefficient * unitsOfOne * 10 ^ d.exponent.toNat

def denominator (d : Decimal) : Nat :=
  10 ^ (-d.exponent).toNat

theorem denominator_pos (d : Decimal) : 0 < d.denominator :=
  Nat.pow_pos (by decide)

/-- The value of a decimal lies in the rounding interval of a rank. -/
def RoundsTo (d : Decimal) (rank : Nat) : Prop :=
  (roundingInterval rank).contains d.denominator (2 * d.numerator) = true

end Decimal

section Values

variable {rank : Nat} {v : ℚ}

/-- The magnitude of a finite rank, and `2 ^ 1024` for that of the infinities. -/
def magnitude (rank : Nat) : ℚ :=
  unitsOfRank rank / unitsOfOne

/-- The exact value of a decimal. -/
def Decimal.value (d : Decimal) : ℚ :=
  d.coefficient * 10 ^ d.exponent

theorem unitsOfOne_pos : 0 < unitsOfOne := by
  delta unitsOfOne
  generalize (1074 : Nat) = places
  exact Nat.two_pow_pos places

theorem cast_unitsOfOne_pos : (0 : ℚ) < unitsOfOne :=
  Nat.cast_pos.mpr unitsOfOne_pos

theorem strictMono_magnitude : StrictMono magnitude := fun _ _ h =>
  div_lt_div_of_pos_right (Nat.cast_lt.mpr (strictMono_unitsOfRank h)) cast_unitsOfOne_pos

@[simp] theorem magnitude_zero : magnitude 0 = 0 := by
  rw [magnitude, unitsOfRank_zero, Nat.cast_zero, zero_div]

theorem magnitude_nonneg (rank : Nat) : 0 ≤ magnitude rank :=
  div_nonneg (Nat.cast_nonneg _) (Nat.cast_nonneg _)

theorem magnitude_pos {rank : Nat} (h : 0 < rank) : 0 < magnitude rank := by
  have hlt := strictMono_magnitude h
  rwa [magnitude_zero] at hlt

theorem Decimal.value_nonneg (d : Decimal) : 0 ≤ d.value :=
  mul_nonneg (Nat.cast_nonneg _) (zpow_nonneg (by norm_num) _)

/-- A rational number lies in the rounding interval of a rank. -/
structure InInterval (rank : Nat) (v : ℚ) : Prop where
  low : magnitude (rank - 1) + magnitude rank ≤ 2 * v
  high : 2 * v ≤ magnitude rank + magnitude (rank + 1)
  inside : rank % 2 = 1 →
    magnitude (rank - 1) + magnitude rank < 2 * v ∧
      2 * v < magnitude rank + magnitude (rank + 1)

/-- Numerator and denominator of a decimal give its value in units. -/
theorem Decimal.value_mul (d : Decimal) :
    d.value * (d.denominator * unitsOfOne) = d.numerator := by
  have hten : (10 : ℚ) ^ d.exponent * 10 ^ (-d.exponent).toNat = 10 ^ d.exponent.toNat := by
    rw [← zpow_natCast, ← zpow_natCast, ← zpow_add₀ (by norm_num)]
    congr 1
    omega
  rw [Decimal.value, Decimal.denominator, Decimal.numerator]
  push_cast
  linear_combination (d.coefficient * unitsOfOne : ℚ) * hten

theorem Decimal.le_two_mul_value_iff (d : Decimal) (units : Nat) :
    (units : ℚ) / unitsOfOne ≤ 2 * d.value ↔ units * d.denominator ≤ 2 * d.numerator := by
  have hden : (0 : ℚ) < d.denominator := Nat.cast_pos.mpr d.denominator_pos
  rw [div_le_iff₀ cast_unitsOfOne_pos, ← mul_le_mul_iff_of_pos_right hden, ← @Nat.cast_le ℚ]
  push_cast
  rw [← d.value_mul]
  ring_nf

theorem Decimal.two_mul_value_le_iff (d : Decimal) (units : Nat) :
    2 * d.value ≤ (units : ℚ) / unitsOfOne ↔ 2 * d.numerator ≤ units * d.denominator := by
  have hden : (0 : ℚ) < d.denominator := Nat.cast_pos.mpr d.denominator_pos
  rw [le_div_iff₀ cast_unitsOfOne_pos, ← mul_le_mul_iff_of_pos_right hden, ← @Nat.cast_le ℚ]
  push_cast
  rw [← d.value_mul]
  ring_nf

theorem magnitude_add (rank other : Nat) :
    magnitude rank + magnitude other =
      ((unitsOfRank rank + unitsOfRank other : Nat) : ℚ) / unitsOfOne := by
  rw [magnitude, magnitude, ← add_div, Nat.cast_add]

theorem Decimal.roundsTo_iff (d : Decimal) : d.RoundsTo rank ↔ InInterval rank d.value := by
  have hiff : InInterval rank d.value ↔ _ ∧ _ ∧ _ :=
    ⟨fun h => ⟨h.low, h.high, h.inside⟩, fun h => ⟨h.1, h.2.1, h.2.2⟩⟩
  rw [hiff, Decimal.RoundsTo, contains_iff, ← not_le, ← not_le, ← not_le, ← not_le, magnitude_add,
    magnitude_add, d.le_two_mul_value_iff, d.two_mul_value_le_iff, d.le_two_mul_value_iff,
    d.two_mul_value_le_iff]

/-- A rounding interval has no gaps. -/
theorem InInterval.between {a b : ℚ} (ha : InInterval rank a) (hb : InInterval rank b)
    (hlow : a ≤ v) (hhigh : v ≤ b) : InInterval rank v where
  low := by linarith [ha.low]
  high := by linarith [hb.high]
  inside hodd := ⟨by linarith [(ha.inside hodd).1], by linarith [(hb.inside hodd).2]⟩

end Values

section Nearest

variable {rank : Nat} {v : ℚ}

/-- The magnitude of a rank is nearest to a rational number; if that of another rank is as near,
the rank is even. -/
structure IsNearest (v : ℚ) (rank : Nat) : Prop where
  le : rank ≤ infinityRank
  nearest : ∀ other ≤ infinityRank, |v - magnitude rank| ≤ |v - magnitude other|
  even : ∀ other ≤ infinityRank, other ≠ rank →
    |v - magnitude rank| = |v - magnitude other| → rank % 2 = 0

/-- Of two points, that on the same side of their middle is nearer. -/
theorem abs_sub_le_iff_add_le {a b : ℚ} (h : a < b) : |v - b| ≤ |v - a| ↔ a + b ≤ 2 * v := by
  rw [← sq_le_sq]
  constructor
  · intro hle
    nlinarith
  · intro hle
    nlinarith

theorem abs_sub_le_iff_le_add {a b : ℚ} (h : a < b) : |v - a| ≤ |v - b| ↔ 2 * v ≤ a + b := by
  rw [← sq_le_sq]
  constructor
  · intro hle
    nlinarith
  · intro hle
    nlinarith

theorem infinityRank_mod_two : infinityRank % 2 = 0 := by decide

/-- A number in a rounding interval is nowhere nearer than to its rank. -/
theorem InInterval.isNearest (h : InInterval rank v) (hrank : rank ≤ infinityRank) :
    IsNearest v rank := by
  have hside : ∀ other, other ≠ rank → |v - magnitude rank| ≤ |v - magnitude other| ∧
      (rank % 2 = 1 → |v - magnitude rank| < |v - magnitude other|) := by
    intro other hother
    rcases Nat.lt_or_gt_of_ne hother with hbelow | habove
    · have hmagnitude := strictMono_magnitude hbelow
      have hprevious : magnitude other ≤ magnitude (rank - 1) :=
        strictMono_magnitude.monotone (by omega)
      rw [← not_le, abs_sub_le_iff_add_le hmagnitude, abs_sub_le_iff_le_add hmagnitude]
      exact ⟨by linarith [h.low], fun hodd => by linarith [(h.inside hodd).1]⟩
    · have hmagnitude := strictMono_magnitude habove
      have hnext : magnitude (rank + 1) ≤ magnitude other :=
        strictMono_magnitude.monotone (by omega)
      rw [← not_le, abs_sub_le_iff_le_add hmagnitude, abs_sub_le_iff_add_le hmagnitude]
      exact ⟨by linarith [h.high], fun hodd => by linarith [(h.inside hodd).2]⟩
  refine ⟨hrank, fun other _ => ?_, fun other _ hother htie => ?_⟩
  · by_cases hother : other = rank
    · rw [hother]
    · exact (hside other hother).1
  · by_contra hodd
    exact (((hside other hother).2 (by omega)).ne htie).elim

/-- The rational numbers nearest to a finite rank are those in its rounding interval. -/
theorem isNearest_iff (hrank : rank < infinityRank) (hv : 0 ≤ v) :
    IsNearest v rank ↔ InInterval rank v := by
  refine ⟨fun h => ?_, fun h => h.isNearest hrank.le⟩
  have hnext : magnitude rank < magnitude (rank + 1) := strictMono_magnitude (Nat.lt_succ_self _)
  have hhigh := h.nearest (rank + 1) hrank
  rw [abs_sub_le_iff_le_add hnext] at hhigh
  rcases Nat.eq_zero_or_pos rank with rfl | hpos
  · exact ⟨by simpa using hv, hhigh, fun hodd => by cases hodd⟩
  · have hprevious : magnitude (rank - 1) < magnitude rank := strictMono_magnitude (by omega)
    have hlow := h.nearest (rank - 1) (by omega)
    rw [abs_sub_le_iff_add_le hprevious] at hlow
    refine ⟨hlow, hhigh, fun hodd => ⟨lt_of_le_of_ne hlow fun htie => ?_,
      lt_of_le_of_ne hhigh fun htie => ?_⟩⟩
    · have heven := h.even (rank - 1) (by omega) (by omega)
        (le_antisymm ((abs_sub_le_iff_add_le hprevious).mpr hlow)
          ((abs_sub_le_iff_le_add hprevious).mpr htie.ge))
      omega
    · have heven := h.even (rank + 1) hrank (by omega)
        (le_antisymm ((abs_sub_le_iff_le_add hnext).mpr hhigh)
          ((abs_sub_le_iff_add_le hnext).mpr htie.ge))
      omega

/-- Two ranks that are nearest to the same number would both be even, and a rank between them would
be nearer. -/
theorem IsNearest.eq {other : Nat} (h : IsNearest v rank) (hother : IsNearest v other) :
    rank = other := by
  wlog hle : rank ≤ other generalizing rank other
  · exact (this hother h (by omega)).symm
  by_contra hne
  have hlt : rank < other := by omega
  have htie : |v - magnitude rank| = |v - magnitude other| :=
    le_antisymm (h.nearest other hother.le) (hother.nearest rank h.le)
  have heven := h.even other hother.le (Ne.symm hne) htie
  have hevenOther := hother.even rank h.le hne htie.symm
  have hmiddle := strictMono_magnitude hlt
  have hsum := (abs_sub_le_iff_add_le hmiddle).mp htie.ge
  have hbelow : magnitude rank < magnitude (rank + 1) := strictMono_magnitude (by omega)
  have habove : magnitude (rank + 1) < magnitude other := strictMono_magnitude (by omega)
  have hnearer := (abs_sub_le_iff_le_add hbelow).mp
    (h.nearest (rank + 1) (Nat.lt_of_lt_of_le hlt hother.le))
  linarith

/-- Beyond the magnitudes, the infinity is nearest. -/
theorem isNearest_infinityRank (h : magnitude infinityRank ≤ v) : IsNearest v infinityRank := by
  refine ⟨le_rfl, fun other hother => ?_, fun _ _ _ _ => infinityRank_mod_two⟩
  have hmagnitude : magnitude other ≤ magnitude infinityRank :=
    strictMono_magnitude.monotone hother
  rw [abs_of_nonneg (by linarith), abs_of_nonneg (by linarith)]
  linarith

end Nearest

section Reading

variable {d : Decimal} {v : ℚ}

theorem Decimal.value_lt (d : Decimal) :
    d.value < 10 ^ ((numeral d.coefficient).length + d.exponent) := by
  have hten : (0 : ℚ) < 10 ^ d.exponent := zpow_pos (by norm_num) _
  have hlength : (d.coefficient : ℚ) < 10 ^ (numeral d.coefficient).length := by
    exact_mod_cast lt_pow_length_numeral d.coefficient
  rw [zpow_add₀ (by norm_num), zpow_natCast]
  exact mul_lt_mul_of_pos_right hlength hten

theorem Decimal.le_value (h : d.coefficient ≠ 0) :
    10 ^ ((numeral d.coefficient).length - 1 + d.exponent) ≤ d.value := by
  have hten : (0 : ℚ) < 10 ^ d.exponent := zpow_pos (by norm_num) _
  have hlength : (10 : ℚ) ^ ((numeral d.coefficient).length - 1) ≤ d.coefficient := by
    exact_mod_cast pow_length_numeral_le h
  have hcast : ((numeral d.coefficient).length - 1 : ℤ) =
      ((numeral d.coefficient).length - 1 : ℕ) := by
    have := length_numeral_pos d.coefficient
    omega
  rw [zpow_add₀ (by norm_num), hcast, zpow_natCast]
  exact mul_le_mul_of_nonneg_right hlength hten.le

/-- Half the least positive magnitude has no more than 330 zeros before its first digit. -/
theorem two_mul_unitsOfOne_le : 2 * unitsOfOne ≤ 10 ^ 331 := by decide +kernel

/-- All finite magnitudes have less than 311 digits before the point. -/
theorem unitsOfRank_infinityRank_lt :
    unitsOfRank infinityRank < 10 ^ 310 * unitsOfOne := by decide +kernel

/-- A number below the rounding interval of the least positive magnitude is nearest to zero. -/
theorem isNearest_zero (hv : 0 ≤ v) (places : Nat) (hplaces : 2 * unitsOfOne ≤ 10 ^ places)
    (h : v ≤ 10 ^ (-places : ℤ)) : IsNearest v 0 := by
  have hten : (0 : ℚ) < 10 ^ places := by positivity
  have hone := cast_unitsOfOne_pos
  have hleast : magnitude 1 = 1 / unitsOfOne := by
    have hunits : unitsOfRank 1 = 1 := by decide
    rw [magnitude, hunits, Nat.cast_one]
  have hhalf : 2 / 10 ^ places ≤ magnitude 1 := by
    have hcast : (2 * unitsOfOne : ℚ) ≤ 10 ^ places := by exact_mod_cast hplaces
    rw [hleast, div_le_div_iff₀ hten hone]
    linarith
  have hsmall : 2 * v ≤ magnitude 1 := by
    rw [zpow_neg, zpow_natCast] at h
    calc 2 * v ≤ 2 * (10 ^ places)⁻¹ := by linarith
      _ = 2 / 10 ^ places := (div_eq_mul_inv _ _).symm
      _ ≤ magnitude 1 := hhalf
  refine InInterval.isNearest ⟨?_, ?_, fun hodd => by cases hodd⟩ (Nat.zero_le _)
  · simpa using hv
  · simpa using hsmall

/-- A number with so many digits before the point is nearest to infinity. -/
theorem isNearest_infinityRank_of_le (places : Nat)
    (hplaces : unitsOfRank infinityRank < 10 ^ places * unitsOfOne)
    (h : (10 : ℚ) ^ places ≤ v) : IsNearest v infinityRank := by
  refine isNearest_infinityRank (le_trans ?_ h)
  rw [magnitude, div_le_iff₀ cast_unitsOfOne_pos]
  exact_mod_cast hplaces.le

/-- Rounding takes a value to the nearest rank. -/
theorem Decimal.isNearest_nearestRank (d : Decimal) :
    IsNearest d.value (nearestRank d.numerator d.denominator) := by
  have hinterval : InInterval (unlimitedRank d.numerator d.denominator) d.value :=
    d.roundsTo_iff.mp (contains_unlimitedRank d.denominator_pos)
  rw [nearestRank_eq]
  generalize unlimitedRank d.numerator d.denominator = rank at hinterval
  rcases Nat.lt_or_ge infinityRank rank with hlarge | hle
  · rw [Nat.min_eq_left hlarge.le]
    have hprevious : magnitude infinityRank ≤ magnitude (rank - 1) :=
      strictMono_magnitude.monotone (by omega)
    have hmagnitude : magnitude infinityRank ≤ magnitude rank :=
      strictMono_magnitude.monotone hlarge.le
    exact isNearest_infinityRank (by linarith [hinterval.low])
  · rw [Nat.min_eq_right hle]
    exact hinterval.isNearest hle

/-- A decimal is read as the number nearest to its exact value. -/
theorem isNearest_ofDecimal (negative : Bool) (d : Decimal) :
    (ofDecimal negative d.coefficient d.exponent).negative = negative ∧
      IsNearest d.value (ofDecimal negative d.coefficient d.exponent).rank := by
  have hlength : (Nat.toDigits 10 d.coefficient).length = (numeral d.coefficient).length := rfl
  rw [ofDecimal, hlength]
  split
  · next hsmall =>
      refine ⟨rfl, isNearest_zero d.value_nonneg 331 two_mul_unitsOfOne_le ?_⟩
      rcases hsmall with hzero | hsmall
      · rw [Decimal.value, hzero, Nat.cast_zero, zero_mul]
        positivity
      · exact d.value_lt.le.trans (zpow_le_zpow_right₀ (by norm_num) (by omega))
  · next hsmall =>
      split
      · next hlarge =>
          refine ⟨rfl, isNearest_infinityRank_of_le 310 unitsOfRank_infinityRank_lt ?_⟩
          refine le_trans ?_ (Decimal.le_value fun hzero => hsmall (Or.inl hzero))
          rw [← zpow_natCast]
          exact zpow_le_zpow_right₀ (by norm_num) (by omega)
      · exact ⟨rfl, d.isNearest_nearestRank⟩

/-- Reading is correct rounding: the sign is kept, and the magnitude is the nearest. -/
theorem ofDecimal_eq_iff {negative : Bool} {x : Binary64} :
    ofDecimal negative d.coefficient d.exponent = x ↔
      x.negative = negative ∧ IsNearest d.value x.rank := by
  obtain ⟨hnegative, hnearest⟩ := isNearest_ofDecimal negative d
  constructor
  · rintro rfl
    exact ⟨hnegative, hnearest⟩
  · rintro ⟨hsign, hrank⟩
    have heq := hnearest.eq hrank
    generalize ofDecimal negative d.coefficient d.exponent = y at hnegative heq
    cases x
    cases y
    simp only [mk.injEq]
    exact ⟨hnegative.trans hsign.symm, heq⟩

end Reading

end Binary64
end FormulaSheet
