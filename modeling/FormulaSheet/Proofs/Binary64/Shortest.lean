import Mathlib
import FormulaSheet.Proofs.Binary64.Value

/-!
# The shortest decimal

The decimal that is written lies in the rounding interval of its number, and the next coarser grid
has no point there. The grids are nested, so no coarser one has; and a decimal with fewer digits
would leave room for a power of ten on a coarser grid.

The search begins on a grid that is too coarse, and after twenty steps it is on one that is fine
enough. Both rest on how close the quotient in `ceilingExponent` is to the logarithm of two.

* `zpow_ceiling`: the exponents of ten that such a quotient gives.
* `IsShortest`: a decimal in a rounding interval, on the coarsest grid that has one.
* `isShortest_shortest`: the decimal that is written is such a decimal.
-/

namespace FormulaSheet
namespace Binary64

open Text

section Logarithm

/-- Of two numbers less than a factor of two apart, the powers are less than that power of two
apart. -/
theorem zpow_le_mul {a b : ℚ} (ha : 0 < a) (hle : a ≤ b) (htwo : b ≤ 2 * a) (t : ℤ) :
    b ^ t ≤ a ^ t * 2 ^ t.natAbs ∧ a ^ t ≤ b ^ t * 2 ^ t.natAbs := by
  have hb : 0 < b := ha.trans_le hle
  have hone : 1 ≤ b / a := (one_le_div ha).mpr hle
  have hratio : b / a ≤ 2 := (div_le_iff₀ ha).mpr htwo
  have hpow : ∀ t : ℤ, (b / a) ^ t ≤ 2 ^ t.natAbs := by
    intro t
    calc (b / a) ^ t ≤ (b / a) ^ (t.natAbs : ℤ) := zpow_le_zpow_right₀ hone Int.le_natAbs
      _ = (b / a) ^ t.natAbs := zpow_natCast _ _
      _ ≤ 2 ^ t.natAbs := pow_le_pow_left₀ (by positivity) hratio _
  constructor
  · have hup := hpow t
    rwa [div_zpow, div_le_iff₀ (zpow_pos ha t), mul_comm] at hup
  · have hdown := hpow (-t)
    rwa [Int.natAbs_neg, zpow_neg, ← inv_zpow, inv_div, div_zpow, div_le_iff₀ (zpow_pos hb t),
      mul_comm] at hdown

/-- If `m / n` is close to the decimal logarithm of two from above, it tells from the exponent of a
power of two that of a power of ten less than a thousand times larger. -/
theorem zpow_ceiling {n m : ℕ} (hn : 0 < n) (hlow : 2 ^ n ≤ 10 ^ m) (hhigh : 10 ^ m ≤ 2 ^ (n + 1))
    {t : ℤ} (ht : t.natAbs ≤ n) :
    (2 : ℚ) ^ t ≤ 10 ^ (t * m / n + 2) ∧ (10 : ℚ) ^ (t * m / n + 2) ≤ 1000 * 2 ^ t := by
  have hsplit := Int.mul_ediv_add_emod (t * m) n
  have hrest := Int.emod_nonneg (t * m) (Int.natCast_ne_zero.mpr hn.ne')
  have hlt := Int.emod_lt_of_pos (t * m) (Int.natCast_pos.mpr hn)
  generalize t * m / n = q at hsplit ⊢
  generalize t * m % n = r at hsplit hrest hlt
  have htwo : ((2 : ℚ) ^ t) ^ n = (2 ^ n) ^ t := by
    rw [← zpow_natCast, ← zpow_natCast, ← zpow_mul, ← zpow_mul, mul_comm]
  have hten : ((10 : ℚ) ^ m) ^ t = 10 ^ (n * q + r) := by
    rw [← zpow_natCast, ← zpow_mul, mul_comm, hsplit]
  have hceiling : ((10 : ℚ) ^ (q + 2)) ^ n = 10 ^ (n * q + 2 * n) := by
    rw [← zpow_natCast, ← zpow_mul]
    congr 1
    ring
  have hslack : (2 : ℚ) ^ t.natAbs ≤ 10 ^ (n : ℤ) := by
    rw [zpow_natCast]
    calc (2 : ℚ) ^ t.natAbs ≤ 2 ^ n := pow_le_pow_right₀ (by norm_num) ht
      _ ≤ 10 ^ n := pow_le_pow_left₀ (by norm_num) (by norm_num) _
  -- Both bounds are those of the `n`-th powers, which are integral powers of ten but for the slack.
  obtain ⟨hbelow, habove⟩ := zpow_le_mul (by positivity : (0 : ℚ) < 2 ^ n)
    (by exact_mod_cast hlow : (2 : ℚ) ^ n ≤ 10 ^ m)
    (by rw [← pow_succ']; exact_mod_cast hhigh) t
  rw [hten] at hbelow habove
  constructor
  · refine le_of_pow_le_pow_left₀ hn.ne' (by positivity) ?_
    calc ((2 : ℚ) ^ t) ^ n = (2 ^ n) ^ t := htwo
      _ ≤ 10 ^ (n * q + r) * 2 ^ t.natAbs := habove
      _ ≤ 10 ^ (n * q + r) * 10 ^ (n : ℤ) := mul_le_mul_of_nonneg_left hslack (by positivity)
      _ = 10 ^ (n * q + r + n) := (zpow_add₀ (by norm_num) _ _).symm
      _ ≤ 10 ^ (n * q + 2 * n) := zpow_le_zpow_right₀ (by norm_num) (by omega)
      _ = (10 ^ (q + 2)) ^ n := hceiling.symm
  · refine le_of_pow_le_pow_left₀ hn.ne' (by positivity) ?_
    have hthousand : (1000 : ℚ) ^ n = 10 ^ (n : ℤ) * 10 ^ (2 * n : ℤ) := by
      rw [← zpow_add₀ (by norm_num), show (1000 : ℚ) = 10 ^ (3 : ℤ) by norm_num, ← zpow_natCast,
        ← zpow_mul]
      congr 1
      ring
    calc ((10 : ℚ) ^ (q + 2)) ^ n = 10 ^ (n * q + 2 * n) := hceiling
      _ ≤ 10 ^ (n * q + r + 2 * n) := zpow_le_zpow_right₀ (by norm_num) (by omega)
      _ = 10 ^ (n * q + r) * 10 ^ (2 * n : ℤ) := zpow_add₀ (by norm_num) _ _
      _ ≤ (2 ^ n) ^ t * 2 ^ t.natAbs * 10 ^ (2 * n : ℤ) :=
          mul_le_mul_of_nonneg_right hbelow (by positivity)
      _ ≤ (2 ^ n) ^ t * 10 ^ (n : ℤ) * 10 ^ (2 * n : ℤ) := by gcongr
      _ = (1000 * 2 ^ t) ^ n := by
          rw [mul_pow, hthousand, htwo]
          ring

end Logarithm

section Ceiling

variable {rank : Nat}

theorem cast_unitsOfOne : (unitsOfOne : ℚ) = 2 ^ ((1074 : ℕ) : ℤ) := by
  delta unitsOfOne
  generalize (1074 : ℕ) = places
  rw [zpow_natCast]
  exact Nat.cast_pow 2 places

theorem unitsOfRank_pos (hrank : 0 < rank) : 0 < unitsOfRank rank := by
  have hlt := strictMono_unitsOfRank hrank
  rwa [unitsOfRank_zero] at hlt

/-- One binary place more than a magnitude has is enough for its upper neighbour too. -/
theorem unitsOfRank_succ_le (hrank : 0 < rank) :
    unitsOfRank (rank + 1) ≤ 2 ^ ((unitsOfRank rank).log2 + 1) := by
  have hpos := unitsOfRank_pos hrank
  obtain ⟨m, hsplit, -, hm⟩ := exists_isSignificand rank
  have hunits := unitsOfRank_grid hm
  rw [← hsplit] at hunits
  have hmpos : 0 < m := Nat.pos_of_mul_pos_right (hunits ▸ hpos)
  have hplaces : rank / binade - 1 ≤ (unitsOfRank rank).log2 := by
    rw [Nat.le_log2 hpos.ne', hunits]
    exact Nat.le_mul_of_pos_left _ hmpos
  obtain ⟨rest, hrest⟩ := Nat.exists_eq_add_of_le (Nat.le_succ_of_le hplaces)
  have hlt : unitsOfRank rank < 2 ^ ((unitsOfRank rank).log2 + 1) := Nat.lt_log2_self
  rw [Nat.succ_eq_add_one] at hrest
  rw [unitsOfRank_succ, hrest, pow_add, mul_comm (2 ^ (rank / binade - 1))]
  rw [hrest, pow_add, mul_comm (2 ^ (rank / binade - 1))] at hlt
  conv_lhs at hlt => rw [hunits]
  rw [hunits, ← Nat.succ_mul]
  exact Nat.mul_le_mul_right _ (Nat.lt_of_mul_lt_mul_right hlt)

/-- A magnitude has at most 53 binary places above the distance to its upper neighbour. -/
theorem log2_unitsOfRank_lt (hrank : 0 < rank) :
    (unitsOfRank rank).log2 < 53 + (rank / binade - 1) := by
  obtain ⟨m, hsplit, hlt, hm⟩ := exists_isSignificand rank
  have hunits := unitsOfRank_grid hm
  rw [← hsplit] at hunits
  have hbinade : 2 * binade = 2 ^ 53 := by decide
  rw [Nat.log2_lt (unitsOfRank_pos hrank).ne', pow_add, ← hbinade]
  conv_lhs => rw [hunits]
  exact Nat.mul_lt_mul_of_pos_right hlt (Nat.two_pow_pos _)

/-- The step from a magnitude to its upper neighbour. -/
theorem magnitude_succ (rank : Nat) :
    magnitude (rank + 1) =
      magnitude rank + 2 ^ (((rank / binade - 1 : ℕ) : ℤ) - ((1074 : ℕ) : ℤ)) := by
  rw [magnitude, magnitude, unitsOfRank_succ, Nat.cast_add, add_div, zpow_sub₀ (by norm_num),
    ← cast_unitsOfOne, zpow_natCast, Nat.cast_pow, Nat.cast_ofNat]

theorem ceilingExponent_bounds (hrank : 0 < rank) (hfinite : rank < infinityRank) :
    (2 : ℚ) ^ ((unitsOfRank rank).log2 - 1073 : ℤ) ≤ 10 ^ ceilingExponent rank ∧
      (10 : ℚ) ^ ceilingExponent rank ≤
        1000 * 2 ^ ((unitsOfRank rank).log2 - 1073 : ℤ) := by
  have hlog : (unitsOfRank rank).log2 < 3000 := by
    rw [Nat.log2_lt (unitsOfRank_pos hrank).ne']
    calc unitsOfRank rank < unitsOfRank infinityRank := strictMono_unitsOfRank hfinite
      _ < 2 ^ 3000 := by decide +kernel
  have hlow : 2 ^ 100000 ≤ 10 ^ 30103 := by decide +kernel
  have hhigh : 10 ^ 30103 ≤ 2 ^ (100000 + 1) := by decide +kernel
  exact zpow_ceiling (by norm_num) hlow hhigh (by omega)

/-- The search begins above the upper neighbour of the magnitude. -/
theorem magnitude_succ_le_ceiling (hrank : 0 < rank) (hfinite : rank < infinityRank) :
    magnitude (rank + 1) ≤ 10 ^ ceilingExponent rank := by
  refine le_trans ?_ (ceilingExponent_bounds hrank hfinite).1
  have hunits : (unitsOfRank (rank + 1) : ℚ) ≤ 2 ^ (((unitsOfRank rank).log2 + 1 : ℕ) : ℤ) := by
    rw [zpow_natCast]
    exact_mod_cast unitsOfRank_succ_le hrank
  have hexponent : ((unitsOfRank rank).log2 - 1073 : ℤ) =
      ((unitsOfRank rank).log2 + 1 : ℕ) - ((1074 : ℕ) : ℤ) := by
    push_cast
    ring
  rw [magnitude, div_le_iff₀ cast_unitsOfOne_pos, hexponent, zpow_sub₀ (by norm_num),
    ← cast_unitsOfOne, div_mul_cancel₀ _ cast_unitsOfOne_pos.ne']
  exact hunits

/-- After twenty steps the grid is finer than half the step to the upper neighbour. -/
theorem two_mul_ceiling_lt (hrank : 0 < rank) (hfinite : rank < infinityRank) :
    magnitude rank + 2 * 10 ^ (ceilingExponent rank - 20) < magnitude (rank + 1) := by
  have hhigh := (ceilingExponent_bounds hrank hfinite).2
  have hlog := log2_unitsOfRank_lt hrank
  have hstep := zpow_pos (by norm_num : (0 : ℚ) < 2)
    (((rank / binade - 1 : ℕ) : ℤ) - ((1074 : ℕ) : ℤ))
  have hplaces : (2 : ℚ) ^ ((unitsOfRank rank).log2 - 1073 : ℤ) ≤
      2 ^ (((rank / binade - 1 : ℕ) : ℤ) - ((1074 : ℕ) : ℤ)) * 2 ^ (53 : ℤ) := by
    rw [← zpow_add₀ (by norm_num)]
    exact zpow_le_zpow_right₀ (by norm_num) (by push_cast; omega)
  rw [magnitude_succ, zpow_sub₀ (by norm_num)]
  generalize (2 : ℚ) ^ (((rank / binade - 1 : ℕ) : ℤ) - ((1074 : ℕ) : ℤ)) = step at hstep hplaces ⊢
  norm_num at hplaces ⊢
  linarith

end Ceiling

section Search

variable {rank coefficient : Nat} {exponent : Int} {d : Decimal}

/-- A decimal in the rounding interval of a rank, on the coarsest grid that has one. -/
structure IsShortest (rank : Nat) (d : Decimal) : Prop where
  inInterval : InInterval rank d.value
  coarsest : ∀ coefficient, ¬ InInterval rank (Decimal.value ⟨coefficient, d.exponent + 1⟩)

/-- A point of a grid, in the units in which an interval is compared with it. -/
theorem mul_spacing (coefficient : Nat) (exponent : Int) :
    coefficient * (2 * unitsOfOne * Nat.pow 10 exponent.toNat) =
      2 * Decimal.numerator ⟨coefficient, exponent⟩ := by
  rw [Decimal.numerator, Nat.pow_eq]
  generalize unitsOfOne = units
  ring

theorem contains_of_nearestOnGrid? {interval : RoundingInterval}
    (h : interval.nearestOnGrid? exponent = some coefficient) :
    interval.contains (Decimal.denominator ⟨coefficient, exponent⟩)
      (2 * Decimal.numerator ⟨coefficient, exponent⟩) = true := by
  rw [← mul_spacing]
  unfold RoundingInterval.nearestOnGrid? at h
  change interval.contains (Nat.pow 10 (-exponent).toNat) _ = true
  generalize 2 * unitsOfOne * Nat.pow 10 exponent.toNat = spacing at h ⊢
  generalize Nat.pow 10 (-exponent).toNat = factor at h ⊢
  simp only at h
  split at h
  · next hbelow habove =>
      rw [← Option.some.inj h]
      split
      · exact hbelow
      · exact habove
  · next hbelow _ => rwa [← Option.some.inj h]
  · next _ habove => rwa [← Option.some.inj h]
  · cases h

theorem inInterval_of_nearestOnGrid?
    (h : (roundingInterval rank).nearestOnGrid? exponent = some coefficient) :
    InInterval rank (Decimal.value ⟨coefficient, exponent⟩) :=
  (Decimal.roundsTo_iff _).mp (contains_of_nearestOnGrid? h)

/-- A magnitude lies in its rounding interval. -/
theorem inInterval_magnitude (hrank : 0 < rank) : InInterval rank (magnitude rank) := by
  have hbelow : magnitude (rank - 1) < magnitude rank := strictMono_magnitude (by omega)
  have habove : magnitude rank < magnitude (rank + 1) := strictMono_magnitude (by omega)
  exact ⟨by linarith, by linarith, fun _ => ⟨by linarith, by linarith⟩⟩

/-- A point of a grid lies above a magnitude, or below it. -/
theorem magnitude_le_value_iff (d : Decimal) :
    magnitude rank ≤ d.value ↔ 2 * unitsOfRank rank * d.denominator ≤ 2 * d.numerator := by
  rw [← d.le_two_mul_value_iff, Nat.two_mul, ← magnitude_add, ← two_mul]
  exact (mul_le_mul_iff_of_pos_left two_pos).symm

theorem value_le_magnitude_iff (d : Decimal) :
    d.value ≤ magnitude rank ↔ 2 * d.numerator ≤ 2 * unitsOfRank rank * d.denominator := by
  rw [← d.two_mul_value_le_iff, Nat.two_mul, ← magnitude_add, ← two_mul]
  exact (mul_le_mul_iff_of_pos_left two_pos).symm

/-- Where the search finds nothing, it has tried the two points of the grid around the middle. -/
theorem exists_of_nearestOnGrid?_eq_none
    (h : (roundingInterval rank).nearestOnGrid? exponent = none) :
    ∃ below, Decimal.value ⟨below, exponent⟩ ≤ magnitude rank ∧
      magnitude rank ≤ Decimal.value ⟨below + 1, exponent⟩ ∧
        ¬ InInterval rank (Decimal.value ⟨below, exponent⟩) ∧
          ¬ InInterval rank (Decimal.value ⟨below + 1, exponent⟩) := by
  simp only [value_le_magnitude_iff, magnitude_le_value_iff, ← Decimal.roundsTo_iff,
    Decimal.RoundsTo, ← mul_spacing]
  change ∃ below, _ ≤ _ * Nat.pow 10 (-exponent).toNat ∧ _ * Nat.pow 10 (-exponent).toNat ≤ _ ∧
    ¬ RoundingInterval.contains _ (Nat.pow 10 (-exponent).toNat) _ = true ∧
      ¬ RoundingInterval.contains _ (Nat.pow 10 (-exponent).toNat) _ = true
  have hspacing : 0 < 2 * unitsOfOne * Nat.pow 10 exponent.toNat :=
    Nat.mul_pos (Nat.mul_pos two_pos unitsOfOne_pos) (Nat.pow_pos (by norm_num))
  unfold RoundingInterval.nearestOnGrid? at h
  generalize 2 * unitsOfOne * Nat.pow 10 exponent.toNat = spacing at h hspacing ⊢
  generalize Nat.pow 10 (-exponent).toNat = factor at h ⊢
  simp only at h
  refine ⟨_, Nat.div_mul_le_self _ spacing,
    ((Nat.div_lt_iff_lt_mul hspacing).mp (Nat.lt_succ_self _)).le, ?_⟩
  split at h
  · cases h
  · cases h
  · cases h
  · next hfirst hsecond =>
      rw [Bool.not_eq_true, Bool.not_eq_true]
      exact ⟨hfirst, hsecond⟩

/-- If the search finds nothing on a grid, the rounding interval has no point there: between such a
point and the magnitude it would have one of the two that were tried. -/
theorem not_inInterval_of_nearestOnGrid? (hrank : 0 < rank)
    (h : (roundingInterval rank).nearestOnGrid? exponent = none) (coefficient : Nat) :
    ¬ InInterval rank (Decimal.value ⟨coefficient, exponent⟩) := by
  intro hpoint
  obtain ⟨below, hbelow, habove, hfirst, hsecond⟩ := exists_of_nearestOnGrid?_eq_none h
  have hmiddle := inInterval_magnitude hrank
  have hmono : ∀ {j k : Nat}, j ≤ k →
      Decimal.value ⟨j, exponent⟩ ≤ Decimal.value ⟨k, exponent⟩ := fun hjk =>
    mul_le_mul_of_nonneg_right (Nat.cast_le.mpr hjk) (by positivity)
  rcases Nat.lt_or_ge below coefficient with hlt | hle
  · exact hsecond (hmiddle.between hpoint habove (hmono hlt))
  · exact hfirst (hpoint.between hmiddle (hmono hle) hbelow)

theorem isShortest_of_firstOnGrids? (hrank : 0 < rank) {grids : Nat}
    (h : (roundingInterval rank).firstOnGrids? grids exponent = some d)
    (hcoarse : ∀ coefficient, ¬ InInterval rank (Decimal.value ⟨coefficient, exponent + 1⟩)) :
    IsShortest rank d := by
  induction grids generalizing exponent with
  | zero => cases h
  | succ grids ih =>
      unfold RoundingInterval.firstOnGrids? at h
      split at h
      · next hfound =>
          rw [← Option.some.inj h]
          exact ⟨inInterval_of_nearestOnGrid? hfound, hcoarse⟩
      · next hnone =>
          refine ih h fun coefficient => ?_
          rw [sub_add_cancel]
          exact not_inInterval_of_nearestOnGrid? hrank hnone coefficient

/-- The search ends on the first grid with a point in the rounding interval, if it gets there. -/
theorem isSome_firstOnGrids? (hrank : 0 < rank) {grids steps : Nat} (hsteps : steps < grids)
    (h : InInterval rank (Decimal.value ⟨coefficient, exponent - steps⟩)) :
    ((roundingInterval rank).firstOnGrids? grids exponent).isSome = true := by
  induction grids generalizing exponent steps with
  | zero => cases hsteps
  | succ grids ih =>
      unfold RoundingInterval.firstOnGrids?
      split
      · rfl
      · next hnone =>
          cases steps with
          | zero =>
              rw [Nat.cast_zero, sub_zero] at h
              exact absurd h (not_inInterval_of_nearestOnGrid? hrank hnone coefficient)
          | succ steps =>
              have hexponent : exponent - (steps + 1 : ℕ) = exponent - 1 - (steps : ℤ) := by
                push_cast
                ring
              rw [hexponent] at h
              exact ih (Nat.lt_of_succ_lt_succ hsteps) h

/-- The grid above the one that the search begins on has no point in the rounding interval: zero is
too small for it, and everything else too large. -/
theorem not_inInterval_ceiling (hrank : 0 < rank) (hfinite : rank < infinityRank)
    (coefficient : Nat) :
    ¬ InInterval rank (Decimal.value ⟨coefficient, ceilingExponent rank + 1⟩) := by
  intro h
  have hbelow := magnitude_nonneg (rank - 1)
  have hpos := magnitude_pos hrank
  have habove : magnitude rank < magnitude (rank + 1) := strictMono_magnitude (by omega)
  have hceiling := magnitude_succ_le_ceiling hrank hfinite
  have hlow := h.low
  have hhigh := h.high
  rw [Decimal.value] at hlow hhigh
  rcases Nat.eq_zero_or_pos coefficient with rfl | hone
  · rw [Nat.cast_zero, zero_mul] at hlow
    linarith
  · have hcast : (1 : ℚ) ≤ coefficient := by exact_mod_cast hone
    have hten : (10 : ℚ) ^ (ceilingExponent rank + 1) = 10 ^ ceilingExponent rank * 10 := by
      rw [zpow_add₀ (by norm_num), zpow_one]
    have hscaled : (10 : ℚ) ^ (ceilingExponent rank + 1) ≤
        coefficient * 10 ^ (ceilingExponent rank + 1) :=
      le_mul_of_one_le_left (by positivity) hcast
    linarith

/-- Twenty steps further, the first point above the magnitude lies in the rounding interval. -/
theorem exists_inInterval_fine (hrank : 0 < rank) (hfinite : rank < infinityRank) :
    ∃ coefficient, InInterval rank (Decimal.value ⟨coefficient, ceilingExponent rank - 20⟩) := by
  have hfine := two_mul_ceiling_lt hrank hfinite
  have hspacing : (0 : ℚ) < 10 ^ (ceilingExponent rank - 20) := by positivity
  have hbelow : magnitude (rank - 1) < magnitude rank := strictMono_magnitude (by omega)
  have hfloor := Nat.floor_le (div_nonneg (magnitude_nonneg rank) hspacing.le)
  have hnext := Nat.lt_floor_add_one (magnitude rank / 10 ^ (ceilingExponent rank - 20))
  rw [le_div_iff₀ hspacing] at hfloor
  rw [div_lt_iff₀ hspacing] at hnext
  refine ⟨⌊magnitude rank / 10 ^ (ceilingExponent rank - 20)⌋₊ + 1, ?_⟩
  rw [Decimal.value]
  push_cast
  exact ⟨by linarith, by linarith, fun _ => ⟨by linarith, by linarith⟩⟩

/-- The decimal that is written is a shortest one. -/
theorem isShortest_shortest (hrank : 0 < rank) (hfinite : rank < infinityRank) :
    IsShortest rank (shortest rank) := by
  obtain ⟨coefficient, hfine⟩ := exists_inInterval_fine hrank hfinite
  have hsteps : (20 : ℤ) = ((20 : ℕ) : ℤ) := rfl
  rw [hsteps] at hfine
  have hfound := isSome_firstOnGrids? hrank (by norm_num : 20 < 21) hfine
  unfold shortest
  split
  · next hd => exact isShortest_of_firstOnGrids? hrank hd (not_inInterval_ceiling hrank hfinite)
  · next hnone =>
      rw [hnone] at hfound
      cases hfound

end Search

end Binary64
end FormulaSheet
