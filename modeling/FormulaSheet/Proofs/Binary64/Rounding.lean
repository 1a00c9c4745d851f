import Mathlib
import FormulaSheet.Binary64.Shortest

/-!
# Rounding intervals

A magnitude is rounded to a rank in whose rounding interval it lies. The ranks `k · binade + m`,
for `m` from `binade` to twice as many, have the magnitudes `m · 2 ^ k`; so on such a stretch, which
includes both of its ends, ranks are as far apart as their magnitudes.

* `unitsOfRank_grid`, `unitsOfRank_succ`: magnitudes of ranks.
* `contains_unlimitedRank`: rounding gives a rank in whose interval the magnitude lies.
-/

namespace FormulaSheet
namespace Binary64

theorem binade_pos : 0 < binade := by decide

theorem binade_mod_two : binade % 2 = 0 := by decide

section Magnitudes

variable {k m rank : Nat}

/-- `m · 2 ^ k` is the magnitude of a rank. -/
structure IsSignificand (k m : Nat) : Prop where
  le : m ≤ 2 * binade
  normal : k = 0 ∨ binade ≤ m

theorem IsSignificand.succ (h : IsSignificand k m) (hlt : m < 2 * binade) :
    IsSignificand k (m + 1) :=
  ⟨hlt, h.normal.imp_right fun h => Nat.le_succ_of_le h⟩

theorem unitsOfRank_grid (h : IsSignificand k m) :
    unitsOfRank (k * binade + m) = m * 2 ^ k := by
  have hdiv : (k * binade + m) / binade = k + m / binade := by
    rw [Nat.mul_comm, Nat.mul_add_div binade_pos]
  have hmod : (k * binade + m) % binade = m % binade := by
    rw [Nat.mul_comm, Nat.mul_add_mod]
  simp only [unitsOfRank, hdiv, hmod, Nat.pow_eq]
  rcases Nat.lt_or_ge m binade with hsmall | hlarge
  · obtain rfl : k = 0 := h.normal.resolve_right (Nat.not_le.mpr hsmall)
    rw [Nat.div_eq_of_lt hsmall, Nat.mod_eq_of_lt hsmall]
    simp
  · rcases Nat.lt_or_eq_of_le h.le with hlt | rfl
    · have hone : m / binade = 1 := Nat.div_eq_of_lt_le (by omega) (by omega)
      have hrest : m % binade = m - binade := by
        have hsplit := Nat.div_add_mod m binade
        rw [hone] at hsplit
        omega
      rw [hone, hrest, if_neg (by omega), Nat.add_sub_cancel, Nat.add_sub_cancel' hlarge]
    · rw [Nat.mul_div_cancel _ binade_pos, Nat.mul_mod_left, if_neg (by omega)]
      have hexponent : k + 2 - 1 = k + 1 := by omega
      rw [hexponent, Nat.add_zero, pow_succ]
      ring

/-- Every rank has a magnitude of this form, and so has its upper neighbour. -/
theorem exists_isSignificand (rank : Nat) :
    ∃ m, rank = (rank / binade - 1) * binade + m ∧ m < 2 * binade ∧
      IsSignificand (rank / binade - 1) m := by
  have hsplit := Nat.div_add_mod' rank binade
  have hmod := Nat.mod_lt rank binade_pos
  rcases Nat.eq_zero_or_pos (rank / binade) with hzero | hpos
  · rw [hzero] at hsplit ⊢
    exact ⟨rank, by omega, by omega, ⟨by omega, Or.inl rfl⟩⟩
  · obtain ⟨k, hk⟩ := Nat.exists_eq_add_of_lt hpos
    rw [hk] at hsplit ⊢
    have hindex : 0 + k + 1 - 1 = k := by omega
    rw [hindex]
    have hexpand : (0 + k + 1) * binade = k * binade + binade := by ring
    exact ⟨binade + rank % binade, by omega, by omega, ⟨by omega, Or.inr (by omega)⟩⟩

theorem unitsOfRank_succ (rank : Nat) :
    unitsOfRank (rank + 1) = unitsOfRank rank + 2 ^ (rank / binade - 1) := by
  obtain ⟨m, hrank, hlt, hm⟩ := exists_isSignificand rank
  have hupper := unitsOfRank_grid (hm.succ hlt)
  rw [← Nat.add_assoc, ← hrank] at hupper
  have hlower := unitsOfRank_grid hm
  rw [← hrank] at hlower
  rw [hupper, hlower]
  ring

/-- The upper neighbour is at least as far away as the ranks of the stretch are. -/
theorem le_unitsOfRank_succ (h : IsSignificand k m) :
    (m + 1) * 2 ^ k ≤ unitsOfRank (k * binade + m + 1) := by
  have hplaces : k ≤ (k * binade + m) / binade - 1 := by
    rw [Nat.mul_comm, Nat.mul_add_div binade_pos]
    rcases h.normal with rfl | hlarge
    · exact Nat.zero_le _
    · have hone : 1 ≤ m / binade := (Nat.one_le_div_iff binade_pos).mpr hlarge
      omega
  have hstep : 2 ^ k ≤ 2 ^ ((k * binade + m) / binade - 1) :=
    Nat.pow_le_pow_right (by decide) hplaces
  rw [unitsOfRank_succ, unitsOfRank_grid h, Nat.succ_mul]
  omega

theorem strictMono_unitsOfRank : StrictMono unitsOfRank := by
  refine strictMono_nat_of_lt_succ fun rank => ?_
  rw [unitsOfRank_succ]
  exact Nat.lt_add_of_pos_right (Nat.two_pow_pos _)

@[simp] theorem unitsOfRank_zero : unitsOfRank 0 = 0 := by decide

end Magnitudes

section Intervals

variable {rank factor point : Nat}

theorem contains_iff :
    (roundingInterval rank).contains factor point = true ↔
      (unitsOfRank (rank - 1) + unitsOfRank rank) * factor ≤ point ∧
        point ≤ (unitsOfRank rank + unitsOfRank (rank + 1)) * factor ∧
        (rank % 2 = 1 →
          (unitsOfRank (rank - 1) + unitsOfRank rank) * factor < point ∧
            point < (unitsOfRank rank + unitsOfRank (rank + 1)) * factor) := by
  unfold RoundingInterval.contains roundingInterval
  by_cases heven : rank % 2 = 0
  · simp [heven]
  · have hodd : rank % 2 = 1 := by omega
    simp only [hodd, one_ne_zero, decide_false, Bool.false_eq_true, if_false, Bool.and_eq_true,
      decide_eq_true_eq, forall_const]
    exact ⟨fun h => ⟨h.1.le, h.2.le, h⟩, fun h => h.2.2⟩

end Intervals

section Nearest

variable {num den : Nat}

theorem roundQuotient_cases (num den : Nat) :
    (roundQuotient num den = num / den ∧
        (2 * (num % den) < den ∨ 2 * (num % den) = den ∧ num / den % 2 = 0)) ∨
      roundQuotient num den = num / den + 1 ∧
        (den < 2 * (num % den) ∨ 2 * (num % den) = den ∧ num / den % 2 = 1) := by
  unfold roundQuotient
  split
  · next h => exact Or.inl ⟨rfl, h⟩
  · exact Or.inr ⟨rfl, by omega⟩

/-- What remains of a magnitude without its excess places. -/
theorem isSignificand_excessPlaces (whole : Nat) :
    whole / 2 ^ excessPlaces whole < 2 * binade ∧
      IsSignificand (excessPlaces whole) (whole / 2 ^ excessPlaces whole) := by
  have htwo : 2 * binade = 2 ^ 53 := by decide
  have hone : binade = 2 ^ 52 := by decide
  have hlt : whole / 2 ^ excessPlaces whole < 2 * binade := by
    rw [Nat.div_lt_iff_lt_mul (Nat.two_pow_pos _), htwo, ← pow_add]
    refine lt_of_lt_of_le Nat.lt_log2_self (Nat.pow_le_pow_right (by decide) ?_)
    unfold excessPlaces
    omega
  refine ⟨hlt, hlt.le, ?_⟩
  rcases Nat.eq_zero_or_pos (excessPlaces whole) with hzero | hpos
  · exact Or.inl hzero
  · right
    have hlog : 52 + excessPlaces whole = whole.log2 := by
      unfold excessPlaces at hpos ⊢
      omega
    have hwhole : whole ≠ 0 := by
      rintro rfl
      simp [excessPlaces] at hpos
    rw [Nat.le_div_iff_mul_le (Nat.two_pow_pos _), hone, ← pow_add, hlog]
    exact Nat.log2_self_le hwhole

/-- The nearest rank if there were ranks without a limit. -/
def unlimitedRank (num den : Nat) : Nat :=
  excessPlaces (num / den) * binade +
    roundQuotient num (den * 2 ^ excessPlaces (num / den))

theorem nearestRank_eq (num den : Nat) :
    nearestRank num den = min infinityRank (unlimitedRank num den) := rfl

/-- The upper end of the rounding interval is at least half a step of the stretch away. -/
theorem le_high {k m : Nat} (hm : IsSignificand k m) (den : Nat) :
    (2 * m + 1) * (den * 2 ^ k) ≤
      (unitsOfRank (k * binade + m) + unitsOfRank (k * binade + m + 1)) * den := by
  have hsum : (2 * m + 1) * 2 ^ k ≤
      unitsOfRank (k * binade + m) + unitsOfRank (k * binade + m + 1) := by
    have hnext := le_unitsOfRank_succ hm
    rw [unitsOfRank_grid hm]
    linarith
  calc (2 * m + 1) * (den * 2 ^ k) = (2 * m + 1) * 2 ^ k * den := by ring
    _ ≤ _ := Nat.mul_le_mul_right den hsum

/-- The lower end of the rounding interval is below the magnitude itself, except for zero. -/
theorem low_le {k m : Nat} (hm : IsSignificand k m) {den : Nat} (hden : 0 < den) :
    (unitsOfRank (k * binade + m - 1) + unitsOfRank (k * binade + m)) * den ≤
        2 * m * (den * 2 ^ k) ∧
      (0 < m → (unitsOfRank (k * binade + m - 1) + unitsOfRank (k * binade + m)) * den <
        2 * m * (den * 2 ^ k)) := by
  have hmiddle : 2 * m * (den * 2 ^ k) = (2 * unitsOfRank (k * binade + m)) * den := by
    rw [unitsOfRank_grid hm]
    ring
  rw [hmiddle]
  constructor
  · have hbelow : unitsOfRank (k * binade + m - 1) ≤ unitsOfRank (k * binade + m) :=
      strictMono_unitsOfRank.monotone (Nat.sub_le _ _)
    exact Nat.mul_le_mul_right den (by omega)
  · intro hpos
    have hbelow : unitsOfRank (k * binade + m - 1) < unitsOfRank (k * binade + m) :=
      strictMono_unitsOfRank (by omega)
    exact Nat.mul_lt_mul_of_pos_right (by omega) hden

/-- Away from the lower end of the stretch, the lower end of the rounding interval is half a step
away. -/
theorem low_succ {k q : Nat} (hq : IsSignificand k q) (hlt : q < 2 * binade) (den : Nat) :
    (unitsOfRank (k * binade + (q + 1) - 1) + unitsOfRank (k * binade + (q + 1))) * den =
      (2 * q + 1) * (den * 2 ^ k) := by
  rw [unitsOfRank_grid (hq.succ hlt), ← Nat.add_assoc, Nat.add_sub_cancel, unitsOfRank_grid hq]
  ring

/-- A magnitude lies in the rounding interval of the rank that it is rounded to. -/
theorem contains_unlimitedRank (hden : 0 < den) :
    (roundingInterval (unlimitedRank num den)).contains den (2 * num) = true := by
  obtain ⟨hlt, hq⟩ := isSignificand_excessPlaces (num / den)
  unfold unlimitedRank
  generalize excessPlaces (num / den) = k at hlt hq ⊢
  rw [Nat.div_div_eq_div_mul] at hlt hq
  have hsplit := Nat.div_add_mod' num (den * 2 ^ k)
  have hmod := Nat.mod_lt num (Nat.mul_pos hden (Nat.two_pow_pos k))
  have hcases := roundQuotient_cases num (den * 2 ^ k)
  have hparity : ∀ m, (k * binade + m) % 2 = m % 2 := fun m => by
    rw [Nat.add_mod, Nat.mul_mod, binade_mod_two]
    simp
  generalize roundQuotient num (den * 2 ^ k) = m at hcases ⊢
  generalize num / (den * 2 ^ k) = q at hlt hq hsplit hcases
  generalize num % (den * 2 ^ k) = rest at hsplit hmod hcases
  have hm : IsSignificand k m := by
    rcases hcases with ⟨rfl, -⟩ | ⟨rfl, -⟩
    · exact hq
    · exact hq.succ hlt
  have hhigh := le_high hm den
  rw [contains_iff, hparity]
  rcases hcases with ⟨rfl, hrest⟩ | ⟨rfl, hrest⟩
  · obtain ⟨hlow, hstrict⟩ := low_le hm hden
    have hexpand : (2 * m + 1) * (den * 2 ^ k) = 2 * m * (den * 2 ^ k) + den * 2 ^ k := by ring
    have hdouble : 2 * m * (den * 2 ^ k) = 2 * (m * (den * 2 ^ k)) := by ring
    refine ⟨by omega, by omega, fun hodd => ?_⟩
    have hbelow := hstrict (by omega)
    omega
  · have hlow := low_succ hq hlt den
    have hexpand : (2 * (q + 1) + 1) * (den * 2 ^ k) =
        2 * (q * (den * 2 ^ k)) + 3 * (den * 2 ^ k) := by ring
    have hdouble : (2 * q + 1) * (den * 2 ^ k) =
        2 * (q * (den * 2 ^ k)) + den * 2 ^ k := by ring
    refine ⟨by omega, by omega, fun hodd => ?_⟩
    omega

end Nearest

end Binary64
end FormulaSheet
