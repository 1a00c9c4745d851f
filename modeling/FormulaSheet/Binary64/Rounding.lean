import FormulaSheet.Binary64.Basic

/-!
# Rounding to double precision

One function, `roundUnits`, takes a non-negative quotient of two natural numbers, counted in
units of 2⁻¹⁰⁷⁴, to the nearest double precision number; a quotient that lies half way goes to
the neighbour whose rank is even, and a quotient that is too large goes to infinity. Reading a
decimal and the four arithmetic operations are exact up to this one step.
-/

namespace FormulaSheet
namespace Binary64

/-- The natural number nearest to a quotient; half way goes to the even one. -/
def roundQuotient (num den : Nat) : Nat :=
  if 2 * (num % den) < den ∨ (2 * (num % den) = den ∧ num / den % 2 = 0) then num / den
  else num / den + 1

/-- How many binary places a magnitude of so many whole units has beyond the 53 that a number
keeps. -/
def excessPlaces (whole : Nat) : Nat :=
  whole.log2 - 52

/-- The rank nearest to a quotient of units. With `k` excess places the quotient is rounded to a
multiple of `2 ^ k`, and the ranks of one more excess place lie one `binade` higher. -/
def nearestRank (num den : Nat) : Nat :=
  min infinityRank
    (excessPlaces (num / den) * binade +
      roundQuotient num (den * Nat.pow 2 (excessPlaces (num / den))))

/-- The number of a sign that is nearest to a quotient of units. -/
def roundUnits (negative : Bool) (num den : Nat) : Binary64 where
  negative := negative
  rank := nearestRank num den
  rank_lt := Nat.lt_of_le_of_lt (Nat.min_le_left _ _) (by decide)

/-- One, counted in units. -/
def unitsOfOne : Nat := Nat.pow 2 1074

/-- The number of a sign nearest to `digits · 10 ^ scale`. A magnitude of fewer than 330 places
before the first significant one is zero and one of more than 310 places is infinite; telling so
from the count of digits keeps the powers small. -/
def ofDecimal (negative : Bool) (digits : Nat) (scale : Int) : Binary64 :=
  if digits = 0 ∨ (Nat.toDigits 10 digits).length + scale < -330 then zero negative
  else if 310 < (Nat.toDigits 10 digits).length + scale then infinity negative
  else
    roundUnits negative (digits * unitsOfOne * Nat.pow 10 scale.toNat)
      (Nat.pow 10 (-scale).toNat)

end Binary64
end FormulaSheet
