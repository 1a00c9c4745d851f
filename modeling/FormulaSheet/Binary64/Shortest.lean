import FormulaSheet.Binary64.Rounding
import FormulaSheet.Text.Numeral

/-!
# The shortest numeral of a number

A finite number is written with the fewest significant digits that are read back as the same
number; of two numerals with that many digits the nearer is taken, and the larger of two that
are equally near. The numeral is always positional: no exponent, no trailing zeros after the
point, no point without digits after it.

The decimals that are read back as a given number are those in its *rounding interval*, which
reaches half way to the neighbours in rank and has its ends included exactly if the rank is even.
`RoundingInterval.nearestOnGrid?` looks for a multiple of a power of ten in that interval, and
`shortest` takes the coarsest grid that has one.
-/

namespace FormulaSheet
namespace Binary64

open Text

/-- The number `coefficient · 10 ^ exponent`. -/
structure Decimal where
  coefficient : Nat
  exponent : Int
  deriving DecidableEq

/-- The magnitudes that round to one rank, in units of 2⁻¹⁰⁷⁵: those between two ends. -/
structure RoundingInterval where
  low : Nat
  /-- The magnitude of the rank itself. -/
  middle : Nat
  high : Nat
  /-- The ends belong to the interval. -/
  closed : Bool

/-- The rounding interval of a rank: half way to its two neighbours, with the ends if the rank is
even. -/
def roundingInterval (rank : Nat) : RoundingInterval where
  low := unitsOfRank (rank - 1) + unitsOfRank rank
  middle := 2 * unitsOfRank rank
  high := unitsOfRank rank + unitsOfRank (rank + 1)
  closed := rank % 2 = 0

/-- A point lies in an interval whose ends are stretched by a factor. -/
def RoundingInterval.contains (interval : RoundingInterval) (factor point : Nat) : Bool :=
  if interval.closed then
    interval.low * factor ≤ point && point ≤ interval.high * factor
  else
    interval.low * factor < point && point < interval.high * factor

/-- The multiple of `10 ^ exponent` in a rounding interval that is nearest to its middle, as its
coefficient. Interval and multiples are compared in units of 2⁻¹⁰⁷⁵ stretched by a power of ten,
so that all of them are whole. -/
def RoundingInterval.nearestOnGrid? (interval : RoundingInterval) (exponent : Int) :
    Option Nat :=
  let factor := Nat.pow 10 (-exponent).toNat
  let spacing := 2 * unitsOfOne * Nat.pow 10 exponent.toNat
  let below := interval.middle * factor / spacing
  let rest := interval.middle * factor % spacing
  match interval.contains factor (below * spacing),
      interval.contains factor ((below + 1) * spacing) with
  | true, true => some (if 2 * rest < spacing then below else below + 1)
  | true, false => some below
  | false, true => some (below + 1)
  | false, false => none

/-- An exponent of ten whose power is above the magnitude of a rank, by a factor of less than a
thousand: the magnitude is below `2 ^ (log2 units - 1073)`, and 0.30103 is close to the logarithm
of two. -/
def ceilingExponent (rank : Nat) : Int :=
  ((unitsOfRank rank).log2 - 1073 : Int) * 30103 / 100000 + 2

/-- The nearest decimal on the first grid that has one in a rounding interval, among so many
grids of which each is ten times finer than the one before. -/
def RoundingInterval.firstOnGrids? (interval : RoundingInterval) : Nat → Int → Option Decimal
  | 0, _ => none
  | grids + 1, exponent =>
      match interval.nearestOnGrid? exponent with
      | some coefficient => some ⟨coefficient, exponent⟩
      | none => interval.firstOnGrids? grids (exponent - 1)

/-- The decimal with the fewest digits that is read back as the number of a rank. The grids go
from one that is too coarse for the magnitude to one of seventeen digits, which never fails;
should it fail, the magnitude itself is a decimal. -/
def shortest (rank : Nat) : Decimal :=
  match (roundingInterval rank).firstOnGrids? 21 (ceilingExponent rank) with
  | some decimal => decimal
  | none => ⟨unitsOfRank rank * Nat.pow 5 1074, -1074⟩

/-- The digits after the point of `coefficient / 10 ^ places`, without trailing zeros. -/
def fractionDigits (coefficient places : Nat) : List Char :=
  let digits := numeral (coefficient % Nat.pow 10 places)
  let padded := List.replicate (places - digits.length) '0' ++ digits
  (padded.reverse.dropWhile (· = '0')).reverse

def Decimal.text (d : Decimal) : List Char :=
  match d.exponent with
  | .ofNat places => numeral (d.coefficient * Nat.pow 10 places)
  | .negSucc n =>
      let fraction := fractionDigits d.coefficient (n + 1)
      numeral (d.coefficient / Nat.pow 10 (n + 1)) ++
        if fraction = [] then [] else '.' :: fraction

def magnitudeText (rank : Nat) : List Char :=
  if rank = 0 then ['0']
  else if rank = infinityRank then "inf".toList
  else (shortest rank).text

/-- The text of a number: its shortest numeral, `inf`, `-inf`, or `NaN` without a sign. -/
def text (x : Binary64) : List Char :=
  if x.isNaN then "NaN".toList
  else if x.negative then '-' :: magnitudeText x.rank
  else magnitudeText x.rank

def numeral? (x : Binary64) : Option String :=
  if x.isFinite then some (String.ofList x.text) else none

end Binary64
end FormulaSheet
