import FormulaSheet.Binary64.Rounding

/-!
# Arithmetic in double precision

The four operations give the number nearest to the exact result. Signs, zeros, infinities and
values that are not numbers follow the usual rules: an exact zero sum is positive unless both
summands are negative zeros, and an operation without a defined result is not a number.
-/

namespace FormulaSheet
namespace Binary64

/-- A finite number as a whole number of units, with its sign. -/
def signedUnits (x : Binary64) : Int :=
  if x.negative then -(x.units : Int) else x.units

def add (x y : Binary64) : Binary64 :=
  if x.isNaN || y.isNaN then nan
  else if x.isInfinite then
    if y.isInfinite && x.negative != y.negative then nan else x
  else if y.isInfinite then y
  else if x.signedUnits + y.signedUnits = 0 then zero (x.negative && y.negative)
  else
    roundUnits (x.signedUnits + y.signedUnits < 0) (x.signedUnits + y.signedUnits).natAbs 1

def sub (x y : Binary64) : Binary64 :=
  if y.isNaN then nan else add x y.neg

def mul (x y : Binary64) : Binary64 :=
  let negative := x.negative != y.negative
  if x.isNaN || y.isNaN then nan
  else if x.isInfinite || y.isInfinite then
    if x.isZero || y.isZero then nan else infinity negative
  else roundUnits negative (x.units * y.units) unitsOfOne

def div (x y : Binary64) : Binary64 :=
  let negative := x.negative != y.negative
  if x.isNaN || y.isNaN then nan
  else if x.isInfinite then
    if y.isInfinite then nan else infinity negative
  else if y.isInfinite then zero negative
  else if y.isZero then
    if x.isZero then nan else infinity negative
  else roundUnits negative (x.units * unitsOfOne) y.units

end Binary64
end FormulaSheet
