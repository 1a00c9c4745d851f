import FormulaSheet.Binary64.Rounding
import FormulaSheet.Text.Numeral

/-!
# Reading numbers

The texts that denote a double precision number are

    [+-]? (digits [. digits*] | . digits) ([eE] [+-]? digits)?

and, in any case of letters and with a sign or without, `inf`, `infinity` and `nan`. A decimal
text denotes the number nearest to its exact value; nothing else, not even a blank, is read.
-/

namespace FormulaSheet
namespace Binary64

open Text

/-- A sign at the front of a text: whether it is a minus, and the text after it. -/
def splitSign : List Char → Bool × List Char
  | '+' :: cs => (false, cs)
  | '-' :: cs => (true, cs)
  | cs => (false, cs)

/-- The digits after a point at the front of a text, and the text after them. -/
def splitFraction : List Char → List Char × List Char
  | '.' :: cs => (cs.takeWhile Char.isDigit, cs.dropWhile Char.isDigit)
  | cs => ([], cs)

/-- The value of an exponent that makes up a whole text; no text stands for the exponent zero. -/
def exponent? : List Char → Option Int
  | [] => some 0
  | c :: cs =>
      let (negative, digits) := splitSign cs
      if (c = 'e' ∨ c = 'E') ∧ digits ≠ [] ∧ digits.all Char.isDigit = true then
        some (if negative then -(numeralValue digits : Int) else numeralValue digits)
      else
        none

/-- The number of an unsigned decimal text, with the sign given beforehand. -/
def decimal? (negative : Bool) (cs : List Char) : Option Binary64 :=
  let whole := cs.takeWhile Char.isDigit
  let (fraction, rest) := splitFraction (cs.dropWhile Char.isDigit)
  if whole = [] ∧ fraction = [] then none
  else
    (exponent? rest).map fun exponent =>
      ofDecimal negative (numeralValue (whole ++ fraction)) (exponent - fraction.length)

def parse? (cs : List Char) : Option Binary64 :=
  let (negative, body) := splitSign cs
  let word := body.map Char.toLower
  if word = "inf".toList ∨ word = "infinity".toList then some (infinity negative)
  else if word = "nan".toList then some nan
  else decimal? negative body

end Binary64
end FormulaSheet
