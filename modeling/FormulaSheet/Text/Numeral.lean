/-!
# Decimal numerals

Natural numbers as runs of decimal digits.

* `numeral`: the digits of a number, without leading zeros.
* `numeralValue`: the number that a run of digits denotes.
* `word64?`: a non-empty run of digits whose value fits into 64 bits.
-/

namespace FormulaSheet
namespace Text

def numeral (n : Nat) : List Char :=
  Nat.toDigits 10 n

def digitValue (c : Char) : Nat :=
  c.toNat - '0'.toNat

/-- The number that a run of decimal digits denotes; leading zeros do not count. -/
def numeralValue (cs : List Char) : Nat :=
  cs.foldl (fun value c => 10 * value + digitValue c) 0

def wordLimit : Nat := Nat.pow 2 64

/-- The value of a non-empty run of decimal digits, if it fits into 64 bits. -/
def word64? (cs : List Char) : Option Nat :=
  if cs ≠ [] ∧ cs.all Char.isDigit = true ∧ numeralValue cs < wordLimit then
    some (numeralValue cs)
  else
    none

end Text
end FormulaSheet
