import FormulaSheet.Binary64.Arithmetic
import FormulaSheet.Text.Numeral

/-!
# Reading of JSON: faults, words and numbers

A text is read from left to right, and the reader stops at the first fault. There are three
kinds: the text ends too early, it is malformed, or a value is well formed but is not of the kind
that belongs in its place.

Of numbers only those matter that can be column keys, natural numbers below 2⁶⁴ without sign,
point and exponent; of any other number only its form matters, and that its value does not go to
infinity in double precision.
-/

namespace FormulaSheet
namespace Json

open Text

/-- The first problem of a text. -/
inductive Fault
  /-- A value of the wrong kind, or a number that is no column. -/
  | wrongValue
  /-- The text ends too early. -/
  | unexpectedEnd
  /-- The text is not well formed. -/
  | malformed
  deriving DecidableEq

def Fault.message : Fault → String
  | .wrongValue => "value of the wrong kind"
  | .unexpectedEnd => "unexpected end of the text"
  | .malformed => "malformed text"

/-- A text that is being read; a byte that belongs to no character is a place without one. -/
abbrev Input : Type := List (Option Char)


def isGap (c : Option Char) : Bool :=
  c = some ' ' || c = some '\t' || c = some '\n' || c = some '\r'

def skipGaps (input : Input) : Input :=
  input.dropWhile isGap

def skipWord : List Char → Input → Except Fault Input
  | [], input => .ok input
  | _ :: _, [] => .error .unexpectedEnd
  | c :: cs, d :: input => if d = some c then skipWord cs input else .error .malformed

def isDigit (c : Option Char) : Bool :=
  c.any Char.isDigit

/-- The digits at the front of a text, and the text after them. -/
def splitDigits (input : Input) : List Char × Input :=
  ((input.takeWhile isDigit).filterMap id, input.dropWhile isDigit)

def missingDigit : Input → Fault
  | [] => .unexpectedEnd
  | _ => .malformed

/-- The digits before the point: a zero that no digit follows, or a run without leading zero. -/
def readWhole (input : Input) : Except Fault (List Char × Input) :=
  match splitDigits input with
  | ([], rest) => .error (missingDigit rest)
  | (c :: cs, rest) => if c = '0' ∧ cs ≠ [] then .error .malformed else .ok (c :: cs, rest)

/-- The digits after the point, if there is one. -/
def readFraction : Input → Except Fault (Option (List Char) × Input)
  | some '.' :: input =>
      match splitDigits input with
      | ([], rest) => .error (missingDigit rest)
      | (digits, rest) => .ok (some digits, rest)
  | input => .ok (none, input)

/-- The sign of an exponent, and the text after it. -/
def splitExponentSign : Input → Bool × Input
  | some '+' :: input => (false, input)
  | some '-' :: input => (true, input)
  | input => (false, input)

/-- The exponent, if there is one. -/
def readExponent : Input → Except Fault (Option Int × Input)
  | [] => .ok (none, [])
  | c :: input =>
      if c = some 'e' ∨ c = some 'E' then
        let (negative, body) := splitExponentSign input
        match splitDigits body with
        | ([], rest) => .error (missingDigit rest)
        | (digits, rest) =>
            let value : Int := numeralValue digits
            .ok (some (if negative then -value else value), rest)
      else
        .ok (none, c :: input)

/-- A number continued by digits as long as it fits into 64 bits, and how many digits are left. -/
def extendWord (value : Nat) : List Char → Nat × Nat
  | [] => (value, 0)
  | c :: cs =>
      if value * 10 + digitValue c < wordLimit then extendWord (value * 10 + digitValue c) cs
      else (value, cs.length + 1)

/-- The value `significand · 10 ^ exponent`, each factor in double precision, is infinite. -/
def isOutOfRange (significand : Nat) (exponent : Int) : Bool :=
  significand ≠ 0 && 0 ≤ exponent &&
    (308 < exponent ||
      (Binary64.mul (Binary64.ofDecimal false significand 0)
        (Binary64.ofDecimal false 1 exponent)).isInfinite)

/-- A number at the front of a text: its value if it is a natural number below 2⁶⁴ written in
digits alone. -/
def readNumber (input : Input) : Except Fault (Option Nat × Input) := do
  let (negative, body) :=
    match input with
    | some '-' :: rest => (true, rest)
    | _ => (false, input)
  let (whole, afterWhole) ← readWhole body
  let (fraction, afterFraction) ← readFraction afterWhole
  let (exponent, rest) ← readExponent afterFraction
  let (value, excess) := extendWord 0 whole
  if fraction = none ∧ exponent = none ∧ excess = 0 then
    .ok (if negative then none else some value, rest)
  else
    let digits := fraction.getD []
    let (significand, left) := extendWord value digits
    let scale : Int := excess - (digits.length - left : Nat) + exponent.getD 0
    if isOutOfRange significand scale then .error .malformed else .ok (none, rest)

end Json
end FormulaSheet
