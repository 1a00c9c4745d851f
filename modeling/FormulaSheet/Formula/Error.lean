/-!
# Why a formula has no value

The causes for which the evaluation of a formula fails, their wording, and the distinction
between causes that concern one formula and causes that concern the whole chain of references.
-/

namespace FormulaSheet

/-- What is wrong with a numeric expression. -/
inductive Malformation
  /-- The text is empty or holds a character that no expression holds. -/
  | invalidCharacters
  /-- White space that may not stand between tokens, named by the first byte of its encoding. -/
  | invalidCharacter (c : Char)
  /-- A run of digits and points that denotes no number. -/
  | malformedNumber (literal : List Char)
  /-- An operator has fewer than two operands. -/
  | missingOperand
  /-- The expression has no number. -/
  | noOperands
  /-- Numbers are left that no operator joins. -/
  | tooManyOperands
  /-- The value has no decimal numeral. -/
  | notFinite
  deriving DecidableEq

/-- Why a formula has no value. -/
inductive EvalError
  | emptyCell
  | notAFormula
  | circularReference
  | invalidExpression (reason : Malformation)
  | mismatchedParentheses
  | divisionByZero
  | maxDepthExceeded (limit : Nat)
  deriving DecidableEq

def Malformation.message : Malformation → String
  | .invalidCharacters => "expression contains invalid characters"
  | .invalidCharacter c => "invalid character '" ++ String.singleton c ++ "'"
  | .malformedNumber literal => "malformed number '" ++ String.ofList literal ++ "'"
  | .missingOperand => "missing operand"
  | .noOperands => "no operands"
  | .tooManyOperands => "too many operands"
  | .notFinite => "result is not a finite number"

namespace EvalError

def message : EvalError → String
  | .emptyCell => "cell is empty"
  | .notAFormula => "not a formula"
  | .circularReference => "circular reference detected"
  | .invalidExpression reason => "invalid expression: " ++ reason.message
  | .mismatchedParentheses => "mismatched parentheses"
  | .divisionByZero => "division by zero"
  | .maxDepthExceeded limit =>
      "reference chain deeper than " ++ toString limit ++ " formulas"

/-- The error fails every formula on the chain of references that leads to it; any other error
only makes the reference that met it count as zero. -/
def isStructural : EvalError → Bool
  | .circularReference => true
  | .maxDepthExceeded _ => true
  | _ => false

end EvalError

end FormulaSheet
