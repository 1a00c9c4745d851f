import FormulaSheet.Expression.Token
import FormulaSheet.Formula.Error
import FormulaSheet.Binary64.Arithmetic
import FormulaSheet.Binary64.Literal

/-!
# Evaluation of numeric expressions

Tokens are taken from left to right onto two stacks, one of operands and one of operators and
open parentheses that wait. An operator is applied as soon as one that binds no more tightly
follows it, or its parenthesis closes, or the text ends. There is no unary sign.

The evaluation is stated for any `Interpretation` of literals and operators; `evaluate` is that
of double precision numbers.
-/

namespace FormulaSheet
namespace Expression

/-- What literals and operators mean on values of some kind. -/
structure Interpretation (α : Type) where
  /-- The value of a run of digits and points, if it denotes one. -/
  literal : List Char → Option α
  /-- The value of an operator on two values. -/
  apply : Operator → α → α → α
  /-- A value by which nothing can be divided. -/
  isZero : α → Bool

/-- An entry of the operator stack. -/
inductive Pending
  | operator (op : Operator)
  | openParen
  deriving DecidableEq

/-- The two stacks, top first. -/
structure Stacks (α : Type) where
  operands : List α := []
  operators : List Pending := []

variable {α : Type} (I : Interpretation α)

def applyOperator (op : Operator) : List α → Except EvalError (List α)
  | b :: a :: rest =>
      if op = .div ∧ I.isZero b = true then .error .divisionByZero
      else .ok (I.apply op a b :: rest)
  | _ => .error (.invalidExpression .missingOperand)

/-- Apply the waiting operators that bind at least as tightly as a precedence. -/
def reduce (precedence : Nat) : List α → List Pending → Except EvalError (Stacks α)
  | operands, .operator op :: rest =>
      if precedence ≤ op.precedence then do
        reduce precedence (← applyOperator I op operands) rest
      else
        .ok ⟨operands, .operator op :: rest⟩
  | operands, operators => .ok ⟨operands, operators⟩

/-- Apply the waiting operators down to the open parenthesis, and drop it. -/
def closeGroup : List α → List Pending → Except EvalError (Stacks α)
  | operands, .operator op :: rest => do closeGroup (← applyOperator I op operands) rest
  | operands, .openParen :: rest => .ok ⟨operands, rest⟩
  | _, [] => .error .mismatchedParentheses

/-- Apply all waiting operators; an open parenthesis among them was never closed. -/
def finish : List α → List Pending → Except EvalError (List α)
  | operands, .operator op :: rest => do finish (← applyOperator I op operands) rest
  | _, .openParen :: _ => .error .mismatchedParentheses
  | operands, [] => .ok operands

def step (s : Stacks α) : Token → Except EvalError (Stacks α)
  | .number literal =>
      match I.literal literal with
      | some value => .ok { s with operands := value :: s.operands }
      | none => .error (.invalidExpression (.malformedNumber literal))
  | .operator op => do
      let reduced ← reduce I op.precedence s.operands s.operators
      .ok { reduced with operators := .operator op :: reduced.operators }
  | .openParen => .ok { s with operators := .openParen :: s.operators }
  | .closeParen => closeGroup I s.operands s.operators
  | .stray c => .error (.invalidExpression (.invalidCharacter c))

def run (s : Stacks α) : List Token → Except EvalError (Stacks α)
  | [] => .ok s
  | token :: rest => do run (← step I s token) rest

def onlyOperand : List α → Except EvalError α
  | [value] => .ok value
  | [] => .error (.invalidExpression .noOperands)
  | _ => .error (.invalidExpression .tooManyOperands)

def evaluateTokens (tokens : List Token) : Except EvalError α := do
  let s ← run I {} tokens
  onlyOperand (← finish I s.operands s.operators)

def evaluateWith (expression : List Char) : Except EvalError α :=
  if isExpressionText expression then evaluateTokens I (tokens expression)
  else .error (.invalidExpression .invalidCharacters)

def applyBinary64 : Operator → Binary64 → Binary64 → Binary64
  | .add => Binary64.add
  | .sub => Binary64.sub
  | .mul => Binary64.mul
  | .div => Binary64.div

def binary64 : Interpretation Binary64 where
  literal := Binary64.parse?
  apply := applyBinary64
  isZero := Binary64.isZero

def evaluate (expression : List Char) : Except EvalError Binary64 :=
  evaluateWith binary64 expression

end Expression
end FormulaSheet
