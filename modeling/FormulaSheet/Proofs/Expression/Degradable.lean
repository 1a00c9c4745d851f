import Mathlib.Logic.Basic
import FormulaSheet.Expression.Evaluation

/-!
# Errors of expressions

Whatever its tokens are, an expression has a value or fails with an error of its own kind, an
*arithmetic* one: other errors come from cells and references alone. An outcome is *degradable*
if it is a value or an error that only makes a reference count as zero, as all arithmetic errors
do.

* `FailsOnly`: the outcome is no error but one of some kind.
* `FailsArithmetically`: the outcome is no error but an arithmetic one.
* `EvalError.isOfStacks`: the errors that come from the two stacks, not from a token.
* `Expression.failsArithmetically_evaluateWith`: expressions have no other errors.
* `Degradable`: the outcome is no structural error.
-/

namespace FormulaSheet

section Outcomes

variable {α β : Type}

/-- The outcome is a value, or an error that only makes a reference count as zero. -/
def Degradable (result : Except EvalError α) : Prop :=
  ∀ error, result = .error error → error.isStructural = false

theorem degradable_ok (a : α) : Degradable (.ok a) := by
  intro error h
  cases h

theorem degradable_error_iff {error : EvalError} :
    Degradable (.error error : Except EvalError α) ↔ error.isStructural = false := by
  constructor
  · intro h
    exact h error rfl
  · intro h found hfound
    cases hfound
    exact h

instance : (result : Except EvalError α) → Decidable (Degradable result)
  | .ok a => isTrue (degradable_ok a)
  | .error _ => decidable_of_iff _ degradable_error_iff.symm

theorem not_degradable_iff {result : Except EvalError α} :
    ¬ Degradable result ↔ ∃ error, result = .error error ∧ error.isStructural = true := by
  simp only [Degradable, not_forall, Bool.not_eq_false, exists_prop]

/-- The error is one of a numeric expression, whatever the cells are that it comes from. -/
def EvalError.isArithmetic : EvalError → Bool
  | .invalidExpression _ => true
  | .mismatchedParentheses => true
  | .divisionByZero => true
  | _ => false

theorem EvalError.isStructural_of_isArithmetic {error : EvalError}
    (h : error.isArithmetic = true) : error.isStructural = false := by
  cases error <;> first | rfl | cases h

/-- The error tells that an operator cannot be applied, or a parenthesis has no other. -/
def EvalError.isOfStacks : EvalError → Bool
  | .invalidExpression .missingOperand => true
  | .mismatchedParentheses => true
  | .divisionByZero => true
  | _ => false

theorem EvalError.isArithmetic_of_isOfStacks {error : EvalError} (h : error.isOfStacks = true) :
    error.isArithmetic = true := by
  cases error <;> first | rfl | cases h

/-- The outcome is a value, or an error of some kind. -/
def FailsOnly (kind : EvalError → Bool) (result : Except EvalError α) : Prop :=
  ∀ error, result = .error error → kind error = true

/-- The outcome is a value, or an error of a numeric expression. -/
def FailsArithmetically (result : Except EvalError α) : Prop :=
  ∀ error, result = .error error → error.isArithmetic = true

variable {kind : EvalError → Bool}

theorem failsOnly_ok (a : α) : FailsOnly kind (.ok a) := nofun

theorem failsOnly_error {error : EvalError} (h : kind error = true) :
    FailsOnly kind (.error error : Except EvalError α) := by
  intro found hfound
  cases hfound
  exact h

theorem FailsOnly.bind {x : Except EvalError α} {f : α → Except EvalError β}
    (hx : FailsOnly kind x) (hf : ∀ a, FailsOnly kind (f a)) : FailsOnly kind (x >>= f) := by
  cases x with
  | error error => exact failsOnly_error (hx error rfl)
  | ok a => exact hf a

theorem FailsOnly.isArithmetic {result : Except EvalError α}
    (h : FailsOnly EvalError.isOfStacks result) : FailsOnly EvalError.isArithmetic result :=
  fun error herror => EvalError.isArithmetic_of_isOfStacks (h error herror)

end Outcomes

namespace Expression

variable {α : Type} (I : Interpretation α)

theorem failsOnly_applyOperator (op : Operator) (operands : List α) :
    FailsOnly EvalError.isOfStacks (applyOperator I op operands) := by
  unfold applyOperator
  split
  · split
    · exact failsOnly_error rfl
    · exact failsOnly_ok _
  · exact failsOnly_error rfl

theorem failsOnly_reduce (precedence : Nat) (operands : List α)
    (operators : List Pending) :
    FailsOnly EvalError.isOfStacks (reduce I precedence operands operators) := by
  induction operators generalizing operands with
  | nil => exact failsOnly_ok _
  | cons pending rest ih =>
      cases pending with
      | openParen => exact failsOnly_ok _
      | operator op =>
          unfold reduce
          split
          · exact (failsOnly_applyOperator I op operands).bind ih
          · exact failsOnly_ok _

theorem failsOnly_closeGroup (operands : List α) (operators : List Pending) :
    FailsOnly EvalError.isOfStacks (closeGroup I operands operators) := by
  induction operators generalizing operands with
  | nil => exact failsOnly_error rfl
  | cons pending rest ih =>
      cases pending with
      | openParen => exact failsOnly_ok _
      | operator op => exact (failsOnly_applyOperator I op operands).bind ih

theorem failsOnly_finish (operands : List α) (operators : List Pending) :
    FailsOnly EvalError.isOfStacks (finish I operands operators) := by
  induction operators generalizing operands with
  | nil => exact failsOnly_ok _
  | cons pending rest ih =>
      cases pending with
      | openParen => exact failsOnly_error rfl
      | operator op => exact (failsOnly_applyOperator I op operands).bind ih

/-- A token other than a number or a stray character fails for what is on the stacks only. -/
theorem failsOnly_step (s : Stacks α) {token : Token} (hnumber : ∀ literal, token ≠ .number literal)
    (hstray : ∀ c, token ≠ .stray c) : FailsOnly EvalError.isOfStacks (step I s token) := by
  cases token with
  | number literal => exact absurd rfl (hnumber literal)
  | operator op => exact (failsOnly_reduce I _ _ _).bind fun _ => failsOnly_ok _
  | openParen => exact failsOnly_ok _
  | closeParen => exact failsOnly_closeGroup I _ _
  | stray c => exact absurd rfl (hstray c)

theorem failsOnly_number (s : Stacks α) (literal : List Char) :
    FailsOnly (fun error => error = .invalidExpression (.malformedNumber literal))
      (step I s (.number literal)) := by
  simp only [step]
  cases I.literal literal with
  | some value => exact failsOnly_ok _
  | none => exact failsOnly_error (by simp)

theorem failsArithmetically_step (s : Stacks α) (token : Token) :
    FailsArithmetically (step I s token) := by
  cases token with
  | number literal =>
      intro error herror
      obtain rfl := of_decide_eq_true (failsOnly_number I s literal error herror)
      rfl
  | stray c => exact failsOnly_error rfl
  | operator op => exact (failsOnly_step I s (by simp) (by simp)).isArithmetic
  | openParen => exact (failsOnly_step I s (by simp) (by simp)).isArithmetic
  | closeParen => exact (failsOnly_step I s (by simp) (by simp)).isArithmetic

theorem failsArithmetically_run (s : Stacks α) (tokens : List Token) :
    FailsArithmetically (run I s tokens) := by
  induction tokens generalizing s with
  | nil => exact failsOnly_ok _
  | cons token rest ih => exact FailsOnly.bind (failsArithmetically_step I s token) ih

theorem failsArithmetically_onlyOperand (operands : List α) :
    FailsArithmetically (onlyOperand operands) := by
  unfold onlyOperand
  split
  · exact failsOnly_ok _
  · exact failsOnly_error rfl
  · exact failsOnly_error rfl

/-- Under every interpretation, an expression has a value or an arithmetic error. -/
theorem failsArithmetically_evaluateWith (expression : List Char) :
    FailsArithmetically (evaluateWith I expression) := by
  unfold evaluateWith
  split
  · exact FailsOnly.bind (failsArithmetically_run I _ _) fun _ =>
      (failsOnly_finish I _ _).isArithmetic.bind failsArithmetically_onlyOperand
  · exact failsOnly_error rfl

end Expression

end FormulaSheet
