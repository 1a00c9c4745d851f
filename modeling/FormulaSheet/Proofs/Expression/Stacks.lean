import Mathlib
import FormulaSheet.Expression.Evaluation
import FormulaSheet.Proofs.Except
import FormulaSheet.Proofs.Expression.Infix

/-!
# What the two stacks count

The scan of an expression never asks whether an operand or an operator is due. What it keeps is
this: the operands on the stack less the operators that wait are as many as operands less
operators have been read, and the open parentheses that wait are those that have not been closed.

* `Stacks.surplus`, `Stacks.depth`: the two counts.
* `step_eq_ok`, `run_eq_ok`: what a token and a run of tokens add to them.
* `evaluateTokens_eq_ok`: what is known of tokens that have a value.
-/

namespace FormulaSheet
namespace Expression

def Token.role : Token → Role
  | .number _ => .operand
  | .operator _ => .operator
  | .openParen => .openParen
  | .closeParen => .closeParen
  | .stray _ => .foreign

section Counts

def Pending.isOperator : Pending → Bool
  | .operator _ => true
  | .openParen => false

/-- The operators that wait. -/
def waitingOperators (operators : List Pending) : Nat :=
  operators.countP Pending.isOperator

/-- The open parentheses that wait. -/
def openParens (operators : List Pending) : Nat :=
  operators.countP fun pending => !pending.isOperator

@[simp] theorem waitingOperators_nil : waitingOperators [] = 0 := rfl

@[simp] theorem waitingOperators_operator (op : Operator) (rest : List Pending) :
    waitingOperators (.operator op :: rest) = waitingOperators rest + 1 := by
  simp [waitingOperators, List.countP_cons, Pending.isOperator]

@[simp] theorem waitingOperators_openParen (rest : List Pending) :
    waitingOperators (.openParen :: rest) = waitingOperators rest := by
  simp [waitingOperators, Pending.isOperator]

@[simp] theorem openParens_nil : openParens [] = 0 := rfl

@[simp] theorem openParens_operator (op : Operator) (rest : List Pending) :
    openParens (.operator op :: rest) = openParens rest := by
  simp [openParens, Pending.isOperator]

@[simp] theorem openParens_openParen (rest : List Pending) :
    openParens (.openParen :: rest) = openParens rest + 1 := by
  simp [openParens, Pending.isOperator]

end Counts

section Scan

variable {α : Type} {I : Interpretation α}

/-- The operands on the stack less the operators that wait. -/
def Stacks.surplus (s : Stacks α) : Int :=
  s.operands.length - waitingOperators s.operators

def Stacks.depth (s : Stacks α) : Nat :=
  openParens s.operators

/-- The token is no stray character, and no number without a value. -/
def Token.IsLegal (I : Interpretation α) : Token → Prop
  | .number literal => (I.literal literal).isSome = true
  | .stray _ => False
  | _ => True

theorem role_ne_foreign_of_isLegal {token : Token} (h : token.IsLegal I) :
    token.role ≠ .foreign := by
  cases token with
  | stray c => exact h.elim
  | number literal => simp [Token.role]
  | operator op => simp [Token.role]
  | openParen => simp [Token.role]
  | closeParen => simp [Token.role]

/-- An operator takes two operands and leaves one. -/
theorem length_of_applyOperator {op : Operator} {operands operands' : List α}
    (h : applyOperator I op operands = .ok operands') :
    operands.length = operands'.length + 1 := by
  unfold applyOperator at h
  split at h
  · split at h
    · cases h
    · cases h
      rfl
  · cases h

theorem reduce_eq_ok {precedence : Nat} {operands : List α} {operators : List Pending}
    {s : Stacks α} (h : reduce I precedence operands operators = .ok s) :
    s.surplus = operands.length - waitingOperators operators ∧ s.depth = openParens operators := by
  induction operators generalizing operands with
  | nil =>
      cases h
      exact ⟨rfl, rfl⟩
  | cons pending rest ih =>
      cases pending with
      | openParen =>
          cases h
          exact ⟨rfl, rfl⟩
      | operator op =>
          unfold reduce at h
          split at h
          · obtain ⟨operands', happly, hrest⟩ := exists_of_bind_eq_ok h
            have hlength := length_of_applyOperator happly
            obtain ⟨hsurplus, hdepth⟩ := ih hrest
            rw [waitingOperators_operator, openParens_operator]
            exact ⟨by omega, hdepth⟩
          · cases h
            exact ⟨rfl, rfl⟩

theorem closeGroup_eq_ok {operands : List α} {operators : List Pending} {s : Stacks α}
    (h : closeGroup I operands operators = .ok s) :
    s.surplus = operands.length - waitingOperators operators ∧
      s.depth + 1 = openParens operators := by
  induction operators generalizing operands with
  | nil => cases h
  | cons pending rest ih =>
      cases pending with
      | openParen =>
          cases h
          simp [Stacks.surplus, Stacks.depth]
      | operator op =>
          obtain ⟨operands', happly, hrest⟩ := exists_of_bind_eq_ok h
          have hlength := length_of_applyOperator happly
          obtain ⟨hsurplus, hdepth⟩ := ih hrest
          rw [waitingOperators_operator, openParens_operator]
          exact ⟨by omega, hdepth⟩

theorem finish_eq_ok {operands operands' : List α} {operators : List Pending}
    (h : finish I operands operators = .ok operands') :
    (operands'.length : Int) = operands.length - waitingOperators operators ∧
      openParens operators = 0 := by
  induction operators generalizing operands with
  | nil =>
      cases h
      simp
  | cons pending rest ih =>
      cases pending with
      | openParen => cases h
      | operator op =>
          obtain ⟨operands'', happly, hrest⟩ := exists_of_bind_eq_ok h
          have hlength := length_of_applyOperator happly
          obtain ⟨hsurplus, hdepth⟩ := ih hrest
          rw [waitingOperators_operator, openParens_operator]
          exact ⟨by omega, hdepth⟩

/-- A token that is taken is legal, and adds its own to the two counts. -/
theorem step_eq_ok {s s' : Stacks α} {token : Token} (h : step I s token = .ok s') :
    token.IsLegal I ∧ s'.surplus = s.surplus + token.role.surplus ∧
      ∀ rest, balanced s'.depth rest = balanced s.depth (token.role :: rest) := by
  cases token with
  | number literal =>
      cases hvalue : I.literal literal with
      | none => simp [step, hvalue] at h
      | some value =>
          have hs : s' = { s with operands := value :: s.operands } := by
            simpa [step, hvalue] using h.symm
          subst hs
          refine ⟨by simp [Token.IsLegal, hvalue], ?_, fun rest => rfl⟩
          simp only [Stacks.surplus, List.length_cons, Token.role, Role.surplus]
          omega
  | operator op =>
      obtain ⟨reduced, hreduce, hs⟩ := exists_of_bind_eq_ok h
      obtain ⟨hsurplus, hdepth⟩ := reduce_eq_ok hreduce
      cases hs
      refine ⟨trivial, ?_, fun rest => ?_⟩
      · simp only [Stacks.surplus, waitingOperators_operator, Token.role, Role.surplus]
          at hsurplus ⊢
        omega
      · simp only [Stacks.depth, openParens_operator] at hdepth ⊢
        rw [hdepth]
        rfl
  | openParen =>
      cases h
      refine ⟨trivial, ?_, fun rest => ?_⟩
      · simp [Stacks.surplus, Token.role, Role.surplus]
      · simp only [Stacks.depth, openParens_openParen, Token.role, balanced]
  | closeParen =>
      obtain ⟨hsurplus, hdepth⟩ := closeGroup_eq_ok h
      refine ⟨trivial, ?_, fun rest => ?_⟩
      · simp only [Token.role, Role.surplus, add_zero]
        exact hsurplus
      · rw [Stacks.depth.eq_1 s, ← hdepth]
        rfl
  | stray c => cases h

theorem run_eq_ok {s s' : Stacks α} {tokens : List Token} (h : run I s tokens = .ok s') :
    (∀ token ∈ tokens, token.IsLegal I) ∧
      s'.surplus = s.surplus + surplus (tokens.map Token.role) ∧
        ∀ rest, balanced s'.depth rest = balanced s.depth (tokens.map Token.role ++ rest) := by
  induction tokens generalizing s with
  | nil =>
      cases h
      simp
  | cons token rest ih =>
      obtain ⟨middle, hstep, hrun⟩ := exists_of_bind_eq_ok h
      obtain ⟨hlegal, hsurplus, hbalanced⟩ := step_eq_ok hstep
      obtain ⟨hrest, hsum, hcloses⟩ := ih hrun
      refine ⟨by simpa using ⟨hlegal, hrest⟩, ?_, fun later => ?_⟩
      · rw [List.map_cons, surplus_cons]
        omega
      · rw [hcloses, hbalanced, List.map_cons, List.cons_append]

theorem length_of_onlyOperand {operands : List α} {value : α}
    (h : onlyOperand operands = .ok value) : operands.length = 1 := by
  unfold onlyOperand at h
  split at h
  · rfl
  · cases h
  · cases h

/-- Tokens with a value are legal, have one more operand than operators, and have balanced
parentheses. -/
theorem evaluateTokens_eq_ok {tokens : List Token} {value : α}
    (h : evaluateTokens I tokens = .ok value) :
    (∀ token ∈ tokens, token.IsLegal I) ∧ surplus (tokens.map Token.role) = 1 ∧
      balanced 0 (tokens.map Token.role) = true := by
  obtain ⟨s, hrun, h⟩ := exists_of_bind_eq_ok h
  obtain ⟨operands, hfinish, hvalue⟩ := exists_of_bind_eq_ok h
  obtain ⟨hlegal, hsurplus, hbalanced⟩ := run_eq_ok hrun
  obtain ⟨hlength, hdepth⟩ := finish_eq_ok hfinish
  have hone := length_of_onlyOperand hvalue
  refine ⟨hlegal, ?_, ?_⟩
  · have hstart : (({} : Stacks α)).surplus = 0 := rfl
    rw [hstart, Stacks.surplus] at hsurplus
    omega
  · have hend := hbalanced []
    rw [Stacks.depth, hdepth, List.append_nil] at hend
    exact hend.symm

/-- A text with a value holds no foreign character, and its tokens have that value. -/
theorem evaluate_eq_ok {expression : List Char} {value : Binary64}
    (h : evaluate expression = .ok value) :
    isExpressionText expression = true ∧
      evaluateTokens binary64 (tokens expression) = .ok value := by
  unfold evaluate evaluateWith at h
  split at h
  · next htext => exact ⟨htext, h⟩
  · cases h

end Scan

end Expression
end FormulaSheet
