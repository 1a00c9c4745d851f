import Mathlib
import FormulaSheet.Proofs.Binary64.Literal
import FormulaSheet.Proofs.Expression.Stacks

/-!
# Trees of expressions

What an infix expression means is said by its tree, whose value is computed node by node. The
tokens of a tree need parentheses only where precedence and association to the left do not tell
the operands of an operator, and may have more of them. The scan over two stacks computes the value
of the tree, whatever the literals and the operators mean, and with the error of the tree if there
is one: it applies the operators in the order in which the nodes of the tree are left.

* `Tree.value`: the value of a tree.
* `Writes`: the tokens of a tree.
* `run_writes`: what the scan of such tokens does to the stacks.
* `evaluateTokens_of_writes`: the scan computes the value of the tree.
* `exists_writes_of_isInfix`: every infix expression is written for a tree.
-/

namespace FormulaSheet
namespace Expression

/-- What an expression says, without the parentheses. -/
inductive Tree
  | literal (run : List Char)
  | binary (op : Operator) (left right : Tree)
  deriving DecidableEq

section Values

variable {α : Type} (I : Interpretation α)

def literalValue (run : List Char) : Except EvalError α :=
  match I.literal run with
  | some value => .ok value
  | none => .error (.invalidExpression (.malformedNumber run))

/-- The value of an operator, unless it divides by zero. -/
def operatorValue (op : Operator) (a b : α) : Except EvalError α :=
  if op = .div ∧ I.isZero b = true then .error .divisionByZero else .ok (I.apply op a b)

namespace Tree

/-- The value of a tree, computed node by node. -/
def value : Tree → Except EvalError α
  | .literal run => literalValue I run
  | .binary op left right => do
      let a ← left.value
      let b ← right.value
      operatorValue I op a b

/-- The evaluation of a tree, node by node, meets a divisor that is zero. -/
def DividesByZero : Tree → Prop
  | .literal _ => False
  | .binary op left right =>
      left.DividesByZero ∨ right.DividesByZero ∨
        op = .div ∧ ∃ divisor, right.value I = .ok divisor ∧ I.isZero divisor = true

end Tree

end Values

/-- The tokens of a tree, where an operator that binds less tightly than a precedence stands in
parentheses. The left operand of an operator may end in one that binds as tightly, the right one
may not; parentheses may stand around any subtree. -/
inductive Writes : (precedence : Nat) → Tree → List Token → Prop
  | literal {precedence : Nat} {run : List Char} (h : IsNumeral run) :
      Writes precedence (.literal run) [.number run]
  | group {precedence : Nat} {tree : Tree} {tokens : List Token} (h : Writes 0 tree tokens) :
      Writes precedence tree (.openParen :: (tokens ++ [.closeParen]))
  | binary {precedence : Nat} {op : Operator} {left right : Tree} {before behind : List Token}
      (hop : precedence ≤ op.precedence)
      (hleft : Writes op.precedence left before)
      (hright : Writes (op.precedence + 1) right behind) :
      Writes precedence (.binary op left right) (before ++ .operator op :: behind)

section Scan

variable {α : Type} {I : Interpretation α}

theorem run_append (s : Stacks α) (before behind : List Token) :
    run I s (before ++ behind) = run I s before >>= fun s => run I s behind := by
  induction before generalizing s with
  | nil => rfl
  | cons token rest ih => simp only [List.cons_append, run, ih, bind_assoc]

/-- The stacks with the operators applied that bind at least as tightly as a precedence. -/
def settle (I : Interpretation α) (precedence : Nat) (s : Stacks α) :
    Except EvalError (Stacks α) :=
  reduce I precedence s.operands s.operators

/-- The operator that waits on top, if there is one, binds less tightly than a precedence. -/
def Waits (precedence : Nat) : List Pending → Prop
  | .operator op :: _ => op.precedence < precedence
  | _ => True

theorem Waits.mono {precedence higher : Nat} {operators : List Pending}
    (h : Waits precedence operators) (hle : precedence ≤ higher) : Waits higher operators := by
  cases operators with
  | nil => trivial
  | cons pending rest =>
      cases pending with
      | openParen => trivial
      | operator op => exact Nat.lt_of_lt_of_le h hle

theorem settle_of_waits {precedence : Nat} {operators : List Pending}
    (h : Waits precedence operators) (operands : List α) :
    settle I precedence ⟨operands, operators⟩ = .ok ⟨operands, operators⟩ := by
  cases operators with
  | nil => rfl
  | cons pending rest =>
      cases pending with
      | openParen => rfl
      | operator op => exact if_neg (Nat.not_le.mpr h)

theorem settle_operator {precedence : Nat} {op : Operator} (h : precedence ≤ op.precedence)
    (operands : List α) (rest : List Pending) :
    settle I precedence ⟨operands, .operator op :: rest⟩ =
      applyOperator I op operands >>= fun operands => settle I precedence ⟨operands, rest⟩ :=
  if_pos h

/-- Operators that bind more tightly may be applied first. -/
theorem settle_settle {precedence higher : Nat} (h : precedence ≤ higher) (s : Stacks α) :
    settle I higher s >>= settle I precedence = settle I precedence s := by
  obtain ⟨operands, operators⟩ := s
  induction operators generalizing operands with
  | nil => rfl
  | cons pending rest ih =>
      cases pending with
      | openParen => rfl
      | operator op =>
          by_cases hop : higher ≤ op.precedence
          · rw [settle_operator hop, settle_operator (h.trans hop), bind_assoc]
            simp only [ih]
          · have hwaits : Waits higher (.operator op :: rest) := Nat.not_le.mp hop
            rw [settle_of_waits hwaits]
            rfl

/-- Closing a parenthesis begins with the application of the operators in it. -/
theorem closeGroup_eq (operands : List α) (operators : List Pending) :
    closeGroup I operands operators =
      settle I 0 ⟨operands, operators⟩ >>= fun s => closeGroup I s.operands s.operators := by
  induction operators generalizing operands with
  | nil => rfl
  | cons pending rest ih =>
      cases pending with
      | openParen => rfl
      | operator op =>
          rw [settle_operator (Nat.zero_le _), bind_assoc, closeGroup]
          simp only [← ih]

theorem finish_eq (operands : List α) (operators : List Pending) :
    finish I operands operators =
      settle I 0 ⟨operands, operators⟩ >>= fun s => finish I s.operands s.operators := by
  induction operators generalizing operands with
  | nil => rfl
  | cons pending rest ih =>
      cases pending with
      | openParen => rfl
      | operator op =>
          rw [settle_operator (Nat.zero_le _), bind_assoc, finish]
          simp only [← ih]

theorem applyOperator_eq (op : Operator) (a b : α) (operands : List α) :
    applyOperator I op (b :: a :: operands) =
      operatorValue I op a b >>= fun value => .ok (value :: operands) := by
  show (if op = .div ∧ I.isZero b = true then .error .divisionByZero
    else .ok (I.apply op a b :: operands) : Except EvalError (List α)) = _
  unfold operatorValue
  split <;> rfl

section Steps

variable (s : Stacks α)

theorem run_number (literal : List Char) :
    run I s [.number literal] =
      literalValue I literal >>= fun value => .ok ⟨value :: s.operands, s.operators⟩ := by
  simp only [run, step, literalValue]
  cases I.literal literal <;> rfl

theorem run_operator (op : Operator) (behind : List Token) :
    run I s (.operator op :: behind) =
      settle I op.precedence s >>= fun s =>
        run I ⟨s.operands, .operator op :: s.operators⟩ behind := by
  rw [run, step, bind_assoc]
  rfl

theorem run_closeParen :
    run I s [.closeParen] = settle I 0 s >>= fun s => closeGroup I s.operands s.operators := by
  rw [← closeGroup_eq, run, step]
  cases closeGroup I s.operands s.operators <;> rfl

end Steps

/-- The scan of the tokens of a tree, with the operators applied that bind as tightly as its place
asks for, puts the value of the tree on the stack of operands and changes nothing else. -/
theorem run_writes {precedence : Nat} {tree : Tree} {tokens : List Token}
    (h : Writes precedence tree tokens) (operands : List α) {operators : List Pending}
    (hwaits : Waits precedence operators) :
    run I ⟨operands, operators⟩ tokens >>= settle I precedence =
      tree.value I >>= fun value => .ok ⟨value :: operands, operators⟩ := by
  induction h generalizing operands operators with
  | @literal precedence literal _ =>
      rw [run_number, bind_assoc]
      refine congrArg _ (funext fun value => ?_)
      exact settle_of_waits hwaits _
  | @group precedence tree tokens _ ih =>
      have hinner := @ih operands (.openParen :: operators) trivial
      calc run I ⟨operands, operators⟩ (.openParen :: (tokens ++ [.closeParen])) >>=
              settle I precedence
          = run I ⟨operands, .openParen :: operators⟩ (tokens ++ [.closeParen]) >>=
              settle I precedence := rfl
        _ = (run I ⟨operands, .openParen :: operators⟩ tokens >>= settle I 0) >>= fun s =>
              closeGroup I s.operands s.operators >>= settle I precedence := by
            simp only [run_append, run_closeParen, bind_assoc]
        _ = tree.value I >>= fun value => settle I precedence ⟨value :: operands, operators⟩ := by
            rw [hinner, bind_assoc]
            rfl
        _ = tree.value I >>= fun value => .ok ⟨value :: operands, operators⟩ := by
            simp only [settle_of_waits hwaits]
  | @binary precedence op left right before behind hop _ _ ihleft ihright =>
      have hleft := ihleft operands (hwaits.mono hop)
      have hright : ∀ a, run I ⟨a :: operands, .operator op :: operators⟩ behind >>=
          settle I precedence =
            right.value I >>= fun b => operatorValue I op a b >>= fun value =>
              .ok ⟨value :: operands, operators⟩ := by
        intro a
        have hbehind := @ihright (a :: operands) (.operator op :: operators) (Nat.lt_succ_self _)
        calc run I ⟨a :: operands, .operator op :: operators⟩ behind >>= settle I precedence
            = (run I ⟨a :: operands, .operator op :: operators⟩ behind >>=
                settle I (op.precedence + 1)) >>= settle I precedence := by
              simp only [bind_assoc, settle_settle (hop.trans (Nat.le_succ _))]
          _ = right.value I >>= fun b =>
                settle I precedence ⟨b :: a :: operands, .operator op :: operators⟩ := by
              rw [hbehind, bind_assoc]
              rfl
          _ = right.value I >>= fun b => operatorValue I op a b >>= fun value =>
                settle I precedence ⟨value :: operands, operators⟩ := by
              simp only [settle_operator hop, applyOperator_eq, bind_assoc]
              rfl
          _ = right.value I >>= fun b => operatorValue I op a b >>= fun value =>
                .ok ⟨value :: operands, operators⟩ := by
              simp only [settle_of_waits hwaits]
      calc run I ⟨operands, operators⟩ (before ++ .operator op :: behind) >>= settle I precedence
          = (run I ⟨operands, operators⟩ before >>= settle I op.precedence) >>= fun s =>
              run I ⟨s.operands, .operator op :: s.operators⟩ behind >>= settle I precedence := by
            simp only [run_append, run_operator, bind_assoc]
        _ = left.value I >>= fun a =>
              run I ⟨a :: operands, .operator op :: operators⟩ behind >>= settle I precedence := by
            rw [hleft, bind_assoc]
            rfl
        _ = (Tree.binary op left right).value I >>= fun value =>
              .ok ⟨value :: operands, operators⟩ := by
            simp only [hright, Tree.value, bind_assoc]

/-- The scan of the tokens of a tree gives the value of the tree, or its error. -/
theorem evaluateTokens_of_writes {tree : Tree} {tokens : List Token} (h : Writes 0 tree tokens) :
    evaluateTokens I tokens = tree.value I := by
  have hfinish : ∀ s : Stacks α, (finish I s.operands s.operators >>= onlyOperand) =
      settle I 0 s >>= fun s => finish I s.operands s.operators >>= onlyOperand := by
    intro s
    rw [finish_eq, bind_assoc]
  have hrun : run I ⟨[], []⟩ tokens >>= settle I 0 = _ := run_writes h [] trivial
  calc evaluateTokens I tokens
      = run I ⟨[], []⟩ tokens >>= fun s => finish I s.operands s.operators >>= onlyOperand := rfl
    _ = (run I ⟨[], []⟩ tokens >>= settle I 0) >>= fun s =>
          finish I s.operands s.operators >>= onlyOperand :=
        (congrArg _ (funext hfinish)).trans (bind_assoc _ _ _).symm
    _ = tree.value I := by
        rw [hrun, bind_assoc]
        cases tree.value I <;> rfl

/-- Every numeral denotes a value. -/
def Interpretation.ReadsNumerals (I : Interpretation α) : Prop :=
  ∀ run, IsNumeral run → (I.literal run).isSome = true

/-- The only thing that can be wrong with a tree of numerals is a divisor that is zero. -/
theorem value_cases (hI : I.ReadsNumerals) {precedence : Nat} {tree : Tree} {tokens : List Token}
    (h : Writes precedence tree tokens) :
    tree.DividesByZero I ∧ tree.value I = .error .divisionByZero ∨
      ¬ tree.DividesByZero I ∧ ∃ value, tree.value I = .ok value := by
  induction h with
  | @literal _ run hrun =>
      obtain ⟨value, hvalue⟩ := Option.isSome_iff_exists.mp (hI run hrun)
      exact Or.inr ⟨id, value, by simp [Tree.value, literalValue, hvalue]⟩
  | group _ ih => exact ih
  | @binary _ op left right _ _ _ _ _ ihleft ihright =>
      unfold Tree.value Tree.DividesByZero
      rcases ihleft with ⟨hzero, herror⟩ | ⟨hleft, a, ha⟩
      · exact Or.inl ⟨Or.inl hzero, by rw [herror]; rfl⟩
      · rcases ihright with ⟨hzero, herror⟩ | ⟨hright, b, hb⟩
        · exact Or.inl ⟨Or.inr (Or.inl hzero), by rw [ha, herror]; rfl⟩
        · rw [ha, hb]
          by_cases hdivision : op = .div ∧ I.isZero b = true
          · refine Or.inl ⟨Or.inr (Or.inr ⟨hdivision.1, b, rfl, hdivision.2⟩), ?_⟩
            exact if_pos hdivision
          · refine Or.inr ⟨?_, I.apply op a b, if_neg hdivision⟩
            rintro (hzero | hzero | ⟨hop, divisor, heq, hdivisor⟩)
            · exact hleft hzero
            · exact hright hzero
            · cases heq
              exact hdivision ⟨hop, hdivisor⟩

end Scan

section Parsing

theorem Operator.precedence_cases (op : Operator) : op.precedence = 1 ∨ op.precedence = 2 := by
  cases op <;> simp [Operator.precedence]

/-- An operator behind a tree, with a right operand that needs no parentheses. If it binds more
tightly than the last operator of the tree, it takes only the right operand of that. -/
theorem exists_writes_operator {left right : Tree} {before behind : List Token} {op : Operator}
    (hleft : Writes 1 left before) (hright : Writes (op.precedence + 1) right behind) :
    ∃ tree, Writes 1 tree (before ++ .operator op :: behind) := by
  rcases op.precedence_cases with hop | hop
  · exact ⟨_, .binary hop.ge (hop ▸ hleft) hright⟩
  · cases hleft with
    | literal hrun => exact ⟨_, .binary (by omega) (.literal hrun) hright⟩
    | group hinner => exact ⟨_, .binary (by omega) (.group hinner) hright⟩
    | @binary _ outer first last before middle _ hfirst hlast =>
        rcases outer.precedence_cases with houter | houter
        · have hnext : outer.precedence + 1 = op.precedence := by omega
          rw [hnext] at hlast
          have hinner : Writes (outer.precedence + 1) (.binary op last right)
              (middle ++ .operator op :: behind) := .binary (by omega) hlast hright
          have hwhole := Writes.binary houter.ge hfirst hinner
          exact ⟨_, by simpa using hwhole⟩
        · have hinner : Writes op.precedence (.binary outer first last)
              (before ++ .operator outer :: middle) := .binary (by omega) hfirst hlast
          exact ⟨_, .binary (by omega) hinner hright⟩

/-- The same for a right operand with operators of its own, which follow one after the other. -/
theorem exists_writes_append {left right : Tree} {before behind : List Token} (op : Operator)
    {precedence : Nat} (hleft : Writes 1 left before) (hright : Writes precedence right behind) :
    ∃ tree, Writes 1 tree (before ++ .operator op :: behind) := by
  induction hright generalizing op with
  | literal hrun => exact exists_writes_operator hleft (.literal hrun)
  | group hinner _ => exact exists_writes_operator hleft (.group hinner)
  | @binary _ inner _ _ middle behind _ _ hlast ih _ =>
      obtain ⟨tree, htree⟩ := ih op
      obtain ⟨whole, hwhole⟩ := exists_writes_operator htree hlast
      exact ⟨whole, by simpa using hwhole⟩

theorem writes_zero_of_writes {precedence : Nat} {tree : Tree} {tokens : List Token}
    (h : Writes precedence tree tokens) : Writes 0 tree tokens := by
  cases h with
  | literal hrun => exact .literal hrun
  | group hinner => exact .group hinner
  | binary _ hleft hright => exact .binary (Nat.zero_le _) hleft hright

theorem Token.role_eq_operand_iff {token : Token} :
    token.role = .operand ↔ ∃ run, token = .number run := by
  cases token <;> simp [Token.role]

theorem Token.role_eq_operator_iff {token : Token} :
    token.role = .operator ↔ ∃ op, token = .operator op := by
  cases token <;> simp [Token.role]

theorem Token.role_eq_openParen_iff {token : Token} :
    token.role = .openParen ↔ token = .openParen := by
  cases token <;> simp [Token.role]

theorem Token.role_eq_closeParen_iff {token : Token} :
    token.role = .closeParen ↔ token = .closeParen := by
  cases token <;> simp [Token.role]

/-- Every infix expression of numerals is written for a tree. -/
theorem exists_writes_of_isInfix {roles : List Role} (h : IsInfix roles) {tokens : List Token}
    (htokens : tokens.map Token.role = roles)
    (hnumerals : ∀ run, .number run ∈ tokens → IsNumeral run) :
    ∃ tree, Writes 1 tree tokens := by
  induction h generalizing tokens with
  | operand =>
      obtain ⟨token, rfl, hrole⟩ := List.map_eq_singleton_iff.mp htokens
      obtain ⟨run, rfl⟩ := Token.role_eq_operand_iff.mp hrole
      exact ⟨_, .literal (hnumerals run List.mem_cons_self)⟩
  | group _ ih =>
      obtain ⟨opening, rest, rfl, hopening, hrest⟩ := List.map_eq_cons_iff.mp htokens
      obtain ⟨inner, last, rfl, hinner, hlast⟩ := List.map_eq_append_iff.mp hrest
      obtain ⟨closing, rfl, hclosing⟩ := List.map_eq_singleton_iff.mp hlast
      rw [Token.role_eq_openParen_iff.mp hopening, Token.role_eq_closeParen_iff.mp hclosing]
      obtain ⟨tree, htree⟩ := ih hinner fun run hrun => hnumerals run (by simp [hrun])
      exact ⟨tree, .group (writes_zero_of_writes htree)⟩
  | binary _ _ ihleft ihright =>
      obtain ⟨before, rest, rfl, hbefore, hrest⟩ := List.map_eq_append_iff.mp htokens
      obtain ⟨operator, behind, rfl, hoperator, hbehind⟩ := List.map_eq_cons_iff.mp hrest
      obtain ⟨op, rfl⟩ := Token.role_eq_operator_iff.mp hoperator
      obtain ⟨left, hleft⟩ := ihleft hbefore fun run hrun => hnumerals run (by simp [hrun])
      obtain ⟨right, hright⟩ := ihright hbehind fun run hrun => hnumerals run (by simp [hrun])
      exact exists_writes_append op hleft hright

end Parsing

end Expression
end FormulaSheet
