import Mathlib
import FormulaSheet.Expression.Evaluation

/-!
# The scan, one turn at a time

The scan of an expression is a loop over its tokens with three loops inside it: one that makes room
for an operator, one that closes a group, and one that applies what waits at the end. All of them
apply the operator on top of the stack, turn by turn, until they are through. Here the loops are
taken apart into these turns, with a count of the literals that have been read and one of the
operators that have been applied.

* `applyTop`: applying what is on top of any stacks, also where nothing can be applied.
* `Point`, `Point.turn`: where the scan stands between two turns, and the turn that is next.
* `Point.Follows`: what a turn can do to a point.
* `answers_of_reaches`: wherever the turns have come to, they end in the answer of the scan.
-/

namespace FormulaSheet
namespace Expression

/-- An open parenthesis binds less tightly than every operator. -/
def Pending.precedence : Pending → Nat
  | .operator op => op.precedence
  | .openParen => 0

/-- Why the turns end without a value. -/
inductive Halt
  | error (error : EvalError)
  /-- Something is to be applied, and nothing waits. -/
  | missingOperator
  /-- An open parenthesis is to be applied to operands. -/
  | parenApplied

/-- The loop in which the scan is. -/
inductive Loop
  | reading
  /-- Making room on the stack for an operator that has been read. -/
  | reducing (op : Operator)
  | closing
  | finishing

/-- Where the scan stands between two turns. -/
structure Point (α : Type) where
  held : Stacks α := {}
  loop : Loop := .reading
  /-- The tokens that are still to be read. -/
  rest : List Token
  /-- How many literals have been read. -/
  literals : Nat := 0
  /-- How many operators have been applied. -/
  applied : Nat := 0

/-- What a turn leads to. -/
inductive Turn (α : Type)
  | point (point : Point α)
  | value (value : α)
  | halt (halt : Halt)

def Token.literal? : Token → Option (List Char)
  | .number literal => some literal
  | _ => none

section Turns

variable {α : Type} (I : Interpretation α)

def Turn.ofExcept : Except EvalError α → Turn α
  | .ok result => .value result
  | .error error => .halt (.error error)

/-- The value of what is on top of the operators for the two operands on top. -/
def combine : Pending → α → α → Except Halt α
  | .operator op, a, b =>
      if op = .div ∧ I.isZero b = true then .error (.error .divisionByZero)
      else .ok (I.apply op a b)
  | .openParen, _, _ => .error .parenApplied

/-- Apply what is on top of the operators, whatever it is. -/
def applyTop (s : Stacks α) : Except Halt (Stacks α) :=
  match s.operators with
  | [] => .error .missingOperator
  | pending :: operators =>
      if pending = .openParen then .error (.error .mismatchedParentheses)
      else
        match s.operands with
        | b :: a :: operands => do .ok ⟨(← combine I pending a b) :: operands, operators⟩
        | _ => .error (.error (.invalidExpression .missingOperand))

namespace Point

/-- The turn that is next applies what is on top of the operators. -/
def appliesTop (p : Point α) : Bool :=
  match p.loop with
  | .reading => false
  | .reducing op => p.held.operators.head?.any fun top => op.precedence ≤ top.precedence
  | .closing => p.held.operators.head?.any fun top => top ≠ .openParen
  | .finishing => !p.held.operators.isEmpty

def wait (p : Point α) (pending : Pending) : Point α :=
  { p with held.operators := pending :: p.held.operators }

/-- Read the next token. -/
def read (p : Point α) : Turn α :=
  match p.rest with
  | [] => .point { p with loop := .finishing }
  | .number literal :: rest =>
      match I.literal literal with
      | some value =>
          .point { p with
            held.operands := value :: p.held.operands, rest := rest, literals := p.literals + 1 }
      | none => .halt (.error (.invalidExpression (.malformedNumber literal)))
  | .operator op :: rest => .point { p with loop := .reducing op, rest := rest }
  | .openParen :: rest => .point { p.wait .openParen with rest := rest }
  | .closeParen :: rest => .point { p with loop := .closing, rest := rest }
  | .stray c :: _ => .halt (.error (.invalidExpression (.invalidCharacter c)))

/-- What a loop does when it has nothing more to apply. -/
def leave (p : Point α) : Turn α :=
  match p.loop with
  | .reading => p.read I
  | .reducing op => .point { p.wait (.operator op) with loop := .reading }
  | .closing =>
      match p.held.operators with
      | [] => .halt (.error .mismatchedParentheses)
      | _ :: operators => .point { p with held.operators := operators, loop := .reading }
  | .finishing => .ofExcept (onlyOperand p.held.operands)

def turn (p : Point α) : Turn α :=
  if p.appliesTop then
    match applyTop I p.held with
    | .ok s => .point { p with held := s, applied := p.applied + 1 }
    | .error halt => .halt halt
  else p.leave I

/-- The next turn leads from one point to the other. -/
def Leads (p q : Point α) : Prop :=
  p.turn I = .point q

def Reaches : Point α → Point α → Prop :=
  Relation.ReflTransGen (Leads I)

/-- The turns from the point on come to an end, with this answer. -/
def Answers (p : Point α) (answer : Except EvalError α) : Prop :=
  ∃ last, p.Reaches I last ∧ last.turn I = .ofExcept answer

end Point

end Turns

section Cases

variable {α : Type} {I : Interpretation α} {p q : Point α}

theorem ofExcept_ne_point (answer : Except EvalError α) : Turn.ofExcept answer ≠ .point p := by
  cases answer with
  | ok value => nofun
  | error error => nofun

theorem exists_error_of_ofExcept {answer : Except EvalError α} {halt : Halt}
    (h : Turn.ofExcept answer = .halt halt) : ∃ error, halt = .error error := by
  cases answer with
  | ok value => cases h
  | error error =>
      cases h
      exact ⟨error, rfl⟩

theorem turn_of_appliesTop (h : p.appliesTop = true) :
    p.turn I =
      match applyTop I p.held with
      | .ok s => .point { p with held := s, applied := p.applied + 1 }
      | .error halt => .halt halt :=
  if_pos h

theorem turn_of_not_appliesTop (h : p.appliesTop = false) : p.turn I = p.leave I :=
  if_neg (by simp [h])

/-- What is applied is on the stack. -/
theorem operators_ne_nil_of_appliesTop (h : p.appliesTop = true) : p.held.operators ≠ [] := by
  intro hnil
  unfold Point.appliesTop at h
  cases hloop : p.loop with
  | reading => simp [hloop] at h
  | reducing op => simp [hloop, hnil] at h
  | closing => simp [hloop, hnil] at h
  | finishing => simp [hloop, hnil] at h

/-- An application takes an operator and two operands from the stacks, and leaves one operand. -/
theorem applyTop_eq_ok {s s' : Stacks α} (h : applyTop I s = .ok s') :
    (∃ pending, s.operators = pending :: s'.operators) ∧
      s.operands.length = s'.operands.length + 1 := by
  unfold applyTop at h
  split at h
  · cases h
  · next pending operators hoperators =>
      split at h
      · cases h
      · split at h
        · next b a operands hoperands =>
            cases hvalue : combine I pending a b with
            | error halt =>
                rw [hvalue] at h
                cases h
            | ok value =>
                rw [hvalue] at h
                cases h
                exact ⟨⟨pending, hoperators⟩, by simp [hoperands]⟩
        · cases h

/-- Wherever something waits, an application that fails has an error to tell. -/
theorem exists_error_of_applyTop {s : Stacks α} {halt : Halt} (hne : s.operators ≠ [])
    (h : applyTop I s = .error halt) : ∃ error, halt = .error error := by
  unfold applyTop at h
  split at h
  · next hnil => exact absurd hnil hne
  · next pending operators _ =>
      split at h
      · cases h
        exact ⟨_, rfl⟩
      · next hpending =>
          split at h
          · next b a _ _ =>
              cases pending with
              | openParen => exact absurd rfl hpending
              | operator op =>
                  rw [combine] at h
                  split at h
                  · cases h
                    exact ⟨_, rfl⟩
                  · cases h
          · cases h
            exact ⟨_, rfl⟩

/-- What a turn can do to a point. -/
inductive Point.Follows (p : Point α) : Point α → Prop
  /-- What is on top of the operators is applied. -/
  | applied {pending : Pending} {s : Stacks α}
      (hoperators : p.held.operators = pending :: s.operators)
      (hoperands : p.held.operands.length = s.operands.length + 1) :
      Follows p { p with held := s, applied := p.applied + 1 }
  /-- A literal is read. -/
  | literal {literal : List Char} {rest : List Token} {value : α}
      (hrest : p.rest = .number literal :: rest) :
      Follows p { p with
        held.operands := value :: p.held.operands, rest := rest, literals := p.literals + 1 }
  /-- A loop is entered, after an operator or a parenthesis that closes has been read. -/
  | entered {token : Token} {rest : List Token} {loop : Loop} (hrest : p.rest = token :: rest)
      (htoken : token.literal? = none) :
      Follows p { p with loop := loop, rest := rest }
  /-- A parenthesis that opens is read. -/
  | opened {rest : List Token} (hrest : p.rest = .openParen :: rest) :
      Follows p { p.wait .openParen with rest := rest }
  /-- All tokens have been read. -/
  | ended : Follows p { p with loop := .finishing }
  /-- There is room for the operator that has been read. -/
  | reduced {op : Operator}
      (hroom : ∀ top ∈ p.held.operators.head?, top.precedence < op.precedence) :
      Follows p { p.wait (.operator op) with loop := .reading }
  /-- The parenthesis that opened the group is dropped. -/
  | closed {pending : Pending} {operators : List Pending}
      (hoperators : p.held.operators = pending :: operators) :
      Follows p { p with held.operators := operators, loop := .reading }

theorem follows_of_read (h : p.read I = .point q) : p.Follows q := by
  unfold Point.read at h
  split at h
  · cases h
    exact .ended
  · next literal rest hrest =>
      split at h
      · cases h
        exact .literal hrest
      · cases h
  · next op rest hrest =>
      cases h
      exact .entered hrest rfl
  · next rest hrest =>
      cases h
      exact .opened hrest
  · next rest hrest =>
      cases h
      exact .entered hrest rfl
  · cases h

theorem follows_of_leave (htop : p.appliesTop = false) (h : p.leave I = .point q) :
    p.Follows q := by
  unfold Point.leave at h
  split at h
  · exact follows_of_read h
  · next op hloop =>
      cases h
      refine .reduced fun top hmem => ?_
      have hhead : p.held.operators.head? = some top := hmem
      simpa [Point.appliesTop, hloop, hhead] using htop
  · split at h
    · cases h
    · next hoperators =>
        cases h
        exact .closed hoperators
  · exact absurd h (ofExcept_ne_point _)

theorem follows_of_leads (h : p.Leads I q) : p.Follows q := by
  unfold Point.Leads at h
  cases htop : p.appliesTop with
  | true =>
      rw [turn_of_appliesTop htop] at h
      split at h
      · next s happly =>
          cases h
          obtain ⟨⟨pending, hoperators⟩, hoperands⟩ := applyTop_eq_ok happly
          exact .applied hoperators hoperands
      · cases h
  | false =>
      rw [turn_of_not_appliesTop htop] at h
      exact follows_of_leave htop h

theorem exists_error_of_read {halt : Halt} (h : p.read I = .halt halt) :
    ∃ error, halt = .error error := by
  unfold Point.read at h
  split at h
  · cases h
  · split at h
    · cases h
    · cases h
      exact ⟨_, rfl⟩
  · cases h
  · cases h
  · cases h
  · cases h
    exact ⟨_, rfl⟩

theorem exists_error_of_leave {halt : Halt} (h : p.leave I = .halt halt) :
    ∃ error, halt = .error error := by
  unfold Point.leave at h
  split at h
  · exact exists_error_of_read h
  · cases h
  · split at h
    · cases h
      exact ⟨_, rfl⟩
    · cases h
  · exact exists_error_of_ofExcept h

/-- The turns stop with an error that they have to tell, and never for want of an operator. -/
theorem exists_error_of_turn {halt : Halt} (h : p.turn I = .halt halt) :
    ∃ error, halt = .error error := by
  cases htop : p.appliesTop with
  | true =>
      rw [turn_of_appliesTop htop] at h
      split at h
      · cases h
      · next happly =>
          cases h
          exact exists_error_of_applyTop (operators_ne_nil_of_appliesTop htop) happly
  | false =>
      rw [turn_of_not_appliesTop htop] at h
      exact exists_error_of_leave h

end Cases

section Answers

variable {α : Type} {I : Interpretation α} {p q : Point α} {answer : Except EvalError α}

theorem answers_of_turn (h : p.turn I = .ofExcept answer) : p.Answers I answer :=
  ⟨p, .refl, h⟩

theorem answers_of_leads (h : p.Leads I q) (hq : q.Answers I answer) : p.Answers I answer := by
  obtain ⟨last, hreaches, hlast⟩ := hq
  exact ⟨last, .head h hreaches, hlast⟩

/-- Two points that a point comes to lie on one way. -/
theorem answers_of_reaches (hp : p.Answers I answer) (h : p.Reaches I q) : q.Answers I answer := by
  obtain ⟨last, hreaches, hlast⟩ := hp
  have hunique : Relator.RightUnique (Point.Leads I) := fun _ _ _ h h' =>
    Turn.point.inj (h.symm.trans h')
  rcases Relation.ReflTransGen.total_of_right_unique hunique h hreaches with hway | hway
  · exact ⟨last, hway, hlast⟩
  · rcases Relation.ReflTransGen.cases_head hway with rfl | ⟨next, hnext, -⟩
    · exact ⟨_, .refl, hlast⟩
    · exact absurd (hlast.symm.trans hnext) (ofExcept_ne_point answer)

variable {op : Operator} {operands : List α} {operators : List Pending} {loop : Loop}
variable {rest : List Token} {literals applied : Nat}

theorem applyTop_operator :
    applyTop I ⟨operands, .operator op :: operators⟩ =
      match applyOperator I op operands with
      | .ok operands => .ok ⟨operands, operators⟩
      | .error error => .error (.error error) := by
  rcases operands with - | ⟨b, - | ⟨a, operands⟩⟩
  · rfl
  · rfl
  · simp only [applyTop, applyOperator, combine, reduceCtorEq, if_false]
    split <;> rfl

/-- A turn that applies an operator does what the scan does with it. -/
theorem answers_of_appliesTop {next : List α → Except EvalError α}
    (htop : (⟨⟨operands, .operator op :: operators⟩, loop, rest, literals, applied⟩ :
      Point α).appliesTop = true)
    (hnext : ∀ operands applied,
      Point.Answers I ⟨⟨operands, operators⟩, loop, rest, literals, applied⟩ (next operands)) :
    Point.Answers I ⟨⟨operands, .operator op :: operators⟩, loop, rest, literals, applied⟩
      (applyOperator I op operands >>= next) := by
  have hturn := turn_of_appliesTop (I := I) htop
  rw [applyTop_operator] at hturn
  cases happly : applyOperator I op operands with
  | ok operands' =>
      rw [happly] at hturn
      exact answers_of_leads hturn (hnext operands' (applied + 1))
  | error error =>
      rw [happly] at hturn
      exact answers_of_turn hturn

/-- The loop that makes room for an operator. -/
theorem answers_reducing {next : Stacks α → Except EvalError α}
    (hnext : ∀ s applied, Point.Answers I ⟨s, .reading, rest, literals, applied⟩ (next s)) :
    Point.Answers I ⟨⟨operands, operators⟩, .reducing op, rest, literals, applied⟩
      (reduce I op.precedence operands operators >>= fun s =>
        next { s with operators := .operator op :: s.operators }) := by
  -- The loop is left where nothing binds as tightly as the operator; it then waits on top.
  have hleave : ∀ operands operators applied,
      (⟨⟨operands, operators⟩, .reducing op, rest, literals, applied⟩ :
        Point α).appliesTop = false →
      Point.Answers I ⟨⟨operands, operators⟩, .reducing op, rest, literals, applied⟩
        (next ⟨operands, .operator op :: operators⟩) := fun _ _ _ htop =>
    answers_of_leads (turn_of_not_appliesTop htop) (hnext _ _)
  induction operators generalizing operands applied with
  | nil => exact hleave _ _ _ rfl
  | cons pending operators ih =>
      cases pending with
      | openParen =>
          refine hleave _ _ _ ?_
          cases op <;> rfl
      | operator top =>
          unfold reduce
          split
          · next hbinds =>
              rw [bind_assoc]
              exact answers_of_appliesTop (decide_eq_true hbinds) fun _ _ => ih
          · next hroom => exact hleave _ _ _ (decide_eq_false hroom)

/-- The loop that closes a group. -/
theorem answers_closing {next : Stacks α → Except EvalError α}
    (hnext : ∀ s applied, Point.Answers I ⟨s, .reading, rest, literals, applied⟩ (next s)) :
    Point.Answers I ⟨⟨operands, operators⟩, .closing, rest, literals, applied⟩
      (closeGroup I operands operators >>= next) := by
  induction operators generalizing operands applied with
  | nil => exact answers_of_turn rfl
  | cons pending operators ih =>
      cases pending with
      | openParen =>
          have hturn := turn_of_not_appliesTop (I := I)
            (p := ⟨⟨operands, .openParen :: operators⟩, .closing, rest, literals, applied⟩) rfl
          exact answers_of_leads hturn (hnext _ _)
      | operator op =>
          unfold closeGroup
          rw [bind_assoc]
          exact answers_of_appliesTop rfl fun _ _ => ih

/-- The loop that applies what waits at the end. -/
theorem answers_finishing :
    Point.Answers I ⟨⟨operands, operators⟩, .finishing, rest, literals, applied⟩
      (finish I operands operators >>= onlyOperand) := by
  induction operators generalizing operands applied with
  | nil => exact answers_of_turn rfl
  | cons pending operators ih =>
      cases pending with
      | openParen => exact answers_of_turn rfl
      | operator op =>
          unfold finish
          rw [bind_assoc]
          exact answers_of_appliesTop rfl fun _ _ => ih

/-- The loop over the tokens. -/
theorem answers_reading (s : Stacks α) (tokens : List Token) (literals applied : Nat) :
    Point.Answers I ⟨s, .reading, tokens, literals, applied⟩
      (run I s tokens >>= fun s => finish I s.operands s.operators >>= onlyOperand) := by
  induction tokens generalizing s literals applied with
  | nil => exact answers_of_leads rfl answers_finishing
  | cons token rest ih =>
      unfold run
      rw [bind_assoc]
      cases token with
      | number literal =>
          have hturn : Point.turn I ⟨s, .reading, .number literal :: rest, literals, applied⟩ =
            match I.literal literal with
            | some value => .point ⟨{ s with operands := value :: s.operands }, .reading, rest,
                literals + 1, applied⟩
            | none => .halt (.error (.invalidExpression (.malformedNumber literal))) := rfl
          simp only [step]
          cases hvalue : I.literal literal with
          | some value =>
              rw [hvalue] at hturn
              exact answers_of_leads hturn (ih _ _ _)
          | none =>
              rw [hvalue] at hturn
              exact answers_of_turn hturn
      | operator op =>
          refine answers_of_leads rfl ?_
          simp only [step, bind_assoc]
          exact answers_reducing fun s applied => ih s literals applied
      | openParen => exact answers_of_leads rfl (ih _ _ _)
      | closeParen => exact answers_of_leads rfl (answers_closing fun s applied => ih s _ applied)
      | stray c => exact answers_of_turn rfl

/-- The turns give the answer of the scan. -/
theorem answers_start (tokens : List Token) :
    Point.Answers I { rest := tokens } (evaluateTokens I tokens) :=
  answers_reading {} tokens 0 0

end Answers

end Expression
end FormulaSheet
