import Mathlib

/-!
# Infix expressions

Which sequences of operands, binary operators and parentheses are infix expressions. The grammar
is `IsInfix`; reading from left to right with a depth of parentheses, `completes`, recognises the
same sequences.

An evaluator that only counts what is left on its stacks sees less: how many more operands than
operators there are, `surplus`, and that parentheses are balanced, `balanced`. If no operand stands
directly behind another, that is enough.

* `isInfix_iff_completes`: grammar and recogniser agree, so `IsInfix` is decidable.
* `isInfix_of_surplus`: a balanced sequence with one more operand than operators and without
  adjacent operands is an infix expression.
-/

namespace FormulaSheet
namespace Expression

/-- The part that a symbol takes in an expression. -/
inductive Role
  | operand
  | operator
  | openParen
  | closeParen
  /-- A symbol that has no place in an expression. -/
  | foreign
  deriving DecidableEq

/-- Operands joined by binary operators, with parentheses around any such expression. -/
inductive IsInfix : List Role → Prop
  | operand : IsInfix [.operand]
  | group {inner : List Role} (h : IsInfix inner) :
      IsInfix (.openParen :: (inner ++ [.closeParen]))
  | binary {left right : List Role} (hleft : IsInfix left) (hright : IsInfix right) :
      IsInfix (left ++ .operator :: right)

/-- What is left to read ends an expression in so many open parentheses; an operand is expected
next, or it has just been read. -/
def completes : (expecting : Bool) → (depth : Nat) → List Role → Bool
  | true, depth, .operand :: rest => completes false depth rest
  | true, depth, .openParen :: rest => completes true (depth + 1) rest
  | true, _, _ => false
  | false, depth, .operator :: rest => completes true depth rest
  | false, depth + 1, .closeParen :: rest => completes false depth rest
  | false, depth, [] => depth = 0
  | false, _, _ => false

section Recogniser

/-- Reading an expression where an operand is expected. -/
theorem completes_append {roles : List Role} (h : IsInfix roles) (depth : Nat)
    (rest : List Role) : completes true depth (roles ++ rest) = completes false depth rest := by
  induction h generalizing depth rest with
  | operand => rfl
  | group _ ih =>
      rw [List.cons_append, List.append_assoc, completes, ih]
      rfl
  | binary _ _ ihleft ihright =>
      rw [List.append_assoc, ihleft, List.cons_append, completes, ihright]

/-- What can stand before an expected operand inside a pair of parentheses: nothing, or an
expression and an operator. -/
def IsLeftPart (roles : List Role) : Prop :=
  roles = [] ∨ ∃ left, IsInfix left ∧ roles = left ++ [.operator]

theorem isInfix_append {before roles : List Role} (hbefore : IsLeftPart before)
    (h : IsInfix roles) : IsInfix (before ++ roles) := by
  rcases hbefore with rfl | ⟨left, hleft, rfl⟩
  · exact h
  · rw [List.append_assoc]
    exact IsInfix.binary hleft h

/-- The roles read so far outside the innermost parentheses, given the left part before each open
parenthesis, the innermost first. -/
def outer : List (List Role) → List Role
  | [] => []
  | before :: rest => outer rest ++ before ++ [.openParen]

/-- The invariant of the recogniser: a left part stands before each open parenthesis, and what has
been read inside the innermost one is a left part or an expression. -/
theorem isInfix_of_completes {rest : List Role} (parts : List (List Role)) (current : List Role)
    (hparts : ∀ part ∈ parts, IsLeftPart part) :
    (completes true parts.length rest = true → IsLeftPart current →
        IsInfix (outer parts ++ current ++ rest)) ∧
      (completes false parts.length rest = true → IsInfix current →
        IsInfix (outer parts ++ current ++ rest)) := by
  induction rest generalizing parts current with
  | nil =>
      refine ⟨fun h => by simp [completes] at h, fun h hcurrent => ?_⟩
      have hnil : parts = [] := by simpa [completes] using h
      simpa [hnil, outer] using hcurrent
  | cons role rest ih =>
      constructor
      · intro h hcurrent
        cases role with
        | operand =>
            have hnext := (ih parts _ hparts).2 h (isInfix_append hcurrent IsInfix.operand)
            simpa using hnext
        | openParen =>
            have hinner : ∀ part ∈ current :: parts, IsLeftPart part := by
              simpa using ⟨hcurrent, hparts⟩
            have hnext := (ih (current :: parts) [] hinner).1 h (Or.inl rfl)
            simpa [outer] using hnext
        | operator => simp [completes] at h
        | closeParen => simp [completes] at h
        | foreign => simp [completes] at h
      · intro h hcurrent
        cases role with
        | operator =>
            have hnext := (ih parts _ hparts).1 h (Or.inr ⟨current, hcurrent, rfl⟩)
            simpa using hnext
        | closeParen =>
            cases parts with
            | nil => simp [completes] at h
            | cons before parts =>
                have hgroup := isInfix_append (hparts before List.mem_cons_self)
                  (IsInfix.group hcurrent)
                have hnext := (ih parts _ fun part hpart =>
                  hparts part (List.mem_cons_of_mem _ hpart)).2 h hgroup
                simpa [outer] using hnext
        | operand => simp [completes] at h
        | openParen => simp [completes] at h
        | foreign => simp [completes] at h

theorem isInfix_iff_completes {roles : List Role} :
    IsInfix roles ↔ completes true 0 roles = true := by
  constructor
  · intro h
    have hread := completes_append h 0 []
    rw [List.append_nil] at hread
    rw [hread]
    rfl
  · intro h
    have hinfix := (isInfix_of_completes [] [] (by simp)).1 h (Or.inl rfl)
    simpa [outer] using hinfix

instance (roles : List Role) : Decidable (IsInfix roles) :=
  decidable_of_iff _ isInfix_iff_completes.symm

end Recogniser

section Counting

/-- What a role adds to the count of operands less that of operators. -/
def Role.surplus : Role → Int
  | .operand => 1
  | .operator => -1
  | _ => 0

/-- How many more operands than operators there are. -/
def surplus (roles : List Role) : Int :=
  (roles.map Role.surplus).sum

@[simp] theorem surplus_nil : surplus [] = 0 := rfl

@[simp] theorem surplus_cons (role : Role) (rest : List Role) :
    surplus (role :: rest) = role.surplus + surplus rest := by
  simp [surplus]

@[simp] theorem surplus_append (roles others : List Role) :
    surplus (roles ++ others) = surplus roles + surplus others := by
  simp [surplus]

/-- Every operator of an expression stands between two of its operands. -/
theorem surplus_of_isInfix {roles : List Role} (h : IsInfix roles) : surplus roles = 1 := by
  induction h with
  | operand => rfl
  | group _ ih => simp [ih, Role.surplus]
  | binary _ _ ihleft ihright => simp [ihleft, ihright, Role.surplus]

/-- The parentheses that are left close those that are open, and none is left open. -/
def balanced : (depth : Nat) → List Role → Bool
  | depth, [] => depth = 0
  | depth, .openParen :: rest => balanced (depth + 1) rest
  | depth + 1, .closeParen :: rest => balanced depth rest
  | 0, .closeParen :: _ => false
  | depth, _ :: rest => balanced depth rest

def Role.endsOperand : Role → Bool
  | .operand => true
  | .closeParen => true
  | _ => false

def Role.beginsOperand : Role → Bool
  | .operand => true
  | .openParen => true
  | _ => false

/-- Two operands stand side by side, each of them single or in parentheses. -/
def Adjacent (role next : Role) : Prop :=
  role.endsOperand = true ∧ next.beginsOperand = true

instance (role next : Role) : Decidable (Adjacent role next) :=
  inferInstanceAs (Decidable (_ ∧ _))

/-- No operand stands directly behind another. -/
def Separated (roles : List Role) : Prop :=
  roles.IsChain fun role next => ¬ Adjacent role next

instance (roles : List Role) : Decidable (Separated roles) :=
  inferInstanceAs (Decidable (List.IsChain _ _))

/-- Where an operand is expected none has just been read, and elsewhere none may follow. -/
theorem separated_of_completes {expecting : Bool} {depth : Nat} {roles : List Role}
    (h : completes expecting depth roles = true) :
    Separated roles ∧ .foreign ∉ roles ∧
      (expecting = false → ∀ role ∈ roles.head?, role.beginsOperand = false) := by
  induction roles generalizing expecting depth with
  | nil => simp [Separated]
  | cons role rest ih =>
      unfold Separated
      rw [List.isChain_cons]
      cases expecting with
      | true =>
          cases role with
          | operand =>
              obtain ⟨hseparated, hforeign, hnext⟩ := ih h
              refine ⟨⟨fun next hmem hadjacent => ?_, hseparated⟩, by simpa using hforeign, by simp⟩
              exact absurd hadjacent.2 (by simp [hnext rfl next hmem])
          | openParen =>
              obtain ⟨hseparated, hforeign, -⟩ := ih h
              refine ⟨⟨fun next _ hadjacent => ?_, hseparated⟩, by simpa using hforeign, by simp⟩
              exact absurd hadjacent.1 (by decide)
          | operator => cases h
          | closeParen => cases h
          | foreign => cases h
      | false =>
          cases role with
          | operator =>
              obtain ⟨hseparated, hforeign, -⟩ := ih h
              refine ⟨⟨fun next _ hadjacent => ?_, hseparated⟩, by simpa using hforeign,
                by simp [Role.beginsOperand]⟩
              exact absurd hadjacent.1 (by decide)
          | closeParen =>
              cases depth with
              | zero => cases h
              | succ depth =>
                  obtain ⟨hseparated, hforeign, hnext⟩ := ih h
                  refine ⟨⟨fun next hmem hadjacent => ?_, hseparated⟩, by simpa using hforeign,
                    by simp [Role.beginsOperand]⟩
                  exact absurd hadjacent.2 (by simp [hnext rfl next hmem])
          | operand => simp [completes] at h
          | openParen => simp [completes] at h
          | foreign => simp [completes] at h

theorem separated_of_isInfix {roles : List Role} (h : IsInfix roles) : Separated roles :=
  (separated_of_completes (isInfix_iff_completes.mp h)).1

theorem foreign_notMem_of_isInfix {roles : List Role} (h : IsInfix roles) : .foreign ∉ roles :=
  (separated_of_completes (isInfix_iff_completes.mp h)).2.1

/-- Without adjacent operands, every operator that lacks an operand makes the count fall short. So
where the count is right, none does. -/
theorem completes_of_surplus {roles : List Role} (hforeign : .foreign ∉ roles)
    (hseparated : Separated roles) (depth : Nat) (hbalanced : balanced depth roles = true) :
    (surplus roles ≤ 1 ∧ (surplus roles = 1 → completes true depth roles = true)) ∧
      ((∀ role ∈ roles.head?, role.beginsOperand = false) →
        surplus roles ≤ 0 ∧ (surplus roles = 0 → completes false depth roles = true)) := by
  induction roles generalizing depth with
  | nil =>
      simpa [completes, balanced] using hbalanced
  | cons role rest ih =>
      have hrest : Separated rest := List.IsChain.tail hseparated
      have hnext : role.endsOperand = true → ∀ next ∈ rest.head?, next.beginsOperand = false := by
        intro hends next hmem
        cases rest with
        | nil => cases hmem
        | cons other rest =>
            obtain rfl : other = next := by simpa using hmem
            have hnot := (List.isChain_cons_cons.mp hseparated).1
            by_contra hbegins
            exact hnot ⟨hends, by simpa using hbegins⟩
      have ih := ih (fun h => hforeign (List.mem_cons_of_mem _ h)) hrest
      cases role with
      | operand =>
          have hafter := (ih depth hbalanced).2 (hnext rfl)
          simp only [surplus_cons, Role.surplus, completes]
          refine ⟨⟨by omega, fun h => hafter.2 (by omega)⟩, fun h => ?_⟩
          simp [Role.beginsOperand] at h
      | operator =>
          have hafter := (ih depth hbalanced).1
          simp only [surplus_cons, Role.surplus, completes]
          exact ⟨⟨by omega, by omega⟩, fun _ => ⟨by omega, fun h => hafter.2 (by omega)⟩⟩
      | openParen =>
          have hafter := (ih (depth + 1) hbalanced).1
          simp only [surplus_cons, Role.surplus, completes]
          refine ⟨⟨by omega, fun h => hafter.2 (by omega)⟩, fun h => ?_⟩
          simp [Role.beginsOperand] at h
      | closeParen =>
          cases depth with
          | zero => simp [balanced] at hbalanced
          | succ depth =>
              have hafter := (ih depth hbalanced).2 (hnext rfl)
              simp only [surplus_cons, Role.surplus, completes]
              exact ⟨⟨by omega, by omega⟩, fun _ => ⟨by omega, fun h => hafter.2 (by omega)⟩⟩
      | foreign => exact absurd List.mem_cons_self hforeign

/-- A balanced sequence without adjacent operands has at most one operand more than operators, and
with exactly one more it is an expression. -/
theorem isInfix_of_surplus {roles : List Role} (hforeign : .foreign ∉ roles)
    (hseparated : Separated roles) (hbalanced : balanced 0 roles = true)
    (hsurplus : 1 ≤ surplus roles) : IsInfix roles := by
  obtain ⟨hle, hcompletes⟩ := (completes_of_surplus hforeign hseparated 0 hbalanced).1
  exact isInfix_iff_completes.mpr (hcompletes (le_antisymm hle hsurplus))

end Counting

end Expression
end FormulaSheet
