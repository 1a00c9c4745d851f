import Mathlib
import FormulaSheet.Proofs.Formula.History

/-!
# One resolver for many calls

A resolver can be asked again and again, for expressions and for numbers, and whatever is in
flight goes from one call to the next. No call leaves a trace: formulas come in flight above
those that are in flight already, never a text that is among them, and all of them are gone when
the call ends, with a value or with an error. So a call answers what it would answer alone.

* `Resolving.Stacks`: a computation that only puts new texts in flight, above those that are.
* `Call`, `Answer`, `answers`: calls on one resolver, one after the other.
* `answers_eq_alone`: each call answers what it answers on a resolver of its own.
-/

namespace FormulaSheet

open Text Resolving

/-- What comes in flight in the course of a computation comes above the texts that are in flight
before it, and is not among those below it. -/
def Resolving.Stacks {α : Type} (x : Resolving α) (inFlight : List (List Char)) : Prop :=
  ∀ entered, .entered entered ∈ (x inFlight).history →
    ∃ text before, entered = text :: before ∧ text ∉ before ∧ inFlight <:+ before

section Growth

variable {sheet : Sheet} {options : EvalOptions}

theorem stacks_evaluate (formula : List Char) (inFlight : List (List Char)) :
    Stacks (evaluate sheet options formula) inFlight := by
  induction formula, inFlight using nesting_induction sheet with
  | step formula inFlight ih =>
      intro entered h
      obtain ⟨hfresh, -, rfl | ⟨callee, hcall, h⟩⟩ := entered_cases h
      · exact ⟨trim formula, inFlight, rfl, hfresh, List.suffix_rfl⟩
      · obtain ⟨text, before, rfl, hnew, habove⟩ := ih callee hcall hfresh entered h
        exact ⟨text, before, rfl, hnew, (List.suffix_cons _ _).trans habove⟩

theorem stacks_resolve (formula : List Char) (inFlight : List (List Char)) :
    Stacks (resolve sheet options formula) inFlight := by
  intro entered h
  obtain ⟨hfresh, -, rfl | ⟨callee, -, h⟩⟩ := entered_resolve_cases h
  · exact ⟨trim formula, inFlight, rfl, hfresh, List.suffix_rfl⟩
  · obtain ⟨text, before, rfl, hnew, habove⟩ := stacks_evaluate callee _ entered h
    exact ⟨text, before, rfl, hnew, (List.suffix_cons _ _).trans habove⟩

theorem restores_resolve (formula : List Char) : Restores (resolve sheet options formula) :=
  restores_resolveWith restores_evaluate formula

end Growth

/-- A question to a resolver. -/
inductive Call
  /-- The numeric expression of a formula. -/
  | resolve (formula : String)
  /-- The number of a formula. -/
  | evaluate (formula : String)
  deriving DecidableEq

/-- The answer to a question. -/
inductive Answer
  | expression (result : Except EvalError (List Char))
  | number (result : Except EvalError Binary64)
  deriving DecidableEq

/-- The answer to a question with some formulas in flight. -/
def Call.answer (sheet : Sheet) (options : EvalOptions) (inFlight : List (List Char)) :
    Call → Answer
  | .resolve formula =>
      .expression (FormulaSheet.resolve sheet options formula.toList inFlight).result
  | .evaluate formula =>
      .number (FormulaSheet.evaluate sheet options formula.toList inFlight).result

/-- A call on a resolver; an error is an answer too, and does not end the calls. -/
def Call.perform (sheet : Sheet) (options : EvalOptions) : Call → Resolving Answer
  | .resolve formula => do
      let result ← attempt (FormulaSheet.resolve sheet options formula.toList)
      value (.expression result)
  | .evaluate formula => do
      let result ← attempt (FormulaSheet.evaluate sheet options formula.toList)
      value (.number result)

/-- The answers to calls on one resolver, one after the other. -/
def answers (sheet : Sheet) (options : EvalOptions) : List Call → Resolving (List Answer)
  | [] => value []
  | call :: rest => do
      let first ← call.perform sheet options
      let others ← answers sheet options rest
      value (first :: others)

section Calls

variable {sheet : Sheet} {options : EvalOptions}

theorem restores_perform : ∀ call : Call, Restores (call.perform sheet options)
  | .resolve _ => restores_bind (restores_attempt (restores_resolve _)) fun _ => restores_value _
  | .evaluate _ => restores_bind (restores_attempt (restores_evaluate _)) fun _ => restores_value _

theorem perform_result (call : Call) (inFlight : List (List Char)) :
    (call.perform sheet options inFlight).result = .ok (call.answer sheet options inFlight) := by
  cases call with
  | resolve formula =>
      unfold Call.perform
      rw [result_bind (restores_attempt (restores_resolve _))]
      rfl
  | evaluate formula =>
      unfold Call.perform
      rw [result_bind (restores_attempt (restores_evaluate _))]
      rfl

theorem restores_answers : ∀ calls : List Call, Restores (answers sheet options calls)
  | [] => restores_value _
  | call :: rest =>
      restores_bind (restores_perform call) fun _ =>
        restores_bind (restores_answers rest) fun _ => restores_value _

/-- Each call is answered as if it came first. -/
theorem answers_result (calls : List Call) (inFlight : List (List Char)) :
    (answers sheet options calls inFlight).result =
      .ok (calls.map (Call.answer sheet options inFlight)) := by
  induction calls with
  | nil => rfl
  | cons call rest ih =>
      unfold answers
      rw [result_bind (restores_perform call), perform_result]
      show ((answers sheet options rest >>= fun others =>
        value (call.answer sheet options inFlight :: others)) inFlight).result = _
      rw [result_bind (restores_answers rest), ih]
      rfl

end Calls

/-- A resolver keeps no trace of a call. Whatever is in flight before it is in flight behind it,
with a value and with every error; meanwhile formulas only come in flight above that, and a text
never comes in flight above itself, so that its removal takes away no other. Hence calls on one
resolver, one after the other, are answered as by a resolver for each. -/
theorem answers_eq_alone (sheet : Sheet) (options : EvalOptions) :
    (∀ formula inFlight,
      (resolve sheet options formula inFlight).inFlight = inFlight ∧
        (evaluate sheet options formula inFlight).inFlight = inFlight) ∧
      (∀ formula inFlight,
        Stacks (resolve sheet options formula) inFlight ∧
          Stacks (evaluate sheet options formula) inFlight) ∧
      ∀ calls,
        (answers sheet options calls []).result =
            .ok (calls.map (Call.answer sheet options [])) ∧
          (answers sheet options calls []).inFlight = [] := by
  refine ⟨fun formula inFlight => ⟨?_, ?_⟩, fun formula inFlight => ⟨?_, ?_⟩, fun calls => ⟨?_, ?_⟩⟩
  · exact restores_resolve formula inFlight
  · exact restores_evaluate formula inFlight
  · exact stacks_resolve formula inFlight
  · exact stacks_evaluate formula inFlight
  · exact answers_result calls []
  · exact restores_answers calls []

end FormulaSheet
