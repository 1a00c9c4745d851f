import Mathlib

/-!
# Steps that may fail

What is known of two steps that may fail, one after the other, from what comes of both.

* `exists_of_bind_eq_ok`: if both succeed, so does each.
* `exists_of_bind_eq_error`: if they fail, one of them does.
-/

namespace FormulaSheet

variable {ε α β : Type} {x : Except ε α} {f : α → Except ε β}

theorem exists_of_bind_eq_ok {b : β} (h : x >>= f = .ok b) : ∃ a, x = .ok a ∧ f a = .ok b := by
  cases x with
  | error error => cases h
  | ok a => exact ⟨a, rfl, h⟩

theorem exists_of_bind_eq_error {error : ε} (h : x >>= f = .error error) :
    x = .error error ∨ ∃ a, x = .ok a ∧ f a = .error error := by
  cases x with
  | error found =>
      cases h
      exact Or.inl rfl
  | ok a => exact Or.inr ⟨a, rfl, h⟩

end FormulaSheet
