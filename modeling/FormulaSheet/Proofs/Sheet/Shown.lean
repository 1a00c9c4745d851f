import Mathlib.Logic.Basic
import FormulaSheet.Proofs.Binary64.Text
import FormulaSheet.Proofs.Formula.Reading

/-!
# What evaluation shows

The evaluated sheet shows a plain numeral for a formula with a finite value and the error marker
for any other; other texts stay as they are. A plain numeral is neither empty, nor the marker, nor
a formula.

* `evaluateCell_eq_ok_iff`: which text a formula with a finite value has.
* `shownText_cases`: what is shown for a text.
* `isFormula_shownText`: what is shown is no formula.
-/

namespace FormulaSheet

open Text Expression

namespace IsPlainNumeral

variable {text : String}

theorem head?_ne_formulaMarker {cs : List Char} (h : IsPlainNumeral cs) :
    cs.head? ≠ some formulaMarker := by
  intro hmarker
  rcases h.eq_minus_or_isNumberChar (List.mem_of_mem_head? hmarker) with hminus | hnumber
  · exact absurd hminus (by decide)
  · exact absurd hnumber (by decide)

theorem isFormula_eq_false (h : IsPlainNumeral text.toList) : isFormula text = false := by
  rw [← Bool.not_eq_true, isFormula_iff, h.trim_eq]
  exact h.head?_ne_formulaMarker

theorem ne_errorMarker (h : IsPlainNumeral text.toList) : text ≠ errorMarker := by
  rintro rfl
  -- No numeral holds the first character of the marker.
  rcases h.eq_minus_or_isNumberChar (show '#' ∈ errorMarker.toList by decide) with hminus | hnumber
  · exact absurd hminus (by decide)
  · exact absurd hnumber (by decide)

theorem ne_empty (h : IsPlainNumeral text.toList) : text ≠ "" := by
  rintro rfl
  exact h.ne_nil rfl

end IsPlainNumeral

section Shown

variable {sheet : Sheet} {options : EvalOptions} {text shown : String}

theorem evaluateCell_eq_ok_iff :
    evaluateCell sheet options text = .ok shown ↔
      ∃ number, evaluateFormula sheet options text = .ok number ∧ number.isFinite = true ∧
        shown = String.ofList number.text := by
  unfold evaluateCell
  cases evaluateFormula sheet options text with
  | error error => simp
  | ok number =>
      simp only [Except.ok.injEq, exists_eq_left', ← Binary64.numeral?_eq_some_iff]
      cases number.numeral? <;> simp

theorem isPlainNumeral_of_evaluateCell (h : evaluateCell sheet options text = .ok shown) :
    IsPlainNumeral shown.toList := by
  obtain ⟨number, -, hfinite, rfl⟩ := evaluateCell_eq_ok_iff.mp h
  rw [String.toList_ofList]
  exact Binary64.isPlainNumeral_text hfinite

variable (sheet options text)

/-- A text that is no formula stays as it is; a formula that fails becomes the marker, and any other
becomes the numeral of its value. -/
theorem shownText_cases :
    isFormula text = false ∧ shownText sheet options text = text ∨
      isFormula text = true ∧
        ((∃ error, evaluateCell sheet options text = .error error) ∧
            shownText sheet options text = errorMarker ∨
          evaluateCell sheet options text = .ok (shownText sheet options text) ∧
            IsPlainNumeral (shownText sheet options text).toList) := by
  unfold shownText
  by_cases hformula : isFormula text = true
  · rw [if_pos hformula]
    refine Or.inr ⟨hformula, ?_⟩
    cases hcell : evaluateCell sheet options text with
    | error error => exact Or.inl ⟨⟨error, rfl⟩, rfl⟩
    | ok shown => exact Or.inr ⟨rfl, isPlainNumeral_of_evaluateCell hcell⟩
  · rw [if_neg hformula]
    exact Or.inl ⟨by simpa using hformula, rfl⟩

/-- Neither the marker nor a numeral is a formula. -/
theorem isFormula_shownText : isFormula (shownText sheet options text) = false := by
  rcases shownText_cases sheet options text with
    ⟨hformula, hshown⟩ | ⟨-, ⟨-, hshown⟩ | ⟨-, hnumeral⟩⟩
  · rw [hshown, hformula]
  · rw [hshown]
    decide
  · exact hnumeral.isFormula_eq_false

end Shown

end FormulaSheet
