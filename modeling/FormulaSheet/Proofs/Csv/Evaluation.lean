import Mathlib
import FormulaSheet.Proofs.Csv.RoundTrip
import FormulaSheet.Proofs.Formula.Agreement
import FormulaSheet.Proofs.Sheet.Shown

/-!
# Evaluating before or after a conversion

A sheet can be written as comma separated values first and be evaluated when it is read back, or
be evaluated first and then be written: the cells are the same. The conversion drops cells, but
no reference tells them from cells that were never there, and evaluation neither empties a cell
nor fills an empty one.

* `Sheet.reading_portable`: the cells that are dropped count as zero before and after.
* `shownText_eq_empty_iff`: what evaluation puts in place of a text.
* `read_write_evaluate`: evaluation goes together with the conversion.
-/

namespace FormulaSheet

open Text

section Shown

variable {sheet : Sheet} {options : EvalOptions}

theorem isFormula_empty : isFormula "" = false := by decide

/-- Evaluation leaves exactly the empty texts empty. -/
theorem shownText_eq_empty_iff (text : String) :
    shownText sheet options text = "" ↔ text = "" := by
  rcases shownText_cases sheet options text with ⟨-, hshown⟩ | ⟨hformula, hshown⟩
  · rw [hshown]
  · have htext : text ≠ "" := by
      rintro rfl
      rw [isFormula_empty] at hformula
      cases hformula
    refine iff_of_false ?_ htext
    rcases hshown with ⟨-, hshown⟩ | ⟨-, hnumeral⟩
    · rw [hshown]
      decide
    · exact hnumeral.ne_empty

end Shown

namespace Row

theorem portable_mapText {f : String → String} (hf : ∀ text, f text = "" ↔ text = "")
    (row : Row) : (row.mapText f).portable = row.portable.mapText f := by
  have hportable : ∀ cell : Cell, Cell.isPortable (cell.1, f cell.2) = cell.isPortable := by
    intro cell
    simp [Cell.isPortable, hf]
  simp only [portable, mapText, List.filter_map, Function.comp_def, hportable]

end Row

namespace Sheet

variable {sheet : Sheet} {options : EvalOptions}

theorem portable_mapText {f : String → String} (hf : ∀ text, f text = "" ↔ text = "")
    (sheet : Sheet) : (sheet.mapText f).portable = sheet.portable.mapText f := by
  simp only [portable, mapText, List.map_map, Function.comp_def, Row.portable_mapText hf]

/-- An empty text counts as zero, as it does when its cell is dropped. -/
theorem reading_portable {cell : Address} (h : 0 < cell.column) :
    sheet.portable.reading cell = sheet.reading cell := by
  have hcolumn : cell.column ≠ 0 := by omega
  unfold reading textAt?
  rw [get?_portable, if_neg hcolumn]
  cases sheet.get? cell.row cell.column with
  | none => rfl
  | some text =>
      by_cases htext : text = ""
      · subst htext
        decide
      · simp [Option.filter_some, htext]

theorem portable_evaluate (sheet : Sheet) (options : EvalOptions) :
    (sheet.evaluate options).portable = sheet.portable.evaluate options := by
  have hshown : shownText sheet options = shownText sheet.portable options :=
    funext (shownText_eq_of_reading fun cell h => (reading_portable h).symm)
  rw [evaluate, portable_mapText shownText_eq_empty_iff, hshown, evaluate]

end Sheet

namespace Csv

/-- Evaluation goes together with writing and reading comma separated values: a sheet that is
written and read back can be evaluated afterwards as well as before, under every limit. -/
theorem read_write_evaluate (sheet : Sheet) (options : EvalOptions) :
    ∃ converted, read (write sheet) = .ok converted ∧
      read (write (sheet.evaluate options)) = .ok (converted.evaluate options) := by
  refine ⟨sheet.portable, read_write_eq sheet, ?_⟩
  rw [read_write_eq, Sheet.portable_evaluate]

end Csv

end FormulaSheet
