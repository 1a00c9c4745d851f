import Mathlib
import FormulaSheet.Proofs.Sheet.Diagnosis

/-!
# Evaluation is final

An evaluated sheet has the shape of the sheet that it comes from, and no formula is left in it. A
sheet without formulas is its own evaluation, under every limit; so evaluating twice is evaluating
once, and nothing is diagnosed the second time.

* `Sheet.evaluate_of_formulaCount`: a sheet without formulas is evaluated as it is.
* `Sheet.EvaluatesTo`: what an evaluated sheet keeps, and what it shows for formulas.
* `Sheet.IsFinal`: a sheet that has no formula and that no evaluation changes.
* `Sheet.evaluate_isFinal`: every sheet evaluates to a final one.
-/

namespace FormulaSheet

namespace Row

def columns (row : Row) : List Nat :=
  row.cells.map Prod.fst

@[simp] theorem columns_mapText (f : String → String) (row : Row) :
    (row.mapText f).columns = row.columns := by
  simp [columns, mapText, Function.comp_def]

theorem mapText_eq_self {f : String → String} {row : Row}
    (h : ∀ cell ∈ row.cells, f cell.2 = cell.2) : row.mapText f = row := by
  have hcells : row.cells.map (fun cell => (cell.1, f cell.2)) = row.cells := by
    rw [List.map_congr_left fun cell hcell => by rw [h cell hcell], List.map_id']
  simp only [mapText, hcells]

end Row

namespace Sheet

variable {sheet : Sheet} {options : EvalOptions}

theorem formulaCount_eq_zero_iff :
    sheet.formulaCount = 0 ↔
      ∀ row ∈ sheet.rows, ∀ cell ∈ row.cells, isFormula cell.2 = false := by
  have hsum : sheet.formulaCount =
      (sheet.rows.map fun row => row.cells.countP fun cell => isFormula cell.2).sum := rfl
  rw [hsum, List.sum_eq_zero_iff]
  simp

theorem formulaCells_of_formulaCount (h : sheet.formulaCount = 0) : sheet.formulaCells = [] :=
  List.eq_nil_of_length_eq_zero (sheet.length_formulaCells.trans h)

theorem formulaCount_evaluate (sheet : Sheet) (options : EvalOptions) :
    (sheet.evaluate options).formulaCount = 0 := by
  rw [formulaCount_eq_zero_iff]
  intro row hrow cell hcell
  obtain ⟨source, -, rfl⟩ := List.mem_map.mp hrow
  obtain ⟨held, -, rfl⟩ := List.mem_map.mp hcell
  exact isFormula_shownText sheet options held.2

/-- A sheet without formulas is evaluated as it is. -/
theorem evaluate_of_formulaCount (h : sheet.formulaCount = 0) (options : EvalOptions) :
    sheet.evaluate options = sheet := by
  have hrow : ∀ row ∈ sheet.rows, row.mapText (shownText sheet options) = row := by
    intro row hrow
    refine Row.mapText_eq_self fun cell hcell => if_neg ?_
    simp [formulaCount_eq_zero_iff.mp h row hrow cell hcell]
  have hrows : sheet.rows.map (Row.mapText (shownText sheet options)) = sheet.rows := by
    rw [List.map_congr_left hrow, List.map_id']
  simp only [evaluate, mapText, hrows]

theorem diagnose_of_formulaCount (h : sheet.formulaCount = 0) (options : EvalOptions) :
    sheet.diagnose options = [] := by
  rw [diagnose, formulaCells_of_formulaCount h]
  rfl

/-- The evaluated sheet has the rows and columns of the other. It copies the cells without formulas,
and a formula becomes the error marker if it fails and a plain numeral if it does not. -/
structure EvaluatesTo (sheet : Sheet) (options : EvalOptions) (evaluated : Sheet) : Prop where
  length : evaluated.length = sheet.length
  columns : evaluated.rows.map Row.columns = sheet.rows.map Row.columns
  copied : ∀ row column text, sheet.get? row column = some text → isFormula text = false →
    evaluated.get? row column = some text
  shown : ∀ row column text, sheet.get? row column = some text → isFormula text = true →
    (∃ error, evaluateCell sheet options text = .error error) ∧
        evaluated.get? row column = some errorMarker ∨
      ∃ shown, evaluateCell sheet options text = .ok shown ∧ IsPlainNumeral shown.toList ∧
        evaluated.get? row column = some shown

/-- No formula is left, so evaluation changes nothing and finds no fault. -/
structure IsFinal (sheet : Sheet) : Prop where
  noFormula : ∀ row column text, sheet.get? row column = some text → isFormula text = false
  formulaCount : sheet.formulaCount = 0
  evaluate : ∀ options, sheet.evaluate options = sheet
  diagnose : ∀ options, sheet.diagnose options = []

theorem evaluatesTo_evaluate (sheet : Sheet) (options : EvalOptions) :
    sheet.EvaluatesTo options (sheet.evaluate options) where
  length := List.length_map _
  columns := by
    simp [Sheet.evaluate, mapText, Function.comp_def]
  copied := by
    intro row column text hcell hformula
    rw [get?_evaluate, hcell, Option.map_some]
    exact congrArg some (if_neg (by simp [hformula]))
  shown := by
    intro row column text hcell hformula
    rw [get?_evaluate, hcell, Option.map_some]
    rcases shownText_cases sheet options text with
      ⟨hnot, -⟩ | ⟨-, ⟨hfails, hshown⟩ | ⟨hcomputed, hnumeral⟩⟩
    · rw [hformula] at hnot
      cases hnot
    · exact Or.inl ⟨hfails, congrArg some hshown⟩
    · exact Or.inr ⟨_, hcomputed, hnumeral, rfl⟩

theorem isFinal_of_formulaCount (h : sheet.formulaCount = 0) : sheet.IsFinal where
  noFormula := by
    intro row column text hcell
    by_contra hformula
    have hmem : (⟨column, row⟩, text) ∈ sheet.formulaCells :=
      mem_formulaCells_iff.mpr ⟨hcell, by simpa using hformula⟩
    rw [formulaCells_of_formulaCount h] at hmem
    cases hmem
  formulaCount := h
  evaluate := evaluate_of_formulaCount h
  diagnose := diagnose_of_formulaCount h

/-- Every sheet, whatever its references and under every limit, evaluates to a sheet of the same
shape without formulas, which evaluates to itself. -/
theorem evaluate_isFinal (sheet : Sheet) (options : EvalOptions) :
    sheet.EvaluatesTo options (sheet.evaluate options) ∧ (sheet.evaluate options).IsFinal :=
  ⟨evaluatesTo_evaluate sheet options,
    isFinal_of_formulaCount (formulaCount_evaluate sheet options)⟩

end Sheet

end FormulaSheet
