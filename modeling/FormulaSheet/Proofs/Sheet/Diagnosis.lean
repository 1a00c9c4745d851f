import Mathlib
import FormulaSheet.Proofs.Formula.Structural
import FormulaSheet.Proofs.Sheet.Shown

/-!
# Diagnosis of sheets

A formula cell is diagnosed exactly if the evaluated sheet shows the error marker in its place,
since no number is written like the marker. The reason is never that the cell is empty or holds
no formula: formula cells and formulas that resolve are told apart from other texts by the same
test.

* `Address.Precedes`, `Sheet.pairwise_formulaCells`: the order of rows and columns.
* `structural_or_arithmetic_of_evaluateCell`: what kinds of errors a formula has.
* `shownText_eq_errorMarker_iff`: what is shown as the marker.
* `Sheet.mem_diagnose_iff`, `Sheet.pairwise_diagnose`: which formulas are listed, in which order.
-/

namespace FormulaSheet

open Text

/-- The address comes before another in the order of rows, and of columns within a row. -/
def Address.Precedes (first second : Address) : Prop :=
  first.row < second.row ∨ first.row = second.row ∧ first.column < second.column

theorem Address.Precedes.ne {first second : Address} (h : first.Precedes second) :
    first ≠ second := by
  rintro rfl
  rcases h with h | ⟨-, h⟩
  · exact Nat.lt_irrefl _ h
  · exact Nat.lt_irrefl _ h

/-- A list in the order of its addresses has as many members as there are addresses in it. -/
theorem ncard_eq_length {α : Type} {members : List α} {cell : α → Address}
    (h : members.Pairwise fun a b => (cell a).Precedes (cell b)) :
    {address | ∃ a ∈ members, cell a = address}.ncard = members.length := by
  have hnodup : (members.map cell).Nodup := List.pairwise_map.mpr (h.imp Address.Precedes.ne)
  have hset : {address | ∃ a ∈ members, cell a = address} =
      ((members.map cell).toFinset : Set Address) := by
    ext address
    simp
  rw [hset, Set.ncard_coe_finset, List.toFinset_card_of_nodup hnodup, List.length_map]

section Cells

variable {sheet : Sheet} {options : EvalOptions} {text : String} {error : EvalError}

theorem structural_or_arithmetic_of_evaluateCell (hformula : isFormula text = true)
    (h : evaluateCell sheet options text = .error error) :
    error.isStructural = true ∨ error.isArithmetic = true := by
  obtain ⟨body, hbody⟩ := isFormula_iff_body.mp hformula
  unfold evaluateCell at h
  split at h
  · next hresult =>
      cases h
      exact structural_or_arithmetic_of_evaluate hbody hresult
  · split at h
    · cases h
    · cases h
      exact Or.inr rfl

theorem evaluateCell_ne_errorMarker {shown : String}
    (h : evaluateCell sheet options text = .ok shown) : shown ≠ errorMarker :=
  (isPlainNumeral_of_evaluateCell h).ne_errorMarker

/-- A formula is shown as the marker exactly if its evaluation fails. -/
theorem shownText_eq_errorMarker_iff (hformula : isFormula text = true) :
    shownText sheet options text = errorMarker ↔
      ∃ error, evaluateCell sheet options text = .error error := by
  unfold shownText
  rw [if_pos hformula]
  cases h : evaluateCell sheet options text with
  | ok shown => simpa using evaluateCell_ne_errorMarker h
  | error error => simp

end Cells

namespace Sheet

/-- The cell at an address holds a text that is a formula. -/
def HoldsFormula (sheet : Sheet) (address : Address) (text : String) : Prop :=
  sheet.get? address.row address.column = some text ∧ isFormula text = true

theorem pairwise_formulaCells (sheet : Sheet) :
    sheet.formulaCells.Pairwise fun a b => a.1.Precedes b.1 := by
  unfold formulaCells
  rw [List.pairwise_flatten]
  constructor
  · intro cells hcells
    obtain ⟨⟨row, index⟩, -, rfl⟩ := List.mem_map.mp hcells
    exact List.pairwise_map.mpr ((row.sorted.filter _).imp fun hlt => Or.inr ⟨rfl, hlt⟩)
  · have hindices : sheet.rows.zipIdx.Pairwise fun a b => a.2 < b.2 := by
      rw [← List.pairwise_map, List.zipIdx_map_snd]
      exact List.pairwise_lt_range'
    refine List.pairwise_map.mpr (hindices.imp fun hlt a ha b hb => ?_)
    obtain ⟨-, -, rfl⟩ := List.mem_map.mp ha
    obtain ⟨-, -, rfl⟩ := List.mem_map.mp hb
    exact Or.inl hlt

theorem mem_diagnose_iff {sheet : Sheet} {options : EvalOptions} {d : Diagnostic} :
    d ∈ sheet.diagnose options ↔
      sheet.HoldsFormula d.cell d.formula ∧
        evaluateCell sheet options d.formula = .error d.error := by
  unfold diagnose
  rw [List.mem_filterMap]
  constructor
  · rintro ⟨⟨address, text⟩, hcell, hd⟩
    dsimp only at hd
    split at hd
    · cases hd
    · next herror =>
        cases hd
        exact ⟨mem_formulaCells_iff.mp hcell, herror⟩
  · rintro ⟨hcell, herror⟩
    exact ⟨(d.cell, d.formula), mem_formulaCells_iff.mpr hcell, by simp [herror]⟩

theorem pairwise_diagnose (sheet : Sheet) (options : EvalOptions) :
    (sheet.diagnose options).Pairwise fun d e => d.cell.Precedes e.cell := by
  refine List.pairwise_filterMap.mpr (sheet.pairwise_formulaCells.imp ?_)
  rintro ⟨first, text⟩ ⟨second, later⟩ hprecedes d hd e he
  dsimp only at hd he
  split at hd
  · cases hd
  · split at he
    · cases he
    · cases hd
      cases he
      exact hprecedes

theorem get?_evaluate (sheet : Sheet) (options : EvalOptions) (row column : Nat) :
    (sheet.evaluate options).get? row column =
      (sheet.get? row column).map (shownText sheet options) :=
  get?_mapText _ sheet row column

/-- The number of formulas is the number of addresses at which there is one. -/
theorem formulaCount_eq_ncard (sheet : Sheet) :
    sheet.formulaCount = {address | ∃ text, sheet.HoldsFormula address text}.ncard := by
  have hset : {address | ∃ text, sheet.HoldsFormula address text} =
      {address | ∃ cell ∈ sheet.formulaCells, cell.1 = address} := by
    ext address
    simp [HoldsFormula, mem_formulaCells_iff]
  rw [hset, ncard_eq_length sheet.pairwise_formulaCells, length_formulaCells]

end Sheet

end FormulaSheet
