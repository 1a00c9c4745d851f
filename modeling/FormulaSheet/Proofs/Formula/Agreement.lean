import Mathlib
import FormulaSheet.Proofs.Address.Text
import FormulaSheet.Proofs.Formula.Nesting
import FormulaSheet.Proofs.Sheet.Replace

/-!
# Evaluations on two sheets

An evaluation looks at a sheet only through the readings of the addresses that it comes to. Two
sheets of any shapes that agree on these give the same result, whatever is in flight and whatever
the limit is.

* `Sheet.AgreeOn`: two sheets read the same at the addresses that a formula names.
* `evaluate_result_of_agreeOn`: such sheets give the same result.
* `shownText_eq_of_reading`: sheets with the same readings at all addresses that can be named.
-/

namespace FormulaSheet

open Text Relation

theorem reading_set (sheet : Sheet) (row column : Nat) (text : String) (other : Address) :
    (sheet.set row column text).reading other =
      if other = ⟨column, row⟩ then .ofText (trim text.toList) else sheet.reading other := by
  obtain ⟨column', row'⟩ := other
  by_cases h : row' = row ∧ column' = column
  · obtain ⟨rfl, rfl⟩ := h
    simp [Sheet.reading, Sheet.textAt?, Sheet.get?_set]
  · have hne : ¬ (⟨column', row'⟩ : Address) = ⟨column, row⟩ := by
      rintro heq
      cases heq
      exact h ⟨rfl, rfl⟩
    simp only [Sheet.reading, Sheet.textAt?, Sheet.get?_set, if_neg h, if_neg hne]

namespace Sheet

/-- Two sheets read the same at the addresses that a formula names. -/
def AgreeOn (sheet other : Sheet) (formula : List Char) : Prop :=
  ∀ cell, NamesAddress formula cell → sheet.reading cell = other.reading cell

section Texts

variable {sheet other : Sheet} {outcome outcome' : List Char → Except EvalError Binary64}

/-- The text of a piece, on two sheets that read the same at its address. -/
theorem pieceText_of_reading {piece : Piece}
    (hreading : ∀ cell, piece.address? = some cell → sheet.reading cell = other.reading cell)
    (houtcome : ∀ callee, sheet.PieceCalls piece callee → outcome callee = outcome' callee) :
    sheet.pieceText outcome piece = other.pieceText outcome' piece := by
  rw [pieceText_congr houtcome]
  cases piece with
  | gap text => rfl
  | token letters digits =>
      cases hparts : Address.ofParts? letters digits with
      | none => simp only [pieceText, tokenReading, hparts]
      | some cell => simp only [pieceText, tokenReading, hparts, hreading cell hparts]

end Texts

end Sheet

section Results

variable {sheet other : Sheet} {options : EvalOptions}

/-- A formula has the same result on two sheets that agree on all formulas that a chain of calls
leads to. -/
theorem evaluate_result_of_agreeOn (formula : List Char) (inFlight : List (List Char))
    (h : ∀ text, ReflTransGen sheet.Calls formula text → sheet.AgreeOn other text) :
    (evaluate sheet options formula inFlight).result =
      (evaluate other options formula inFlight).result := by
  induction formula, inFlight using nesting_induction sheet with
  | step formula inFlight ih =>
      refine evaluate_result_congr Iff.rfl rfl fun hfresh piece hpiece =>
        Sheet.pieceText_of_reading (fun cell hnamed => ?_) fun callee hcall => ?_
      · exact h formula ReflTransGen.refl cell (namesAddress_iff.mpr ⟨piece, hpiece, hnamed⟩)
      · have hcalls : sheet.Calls formula callee := ⟨piece, hpiece, hcall⟩
        exact ih callee hcalls hfresh fun text hchain => h text (ReflTransGen.head hcalls hchain)

/-- Two sheets that read the same at every address of a column from one on show the same in place
of a text. -/
theorem shownText_eq_of_reading
    (h : ∀ cell, 0 < cell.column → sheet.reading cell = other.reading cell) (text : String) :
    shownText sheet options text = shownText other options text := by
  have hresult : evaluateFormula sheet options text = evaluateFormula other options text := by
    refine evaluate_result_of_agreeOn text.toList [] fun callee _ cell hnamed => ?_
    exact h cell hnamed.pos.1
  simp only [shownText, evaluateCell, hresult]

end Results

end FormulaSheet
