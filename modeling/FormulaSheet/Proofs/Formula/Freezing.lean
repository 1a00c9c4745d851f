import Mathlib
import FormulaSheet.Proofs.Binary64.RoundTrip
import FormulaSheet.Proofs.Formula.Agreement
import FormulaSheet.Proofs.Formula.BottomUp
import FormulaSheet.Proofs.Sheet.Shown

/-!
# Freezing a computed cell

A formula cell can be replaced by the text that evaluation shows in its place. To the formulas
that refer to it, the cell was a number before and is the same number afterwards; its own
references are gone, but they led to no cycle. So nothing else changes.

* `Sheet.Freezes`: one sheet has a number where the other has a formula with that outcome.
* `Sheet.Freezes.reachesCycle_iff`: the same formulas reach a cycle on both sheets.
* `Freezable`: the outcomes for which a text can stand.
* `evaluate_set_shown`: the evaluated sheet stays the same.
-/

namespace FormulaSheet

open Text Relation

namespace Sheet

/-- The frozen sheet reads as the other, except that it has a number in one cell, where the other
has a formula for whose outcome that number stands. -/
structure Freezes (sheet frozen : Sheet) (cell : Address) (text : List Char) (number : Binary64) :
    Prop where
  formula : sheet.formulaAt? cell = some text
  outcome : outcomeText (FormulaSheet.evaluate sheet {} text []).result = .ok number.text
  number : frozen.reading cell = .number number
  others : ∀ other, other ≠ cell → frozen.reading other = sheet.reading other

theorem formulaAt?_eq_of_reading {sheet other : Sheet} {cell cell' : Address}
    (h : sheet.reading cell = other.reading cell') :
    sheet.formulaAt? cell = other.formulaAt? cell' := by
  refine Option.ext fun text => ?_
  rw [← reading_eq_formula_iff, ← reading_eq_formula_iff, h]

/-- A cell with a chain to a cycle holds a formula that reaches it. -/
theorem reachesCycle_of_cellRefersTo {sheet : Sheet} {source cell : Address} {text : List Char}
    (hsource : sheet.formulaAt? source = some text)
    (hchain : ReflTransGen sheet.CellRefersTo source cell)
    (hcycle : TransGen sheet.CellRefersTo cell cell) : sheet.ReachesCycle text := by
  obtain ⟨first, ⟨found, hfound, hrefers⟩, hrest⟩ :=
    TransGen.head'_iff.mp (TransGen.trans_right hchain hcycle)
  obtain rfl : text = found := Option.some.inj (hsource.symm.trans hfound)
  exact ⟨cell, ⟨first, hrefers, hrest⟩, hcycle⟩

namespace Freezes

variable {sheet frozen : Sheet} {cell : Address} {text : List Char} {number : Binary64}

theorem formulaAt?_cell (h : sheet.Freezes frozen cell text number) :
    frozen.formulaAt? cell = none := by
  refine Option.eq_none_iff_forall_ne_some.mpr fun found hfound => ?_
  have hreading := reading_eq_formula_iff.mpr hfound
  rw [h.number] at hreading
  cases hreading

theorem formulaAt?_of_ne (h : sheet.Freezes frozen cell text number) {other : Address}
    (hother : other ≠ cell) : frozen.formulaAt? other = sheet.formulaAt? other :=
  formulaAt?_eq_of_reading (h.others other hother)

/-- The formula that is frozen reaches no cycle, since it has an outcome that can be read. -/
theorem not_reachesCycle (h : sheet.Freezes frozen cell text number) :
    ¬ sheet.ReachesCycle text := by
  intro hcycle
  have houtcome := h.outcome
  rw [evaluate_circular_iff.mpr hcycle] at houtcome
  cases houtcome

theorem ne_of_formulaAt? (h : sheet.Freezes frozen cell text number) {other : Address}
    (hother : (frozen.formulaAt? other).isSome = true) : other ≠ cell := by
  rintro rfl
  rw [h.formulaAt?_cell] at hother
  cases hother

theorem refersTo_iff (h : sheet.Freezes frozen cell text number) {formula : List Char}
    {target : Address} :
    frozen.RefersTo formula target ↔ sheet.RefersTo formula target ∧ target ≠ cell := by
  constructor
  · intro hrefers
    have hne := h.ne_of_formulaAt? hrefers.2
    exact ⟨⟨hrefers.1, by rw [← h.formulaAt?_of_ne hne]; exact hrefers.2⟩, hne⟩
  · rintro ⟨hrefers, hne⟩
    exact ⟨hrefers.1, by rw [h.formulaAt?_of_ne hne]; exact hrefers.2⟩

theorem cellRefersTo_iff (h : sheet.Freezes frozen cell text number) {source target : Address} :
    frozen.CellRefersTo source target ↔
      sheet.CellRefersTo source target ∧ source ≠ cell ∧ target ≠ cell := by
  constructor
  · rintro ⟨found, hfound, hrefers⟩
    have hsource : source ≠ cell := h.ne_of_formulaAt? (by simp [hfound])
    obtain ⟨hrefers, htarget⟩ := h.refersTo_iff.mp hrefers
    exact ⟨⟨found, by rw [← h.formulaAt?_of_ne hsource]; exact hfound, hrefers⟩, hsource, htarget⟩
  · rintro ⟨⟨found, hfound, hrefers⟩, hsource, htarget⟩
    refine ⟨found, by rw [h.formulaAt?_of_ne hsource]; exact hfound, ?_⟩
    exact h.refersTo_iff.mpr ⟨hrefers, htarget⟩

/-- The frozen cell stands on no chain to a cycle. -/
theorem ne_of_chain (h : sheet.Freezes frozen cell text number) {source last : Address}
    (hchain : ReflTransGen sheet.CellRefersTo source last)
    (hcycle : TransGen sheet.CellRefersTo last last) : source ≠ cell := by
  rintro rfl
  exact h.not_reachesCycle (reachesCycle_of_cellRefersTo h.formula hchain hcycle)

theorem chain_of_cycle (h : sheet.Freezes frozen cell text number) {source last : Address}
    (hchain : ReflTransGen sheet.CellRefersTo source last)
    (hcycle : TransGen sheet.CellRefersTo last last) :
    ReflTransGen frozen.CellRefersTo source last := by
  induction hchain using ReflTransGen.head_induction_on with
  | refl => exact ReflTransGen.refl
  | head hstep hrest ih =>
      refine ReflTransGen.head (h.cellRefersTo_iff.mpr ⟨hstep, ?_, ?_⟩) ih
      · exact h.ne_of_chain (ReflTransGen.head hstep hrest) hcycle
      · exact h.ne_of_chain hrest hcycle

/-- Taking away the references of the frozen cell takes away no cycle, and no way to one. -/
theorem reachesCycle_iff (h : sheet.Freezes frozen cell text number) {formula : List Char} :
    frozen.ReachesCycle formula ↔ sheet.ReachesCycle formula := by
  constructor
  · rintro ⟨last, ⟨first, hrefers, hchain⟩, hcycle⟩
    have hstep : frozen.CellRefersTo ≤ sheet.CellRefersTo := fun _ _ hrefers =>
      (h.cellRefersTo_iff.mp hrefers).1
    refine ⟨last, ⟨first, (h.refersTo_iff.mp hrefers).1, ?_⟩, TransGen.mono hstep _ _ hcycle⟩
    exact ReflTransGen.mono hstep _ _ hchain
  · rintro ⟨last, ⟨first, hrefers, hchain⟩, hcycle⟩
    refine ⟨last, ⟨first, ?_, h.chain_of_cycle hchain hcycle⟩, ?_⟩
    · exact h.refersTo_iff.mpr ⟨hrefers, h.ne_of_chain hchain hcycle⟩
    · obtain ⟨next, hstep, hrest⟩ := TransGen.head'_iff.mp hcycle
      refine TransGen.head' (h.cellRefersTo_iff.mpr ⟨hstep, ?_, ?_⟩) (h.chain_of_cycle hrest hcycle)
      · exact h.ne_of_chain ReflTransGen.refl hcycle
      · exact h.ne_of_chain hrest hcycle

/-- A piece has the same text on both sheets: the frozen cell is the same number whether its
formula is evaluated or its text is read. -/
theorem pieceText_eq (h : sheet.Freezes frozen cell text number)
    {outcome : List Char → Except EvalError Binary64} {piece : Piece}
    (houtcome : ∀ callee, sheet.PieceCalls piece callee →
      outcome callee = (FormulaSheet.evaluate sheet {} callee []).result) :
    frozen.pieceText outcome piece =
      sheet.pieceText (fun callee => (FormulaSheet.evaluate sheet {} callee []).result) piece := by
  by_cases hcell : piece.address? = some cell
  · have hcall : sheet.PieceCalls piece text := ⟨cell, hcell, h.formula⟩
    rw [pieceText_of_pieceCalls hcall, h.outcome]
    cases piece with
    | gap text => cases hcell
    | token letters digits =>
        have hparts : Address.ofParts? letters digits = some cell := hcell
        simp only [pieceText, tokenReading, hparts, h.number, Reading.text]
  · have hreading : ∀ other, piece.address? = some other →
        sheet.reading other = frozen.reading other := by
      intro other hother
      refine (h.others other ?_).symm
      rintro rfl
      exact hcell hother
    exact (pieceText_of_reading hreading fun callee hcall => (houtcome callee hcall).symm).symm

/-- Every formula has the same outcome on both sheets. -/
theorem evaluate_result (h : sheet.Freezes frozen cell text number) (formula : List Char) :
    (FormulaSheet.evaluate frozen {} formula []).result =
      (FormulaSheet.evaluate sheet {} formula []).result := by
  by_cases hcycle : sheet.ReachesCycle formula
  · rw [evaluate_circular_iff.mpr hcycle, evaluate_circular_iff.mpr (h.reachesCycle_iff.mpr hcycle)]
  · revert formula
    refine acyclic_induction fun formula hcycle ih => ?_
    cases hbody : formulaBody? formula with
    | none => rw [evaluate_result_of_body_eq_none hbody, evaluate_result_of_body_eq_none hbody]
    | some body =>
        rw [evaluate_result_alone hbody hcycle,
          evaluate_result_alone hbody fun hfrozen => hcycle (h.reachesCycle_iff.mp hfrozen)]
        have hexpression := expressionOf_congr_pieceText fun piece hpiece =>
          h.pieceText_eq fun callee hcall => ih callee ⟨piece, hpiece, hcall⟩
        rw [hexpression]

end Freezes

end Sheet

section Cells

variable {sheet : Sheet} {row column : Nat} {text shown : String} {number : Binary64}

theorem formulaAt?_of_get? (hcell : sheet.get? row column = some text)
    (hformula : isFormula text = true) :
    sheet.formulaAt? ⟨column, row⟩ = some (trim text.toList) := by
  rw [Sheet.formulaAt?_eq_some_iff]
  exact ⟨by simp [Sheet.textAt?, hcell], isFormula_iff.mp hformula⟩

/-- An outcome that a text can stand for: a finite number, or an error that counts as zero. -/
structure Freezable (outcome : Except EvalError Binary64) : Prop where
  isFinite : ∀ number, outcome = .ok number → number.isFinite = true
  degradable : Degradable outcome

theorem freezable_ok_iff {number : Binary64} :
    Freezable (.ok number) ↔ number.isFinite = true :=
  ⟨fun h => h.isFinite number rfl, fun h =>
    ⟨fun _ hnumber => Except.ok.inj hnumber ▸ h, degradable_ok number⟩⟩

theorem freezable_error_iff {error : EvalError} :
    Freezable (.error error) ↔ error.isStructural = false :=
  ⟨fun h => degradable_error_iff.mp h.degradable, fun h =>
    ⟨fun _ hnumber => (nomatch hnumber), degradable_error_iff.mpr h⟩⟩

instance : (outcome : Except EvalError Binary64) → Decidable (Freezable outcome)
  | .ok _ => decidable_of_iff _ freezable_ok_iff.symm
  | .error _ => decidable_of_iff _ freezable_error_iff.symm

theorem outcomeText_of_freezable {outcome : Except EvalError Binary64} (h : Freezable outcome) :
    outcomeText outcome = .ok (outcomeValue outcome).text := by
  cases outcome with
  | ok number => rfl
  | error error =>
      rw [outcomeText, if_neg (by simp [freezable_error_iff.mp h]), outcomeValue, zero_text]

/-- The text that is shown for a formula reads as the number that the formula counts as. -/
theorem ofText_shownText (hformula : isFormula text = true)
    (houtcome : Freezable (evaluateFormula sheet {} text)) :
    Reading.ofText (trim (shownText sheet {} text).toList) =
      .number (outcomeValue (evaluateFormula sheet {} text)) := by
  rw [shownText, if_pos hformula, evaluateCell]
  cases hresult : evaluateFormula sheet {} text with
  | error error =>
      have hmarker : Reading.ofText (trim errorMarker.toList) = .number (Binary64.zero false) := by
        decide
      exact hmarker
  | ok number =>
      have hfinite := houtcome.isFinite number hresult
      have hmarker := (Binary64.isPlainNumeral_text hfinite).head?_ne_formulaMarker
      simp only [Binary64.numeral?, hfinite, if_true, String.toList_ofList]
      rw [Binary64.trim_text hfinite, Reading.ofText, if_neg hmarker,
        Binary64.parse?_text hfinite]
      rfl

/-- Putting the text that is shown for a formula into its cell freezes the cell. -/
theorem freezes_set (hcell : sheet.get? row column = some text) (hformula : isFormula text = true)
    (houtcome : Freezable (evaluateFormula sheet {} text)) :
    sheet.Freezes (sheet.set row column (shownText sheet {} text)) ⟨column, row⟩
      (trim text.toList) (outcomeValue (evaluateFormula sheet {} text)) where
  formula := formulaAt?_of_get? hcell hformula
  outcome := by rw [evaluate_trim]; exact outcomeText_of_freezable houtcome
  number := by rw [reading_set, if_pos rfl, ofText_shownText hformula houtcome]
  others := fun other hother => by rw [reading_set, if_neg hother]

/-- A text that reads as a number is shown as it is. -/
theorem shownText_of_ofText {options : EvalOptions}
    (h : Reading.ofText (trim shown.toList) = .number number) :
    shownText sheet options shown = shown := by
  refine if_neg fun hformula => ?_
  rw [Reading.ofText, if_pos (isFormula_iff.mp hformula)] at h
  cases h

end Cells

/-- Where a formula has a finite value or an error that counts as zero, its cell can hold the text
that is shown for it instead, and the evaluated sheet stays the same. -/
theorem evaluate_set_shown (sheet : Sheet) (row column : Nat) (text shown : String)
    (hcell : sheet.get? row column = some text) (hformula : isFormula text = true)
    (houtcome : Freezable (evaluateFormula sheet {} text))
    (hshown : (sheet.evaluate {}).get? row column = some shown) :
    (sheet.set row column shown).evaluate {} = sheet.evaluate {} := by
  have htext : shownText sheet {} text = shown := by
    rw [Sheet.evaluate, Sheet.get?_mapText, hcell] at hshown
    exact Option.some.inj hshown
  have hfreezes := freezes_set hcell hformula houtcome
  have hreading := ofText_shownText hformula houtcome
  rw [htext] at hfreezes hreading
  have hsame : shownText (sheet.set row column shown) {} = shownText sheet {} := by
    funext other
    have hresult : evaluateFormula (sheet.set row column shown) {} other =
        evaluateFormula sheet {} other := hfreezes.evaluate_result other.toList
    simp only [shownText, evaluateCell, hresult]
  calc (sheet.set row column shown).evaluate {}
      = (sheet.set row column shown).mapText (shownText sheet {}) := by
        rw [Sheet.evaluate, hsame]
    _ = (sheet.evaluate {}).set row column (shownText sheet {} shown) := Sheet.mapText_set _ _ _ _ _
    _ = (sheet.evaluate {}).set row column shown := by rw [shownText_of_ofText hreading]
    _ = sheet.evaluate {} := Sheet.set_get? hshown

/-- A1 is a quarter of B1, C1 refers to it twice, and D1 divides by zero. -/
def quarterSheet : Sheet :=
  ⟨[Row.empty, Row.ofList [(1, "=B1/4"), (2, "1"), (3, "=A1*A1+D1"), (4, "=A1/0")]]⟩

theorem evaluate_set_shown_quarter :
    isFormula "=B1/4" = true ∧ Freezable (evaluateFormula quarterSheet {} "=B1/4") ∧
      (quarterSheet.set 1 1 "0.25").evaluate {} = quarterSheet.evaluate {} := by
  have hcell : quarterSheet.get? 1 1 = some "=B1/4" := by decide
  have hformula : isFormula "=B1/4" = true := by decide
  have houtcome : Freezable (evaluateFormula quarterSheet {} "=B1/4") := by decide +kernel
  have hshown : (quarterSheet.evaluate {}).get? 1 1 = some "0.25" := by decide +kernel
  have hsame := evaluate_set_shown quarterSheet 1 1 "=B1/4" "0.25" hcell hformula houtcome hshown
  exact ⟨hformula, houtcome, hsame⟩

end FormulaSheet
