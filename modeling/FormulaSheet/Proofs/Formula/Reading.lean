import FormulaSheet.Formula.Evaluation
import FormulaSheet.Proofs.Sheet.Replace
import FormulaSheet.Proofs.Text.Trim

/-!
# What addresses read as

To a formula, a cell is either a number or another formula: a text that is no number, a blank
text and a missing cell all count as zero. This module names that view of a sheet and the parts
of a formula that look at it.

* `Sheet.reading`, `Sheet.formulaAt?`: what stands at an address.
* `formulaBody?`, `formulaPieces`: the text behind the marker of a formula, and its pieces.
* `Sheet.mem_formulaCells_iff`: which cells are listed as formula cells.
* `Sheet.formulaTexts`: the trimmed texts of all formula cells; there are
  `Sheet.formulaCount` of them.
-/

namespace FormulaSheet

open Text

/-- What a formula sees of a cell. -/
inductive Reading
  /-- The cell counts as a number. -/
  | number (value : Binary64)
  /-- The cell holds a formula. -/
  | formula (text : List Char)
  deriving DecidableEq

/-- The reading of a trimmed text; one that denotes no number counts as zero. -/
def Reading.ofText (text : List Char) : Reading :=
  if text.head? = some formulaMarker then .formula text
  else .number ((Binary64.parse? text).getD (Binary64.zero false))

namespace Sheet

/-- The trimmed text of the cell at an address. -/
def textAt? (sheet : Sheet) (address : Address) : Option (List Char) :=
  (sheet.get? address.row address.column).map fun text => trim text.toList

/-- The reading of an address; one without a cell counts as zero. -/
def reading (sheet : Sheet) (address : Address) : Reading :=
  match sheet.textAt? address with
  | some text => .ofText text
  | none => .number (Binary64.zero false)

/-- The trimmed text of the formula in the cell at an address. -/
def formulaAt? (sheet : Sheet) (address : Address) : Option (List Char) :=
  (sheet.textAt? address).filter fun text => text.head? = some formulaMarker

theorem formulaAt?_eq_some_iff {sheet : Sheet} {address : Address} {text : List Char} :
    sheet.formulaAt? address = some text ↔
      sheet.textAt? address = some text ∧ text.head? = some formulaMarker := by
  simp [formulaAt?, Option.filter_eq_some_iff]

theorem reading_eq_formula_iff {sheet : Sheet} {address : Address} {text : List Char} :
    sheet.reading address = .formula text ↔ sheet.formulaAt? address = some text := by
  rw [formulaAt?_eq_some_iff]
  unfold reading Reading.ofText
  cases sheet.textAt? address with
  | none => simp
  | some found =>
      by_cases h : found.head? = some formulaMarker
      · simp only [h, if_true, Reading.formula.injEq, Option.some.injEq]
        constructor
        · rintro rfl
          exact ⟨rfl, h⟩
        · exact And.left
      · simp only [h, if_false, reduceCtorEq, Option.some.injEq, false_iff]
        rintro ⟨rfl, hmarker⟩
        exact h hmarker

theorem trim_of_formulaAt? {sheet : Sheet} {address : Address} {text : List Char}
    (h : sheet.formulaAt? address = some text) : trim text = text := by
  have htext := (formulaAt?_eq_some_iff.mp h).1
  unfold textAt? at htext
  obtain ⟨raw, -, rfl⟩ := Option.map_eq_some_iff.mp htext
  exact trim_trim _

end Sheet

/-- The text behind the marker of a formula. -/
def formulaBody? (formula : List Char) : Option (List Char) :=
  match trim formula with
  | [] => none
  | marker :: body => if marker = formulaMarker then some body else none

/-- The pieces of the body of a formula. -/
def formulaPieces (formula : List Char) : List Piece :=
  ((formulaBody? formula).map Piece.split).getD []

theorem formulaBody?_eq_some_iff {formula body : List Char} :
    formulaBody? formula = some body ↔ trim formula = formulaMarker :: body := by
  unfold formulaBody?
  cases trim formula with
  | nil => simp
  | cons marker rest =>
      by_cases h : marker = formulaMarker
      · simp [h]
      · simp [h]

@[simp] theorem formulaBody?_trim (formula : List Char) :
    formulaBody? (trim formula) = formulaBody? formula := by
  simp [formulaBody?]

@[simp] theorem formulaPieces_trim (formula : List Char) :
    formulaPieces (trim formula) = formulaPieces formula := by
  simp [formulaPieces]

theorem formulaPieces_of_body {formula body : List Char} (h : formulaBody? formula = some body) :
    formulaPieces formula = Piece.split body := by
  simp [formulaPieces, h]

theorem isSome_formulaBody?_iff {formula : List Char} :
    (formulaBody? formula).isSome = true ↔ (trim formula).head? = some formulaMarker := by
  unfold formulaBody?
  cases trim formula with
  | nil => simp
  | cons marker rest =>
      by_cases h : marker = formulaMarker <;> simp [h]

/-- A text is a formula exactly if its trimmed text begins with the marker. -/
theorem isFormula_iff {text : String} :
    isFormula text = true ↔ (trim text.toList).head? = some formulaMarker := by
  have hfront : text.front = text.toList.head?.getD default := by
    rw [String.front_eq, String.front?_eq]
  have hmarker : isBlank formulaMarker = false := by decide
  unfold isFormula isFormulaText
  rw [head?_trim, hfront]
  cases text.toList with
  | nil => decide
  | cons c rest =>
      by_cases h : isBlank c = true
      · simp [h]
      · have hstart : trimStart (c :: rest) = c :: rest := trimStart_cons (by simpa using h) rest
        rw [hstart, if_neg (by simpa using h), decide_eq_true_iff]
        simp

theorem isFormula_iff_body {text : String} :
    isFormula text = true ↔ ∃ body, formulaBody? text.toList = some body := by
  rw [isFormula_iff, ← isSome_formulaBody?_iff, Option.isSome_iff_exists]

namespace Sheet

/-- The trimmed texts of the formula cells. -/
def formulaTexts (sheet : Sheet) : List (List Char) :=
  sheet.formulaCells.map fun cell => trim cell.2.toList

theorem length_formulaCells (sheet : Sheet) :
    sheet.formulaCells.length = sheet.formulaCount := by
  have hrows : ∀ (rows : List Row) (start : Nat),
      ((rows.zipIdx start).map fun entry =>
        (entry.1.cells.filter fun cell => isFormula cell.2).map fun cell =>
          ((⟨cell.1, entry.2⟩ : Address), cell.2)).flatten.length =
        (rows.map fun row => row.cells.countP fun cell => isFormula cell.2).foldr (· + ·) 0 := by
    intro rows
    induction rows with
    | nil => intro start; rfl
    | cons row rest ih =>
        intro start
        rw [List.zipIdx_cons, List.map_cons, List.flatten_cons, List.length_append, ih (start + 1),
          List.length_map, ← List.countP_eq_length_filter]
        rfl
  exact hrows sheet.rows 0

/-- The formula cells are the cells that hold a formula. -/
theorem mem_formulaCells_iff {sheet : Sheet} {address : Address} {text : String} :
    (address, text) ∈ sheet.formulaCells ↔
      sheet.get? address.row address.column = some text ∧ isFormula text = true := by
  unfold formulaCells
  rw [List.mem_flatten]
  constructor
  · rintro ⟨_, hrow, hcell⟩
    obtain ⟨⟨row, index⟩, hindex, rfl⟩ := List.mem_map.mp hrow
    obtain ⟨cell, hmem, hpair⟩ := List.mem_map.mp hcell
    obtain ⟨hmem, hformula⟩ := List.mem_filter.mp hmem
    cases hpair
    exact ⟨Option.bind_eq_some_iff.mpr
      ⟨row, List.mk_mem_zipIdx_iff_getElem?.mp hindex, Row.get?_eq_some_iff.mpr hmem⟩, hformula⟩
  · rintro ⟨hcell, hformula⟩
    obtain ⟨row, hrow, hmem⟩ := Option.bind_eq_some_iff.mp hcell
    exact ⟨_, List.mem_map.mpr ⟨(row, address.row), List.mk_mem_zipIdx_iff_getElem?.mpr hrow, rfl⟩,
      List.mem_map.mpr
        ⟨(address.column, text), List.mem_filter.mpr ⟨Row.get?_eq_some_iff.mp hmem, hformula⟩, rfl⟩⟩

theorem mem_formulaCells_of_formulaAt? {sheet : Sheet} {address : Address} {text : List Char}
    (h : sheet.formulaAt? address = some text) :
    ∃ raw, (address, raw) ∈ sheet.formulaCells ∧ trim raw.toList = text := by
  obtain ⟨htext, hmarker⟩ := formulaAt?_eq_some_iff.mp h
  obtain ⟨raw, hraw, rfl⟩ := Option.map_eq_some_iff.mp htext
  exact ⟨raw, mem_formulaCells_iff.mpr ⟨hraw, isFormula_iff.mpr hmarker⟩, rfl⟩

theorem mem_formulaTexts_of_formulaAt? {sheet : Sheet} {address : Address} {text : List Char}
    (h : sheet.formulaAt? address = some text) : text ∈ sheet.formulaTexts := by
  obtain ⟨raw, hmem, rfl⟩ := mem_formulaCells_of_formulaAt? h
  exact List.mem_map.mpr ⟨_, hmem, rfl⟩

end Sheet

end FormulaSheet
