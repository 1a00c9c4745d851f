import FormulaSheet.CommandLine.Session
import FormulaSheet.Proofs.Json.RoundTrip
import FormulaSheet.Proofs.Sheet.Diagnosis

/-!
# What a document reports

A document tells in four places how its formulas came out: in the evaluated sheet, in the list of
its diagnostics, in its summary, and in a run of the program for a single formula. All four agree.

* `Document.Diagnosed`: the diagnostics are the formula cells that show the error marker.
* `Document.Counted`: the summary counts the formula cells and the diagnostics.
* `TellsShown`: a run for a formula prints what its cell shows, and fails if that is the marker.
* `Document.reports_agree`: every document is diagnosed and counted, and the runs on it tell what
  it shows.
-/

namespace FormulaSheet

open Text

namespace Document

/-- The cell at an address holds a formula, and the evaluated document shows the marker in its
place. -/
def MarkedAt (document : Document) (address : Address) : Prop :=
  (∃ text, document.sheet.HoldsFormula address text) ∧
    document.evaluated.get? address.row address.column = some errorMarker

/-- The diagnostics are the formula cells that show the marker, in the order of rows and columns,
each with its text and the reason. -/
structure Diagnosed (document : Document) : Prop where
  listed : ∀ address, (∃ d ∈ document.diagnostics, d.cell = address) ↔ document.MarkedAt address
  ordered : document.diagnostics.Pairwise fun d e => d.cell.Precedes e.cell
  stored : ∀ d ∈ document.diagnostics,
    document.sheet.get? d.cell.row d.cell.column = some d.formula
  reason : ∀ d ∈ document.diagnostics,
    evaluateCell document.sheet document.options d.formula = .error d.error
  ownReason : ∀ d ∈ document.diagnostics, d.error ≠ .emptyCell ∧ d.error ≠ .notAFormula

/-- The summary counts the formula cells and those among them that have no value. -/
structure Counted (document : Document) : Prop where
  formulas : document.summary.formulas =
    {address | ∃ text, document.sheet.HoldsFormula address text}.ncard
  errors : document.summary.errors = document.diagnostics.length
  marked : document.summary.errors = {address | document.MarkedAt address}.ncard
  errors_le : document.summary.errors ≤ document.summary.formulas

theorem listed_iff (document : Document) (address : Address) :
    (∃ d ∈ document.diagnostics, d.cell = address) ↔ document.MarkedAt address := by
  constructor
  · rintro ⟨d, hd, rfl⟩
    obtain ⟨hcell, herror⟩ := Sheet.mem_diagnose_iff.mp hd
    have hshown := (shownText_eq_errorMarker_iff hcell.2).mpr ⟨d.error, herror⟩
    refine ⟨⟨d.formula, hcell⟩, ?_⟩
    rw [evaluated, Sheet.get?_evaluate, hcell.1, Option.map_some, hshown]
  · rintro ⟨⟨text, hcell⟩, hmarked⟩
    rw [evaluated, Sheet.get?_evaluate, hcell.1, Option.map_some, Option.some.injEq,
      shownText_eq_errorMarker_iff hcell.2] at hmarked
    obtain ⟨error, herror⟩ := hmarked
    exact ⟨⟨address, text, error⟩, Sheet.mem_diagnose_iff.mpr ⟨hcell, herror⟩, rfl⟩

theorem diagnosed (document : Document) : document.Diagnosed where
  listed := document.listed_iff
  ordered := document.sheet.pairwise_diagnose document.options
  stored := fun _ hd => (Sheet.mem_diagnose_iff.mp hd).1.1
  reason := fun _ hd => (Sheet.mem_diagnose_iff.mp hd).2
  ownReason := by
    intro d hd
    obtain ⟨hcell, herror⟩ := Sheet.mem_diagnose_iff.mp hd
    have hkind := structural_or_arithmetic_of_evaluateCell hcell.2 herror
    constructor
    · intro h
      rw [h] at hkind
      exact absurd hkind (by decide)
    · intro h
      rw [h] at hkind
      exact absurd hkind (by decide)

theorem counted (document : Document) : document.Counted where
  formulas := document.sheet.formulaCount_eq_ncard
  errors := rfl
  marked := by
    have hset : {address | document.MarkedAt address} =
        {address | ∃ d ∈ document.diagnostics, d.cell = address} :=
      Set.ext fun address => (document.listed_iff address).symm
    rw [hset]
    exact (ncard_eq_length (document.sheet.pairwise_diagnose document.options)).symm
  errors_le := by
    show (document.sheet.diagnose document.options).length ≤ document.sheet.formulaCount
    rw [← Sheet.length_formulaCells]
    exact List.length_filterMap_le _ _

end Document

section Runs

variable {sheet : Sheet} {options : EvalOptions} {text : String}

/-- A run that began with some progress and was to evaluate a formula has told what is shown in
its place: it ends well and prints that, or it fails and prints nothing if that is the marker. -/
def TellsShown (before : Progress) (after : Nat × Progress) (shown : String) : Prop :=
  if shown = errorMarker then after.1 = 1 ∧ after.2.stdout = before.stdout
  else after.1 = 0 ∧ after.2.stdout = before.stdout ++ (shown ++ "\n")

/-- Completing a formula only takes the white space around it away. -/
theorem evaluateFormula_completeFormula (hformula : isFormula text = true) :
    evaluateFormula sheet options (completeFormula text) = evaluateFormula sheet options text := by
  rw [completeFormula, if_pos (isFormula_iff.mp hformula), evaluateFormula, formulaOutcome,
    String.toList_ofList]
  exact evaluate_trim []

/-- The line that is printed for a formula, if there is one, is the text of its cell. -/
theorem toOption_formulaLine (hformula : isFormula text = true) :
    (formulaLine sheet options (completeFormula text)).toOption =
      (evaluateCell sheet options text).toOption.map fun shown => shown ++ "\n" := by
  unfold formulaLine evaluateCell
  rw [evaluateFormula_completeFormula hformula]
  cases evaluateFormula sheet options text with
  | error error => rfl
  | ok number =>
      cases h : number.numeral? with
      | none => simp [h, Except.toOption]
      | some shown => simp [h, Except.toOption]

theorem tellsShown_runFormula {cli : CommandOptions} {surroundings : Surroundings}
    (progress : Progress) (hformula : isFormula text = true)
    (hload : (loadSheet cli surroundings).result = .ok sheet) :
    TellsShown progress (runFormula cli options surroundings progress text)
      (shownText sheet options text) := by
  have hline : (formulaLine sheet options (completeFormula text)).toOption =
      (evaluateCell sheet options text).toOption.map fun shown => shown ++ "\n" :=
    toOption_formulaLine hformula
  unfold TellsShown runFormula shownText
  rw [if_pos hformula]
  simp only [hload]
  cases hcell : evaluateCell sheet options text with
  | ok shown =>
      cases hrun : formulaLine sheet options (completeFormula text) with
      | error failure => simp [hcell, hrun, Except.toOption] at hline
      | ok line =>
          have hshown : line = shown ++ "\n" := by
            simpa [hcell, hrun, Except.toOption] using hline
          rw [if_neg (evaluateCell_ne_errorMarker hcell), hshown]
          exact ⟨rfl, rfl⟩
  | error error =>
      cases hrun : formulaLine sheet options (completeFormula text) with
      | ok line => simp [hcell, hrun, Except.toOption] at hline
      | error failure =>
          rw [if_pos rfl]
          exact ⟨rfl, rfl⟩

/-- A sheet that comes as JSON on standard input is loaded as it was written. -/
theorem loadDocument_write {cli : CommandOptions} {surroundings : Surroundings} {pretty : Bool}
    (hword : ∀ row ∈ sheet.rows, ∀ cell ∈ row.cells, cell.1 < wordLimit)
    (hinput : cli.input.filter (· ≠ "-") = none) (hformat : cli.streamFormat = .json)
    (hstdin : surroundings.stdin = .ofText (Json.write pretty sheet)) :
    (loadDocument cli surroundings).result = .ok { sheet := sheet } := by
  have hread : SheetFormat.json.read surroundings.stdin = .ok sheet := by
    rw [hstdin, SheetFormat.read, Content.ofText, Content.toBytes,
      Json.readBytes_of_writesSheet (Json.writesSheet_write pretty sheet) hword]
    rfl
  unfold loadDocument
  rw [hinput, hformat, hread]

theorem loadSheet_write {cli : CommandOptions} {surroundings : Surroundings} {pretty : Bool}
    (hword : ∀ row ∈ sheet.rows, ∀ cell ∈ row.cells, cell.1 < wordLimit)
    (hinput : cli.input = some "-") (hformat : cli.streamFormat = .json)
    (hstdin : surroundings.stdin = .ofText (Json.write pretty sheet)) :
    (loadSheet cli surroundings).result = .ok sheet := by
  have hnone : cli.input.filter (· ≠ "-") = none := by simp [hinput]
  have hsome : ¬ cli.input.isNone = true := by simp [hinput]
  rw [loadSheet, if_neg hsome]
  simp only [loadDocument_write hword hnone hformat hstdin, Except.map]

end Runs

/-- Whatever the sheet and the limits are, a document lists the formula cells that show the marker,
counts them right, and a run for the formula of any cell tells what the cell shows. -/
theorem Document.reports_agree (document : Document) :
    document.Diagnosed ∧ document.Counted ∧
      ∀ address text, document.sheet.HoldsFormula address text →
        ∃ shown, document.evaluated.get? address.row address.column = some shown ∧
          ∀ cli surroundings progress, (loadSheet cli surroundings).result = .ok document.sheet →
            TellsShown progress (runFormula cli document.options surroundings progress text)
              shown := by
  refine ⟨document.diagnosed, document.counted, ?_⟩
  intro address text hcell
  refine ⟨shownText document.sheet document.options text, ?_, ?_⟩
  · rw [evaluated, Sheet.get?_evaluate, hcell.1, Option.map_some]
  · exact fun _ _ progress hload => tellsShown_runFormula progress hcell.2 hload

/-- A document with a formula that has no value, others that have one, and a text like the error
marker that is no formula. -/
def mixedDocument : Document where
  sheet :=
    { rows :=
        [Row.ofList [(1, "#ERROR"), (2, " =1/0 ")], Row.ofList [(1, "=2*3"), (3, "=A1+A7")]] }

/-- The document's sheet on standard input, and nothing else. -/
def mixedSurroundings : Surroundings where
  stdin := .ofText (Json.write true mixedDocument.sheet)
  store := {}
  directories := { home := "/" }

def stdinOptions : CommandOptions where
  input := some "-"

def noProgress : Progress where
  store := {}

theorem Document.reports_agree_mixed :
    mixedDocument.diagnostics = [⟨⟨2, 0⟩, " =1/0 ", .divisionByZero⟩] ∧
      mixedDocument.Diagnosed ∧ mixedDocument.Counted ∧
        TellsShown noProgress
          (runFormula stdinOptions {} mixedSurroundings noProgress " =1/0 ") errorMarker ∧
        TellsShown noProgress
          (runFormula stdinOptions {} mixedSurroundings noProgress "=2*3") "6" := by
  obtain ⟨hdiagnosed, hcounted, hruns⟩ := Document.reports_agree mixedDocument
  have hload : (loadSheet stdinOptions mixedSurroundings).result = .ok mixedDocument.sheet :=
    loadSheet_write (by decide) rfl rfl rfl
  refine ⟨by decide +kernel, hdiagnosed, hcounted, ?_, ?_⟩
  · have hmarked : mixedDocument.evaluated.get? 0 2 = some errorMarker := by decide +kernel
    obtain ⟨shown, hshown, hrun⟩ := hruns ⟨2, 0⟩ " =1/0 " ⟨by decide, by decide⟩
    cases hshown.symm.trans hmarked
    exact hrun _ _ _ hload
  · have hvalue : mixedDocument.evaluated.get? 1 1 = some "6" := by decide +kernel
    obtain ⟨shown, hshown, hrun⟩ := hruns ⟨1, 1⟩ "=2*3" ⟨by decide, by decide⟩
    cases hshown.symm.trans hvalue
    exact hrun _ _ _ hload

end FormulaSheet
