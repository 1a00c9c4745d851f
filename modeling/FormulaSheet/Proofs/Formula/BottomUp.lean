import Mathlib
import FormulaSheet.Proofs.Formula.Depth
import FormulaSheet.Proofs.Formula.History

/-!
# Evaluation from the bottom up

Formula cells can also be evaluated one after the other, each once, in any order that puts a cell
behind those that it refers to; the outcomes are stored, and every token is replaced by what is
stored for its target. Away from cycles this gives the same outcomes as following the references
anew for each formula: what is in flight has no influence on an outcome.

* `Sheet.evaluateInOrder`: the stored outcomes of cells in a given order.
* `Sheet.EvaluationOrder`: the orders in which the cells that a formula reaches can be evaluated.
* `evaluateFormula_bottomUp`: such orders exist, and all give the outcomes of `evaluateFormula`.
-/

namespace FormulaSheet

open Text Relation

/-- Outcomes of formula cells, the latest first. -/
abbrev StoredOutcomes : Type := List (Address × Except EvalError Binary64)

namespace Sheet

/-- The text that takes the place of a piece, given stored outcomes. A token of a formula cell
becomes the text of the stored number, or zero if an error is stored. -/
def storedText (sheet : Sheet) (stored : StoredOutcomes) : Piece → List Char
  | .gap text => text
  | .token letters digits =>
      match Address.ofParts? letters digits with
      | none => zeroText
      | some cell =>
          match sheet.reading cell with
          | .number value => value.text
          | .formula _ =>
              match stored.lookup cell with
              | some (.ok value) => value.text
              | _ => zeroText

/-- The outcome of a formula, given stored outcomes of the cells that it refers to. -/
def evaluateFrom (sheet : Sheet) (stored : StoredOutcomes) (formula : List Char) :
    Except EvalError Binary64 :=
  Expression.evaluate ((formulaPieces formula).flatMap (sheet.storedText stored))

/-- Store the outcome of a formula cell. -/
def storeOutcome (sheet : Sheet) (stored : StoredOutcomes) (cell : Address) : StoredOutcomes :=
  match sheet.formulaAt? cell with
  | some formula => (cell, sheet.evaluateFrom stored formula) :: stored
  | none => stored

/-- The stored outcomes of cells that are evaluated one after the other. -/
def evaluateInOrder (sheet : Sheet) (order : List Address) : StoredOutcomes :=
  order.foldl sheet.storeOutcome []

/-- The cells that a formula reaches, each once and each behind the cells that it refers to. -/
structure EvaluationOrder (sheet : Sheet) (formula : List Char) (order : List Address) : Prop where
  nodup : order.Nodup
  mem_iff : ∀ cell, cell ∈ order ↔ sheet.Reaches formula cell
  behind : ∀ before cell rest, order = before ++ cell :: rest →
    ∀ target, sheet.CellRefersTo cell target → target ∈ before

end Sheet

section Context

variable {sheet : Sheet}

/-- Away from cycles, an unlimited evaluation has no structural error. -/
theorem degradable_of_not_meetsCycle {formula : List Char} {inFlight : List (List Char)}
    (h : ¬ sheet.MeetsCycle formula inFlight) :
    Degradable (evaluate sheet {} formula inFlight).result := by
  by_contra hfails
  exact h (meetsCycle_of_circular formula inFlight (circular_of_not_degradable hfails))

/-- Where a cycle can be reached, it is met whatever is in flight. -/
theorem meetsCycle_of_reachesCycle {formula : List Char} {inFlight : List (List Char)}
    (h : sheet.ReachesCycle formula) : sheet.MeetsCycle formula inFlight := by
  obtain ⟨text, hchain, hmem | hcycle⟩ := meetsCycle_nil_iff.mpr h
  · cases hmem
  · exact ⟨text, hchain, Or.inr hcycle⟩

/-- Away from cycles, a nested evaluation is the evaluation of the formula by itself. -/
theorem evaluate_result_eq_alone {formula : List Char} {inFlight : List (List Char)}
    (h : ¬ sheet.MeetsCycle formula inFlight) :
    (evaluate sheet {} formula inFlight).result = (evaluate sheet {} formula []).result :=
  (evaluate_result_of_sublist formula inFlight (degradable_of_not_meetsCycle h)
    (List.nil_sublist _)).symm

/-- Away from cycles, the outcome of a formula by itself comes from the outcomes that the formulas
that it calls have by themselves. -/
theorem evaluate_result_alone {formula body : List Char} (hbody : formulaBody? formula = some body)
    (hcycle : ¬ sheet.ReachesCycle formula) :
    (evaluate sheet {} formula []).result =
      sheet.expressionOf (fun callee => (evaluate sheet {} callee []).result)
        (formulaPieces formula) >>= Expression.evaluate := by
  rw [← meetsCycle_nil_iff, meetsCycle_iff, not_or] at hcycle
  rw [evaluate_result_of_body hbody, if_neg hcycle.1]
  dsimp only [EvalOptions.exceeded?, Option.filter]
  rw [Sheet.expressionOf_congr]
  intro piece hpiece callee hcall
  exact evaluate_result_eq_alone fun hmeets =>
    hcycle.2 ⟨callee, ⟨piece, hpiece, hcall⟩, hmeets⟩

/-- Induction away from cycles: a formula may rely on the formulas that it calls. -/
theorem acyclic_induction {P : List Char → Prop}
    (step : ∀ formula, ¬ sheet.ReachesCycle formula →
      (∀ callee, sheet.Calls formula callee → P callee) → P formula)
    (formula : List Char) (hcycle : ¬ sheet.ReachesCycle formula) : P formula := by
  have hmeets : ∀ formula inFlight, ¬ sheet.MeetsCycle formula inFlight → P formula := by
    intro formula inFlight
    induction formula, inFlight using nesting_induction sheet with
    | step formula inFlight ih =>
        intro hmeets
        have hcycle : ¬ sheet.ReachesCycle formula := fun h =>
          hmeets (meetsCycle_of_reachesCycle h)
        rw [meetsCycle_iff, not_or] at hmeets
        exact step formula hcycle fun callee hcall =>
          ih callee hcall hmeets.1 fun h => hmeets.2 ⟨callee, hcall, h⟩
  exact hmeets formula [] fun h => hcycle (meetsCycle_nil_iff.mp h)

end Context

section Storing

variable {sheet : Sheet} {stored : StoredOutcomes}

/-- The outcomes of these cells are stored. -/
def Stores (sheet : Sheet) (stored : StoredOutcomes) (cells : List Address) : Prop :=
  ∀ cell ∈ cells, ∀ text, sheet.formulaAt? cell = some text →
    stored.lookup cell = some (evaluate sheet {} text []).result

theorem pieceText_eq_storedText {piece : Piece} {outcome : List Char → Except EvalError Binary64}
    (hdegradable : ∀ callee, sheet.PieceCalls piece callee → Degradable (outcome callee))
    (hstored : ∀ cell text, piece.address? = some cell → sheet.formulaAt? cell = some text →
      stored.lookup cell = some (outcome text)) :
    sheet.pieceText outcome piece = .ok (sheet.storedText stored piece) := by
  cases piece with
  | gap text => rfl
  | token letters digits =>
      cases hparts : Address.ofParts? letters digits with
      | none =>
          simp [Sheet.pieceText, Sheet.tokenReading, Sheet.storedText, hparts, Reading.text,
            zero_text]
      | some cell =>
          cases hreading : sheet.reading cell with
          | number value =>
              simp [Sheet.pieceText, Sheet.tokenReading, Sheet.storedText, hparts, hreading,
                Reading.text]
          | formula text =>
              have hcell := Sheet.reading_eq_formula_iff.mp hreading
              have hcall : sheet.PieceCalls (.token letters digits) text := ⟨cell, hparts, hcell⟩
              have hlookup := hstored cell text hparts hcell
              rw [Sheet.pieceText_of_pieceCalls hcall]
              simp only [Sheet.storedText, hparts, hreading, hlookup]
              cases hresult : outcome text with
              | ok value => rfl
              | error error =>
                  have hs := hdegradable text hcall error hresult
                  simp [outcomeText, hs]

/-- A formula has the same outcome by itself and from the stored outcomes of the cells that it
refers to. -/
theorem evaluateFrom_eq {formula body : List Char} (hbody : formulaBody? formula = some body)
    (hcycle : ¬ sheet.ReachesCycle formula)
    (hstored : ∀ cell, sheet.RefersTo formula cell → Stores sheet stored [cell]) :
    sheet.evaluateFrom stored formula = (evaluate sheet {} formula []).result := by
  rw [← meetsCycle_nil_iff, meetsCycle_iff, not_or] at hcycle
  have hcallee : ∀ piece ∈ formulaPieces formula, ∀ callee, sheet.PieceCalls piece callee →
      ¬ sheet.MeetsCycle callee [trim formula] := fun piece hpiece callee hcall hmeets =>
    hcycle.2 ⟨callee, ⟨piece, hpiece, hcall⟩, hmeets⟩
  have hexpression : sheet.expressionOf (fun callee =>
      (evaluate sheet {} callee [trim formula]).result) (formulaPieces formula) =
        .ok ((formulaPieces formula).flatMap (sheet.storedText stored)) := by
    refine Sheet.expressionOf_eq_ok fun piece hpiece => pieceText_eq_storedText ?_ ?_
    · intro callee hcall
      exact degradable_of_not_meetsCycle (hcallee piece hpiece callee hcall)
    · intro cell text hnamed hcell
      rw [evaluate_result_eq_alone (hcallee piece hpiece text ⟨cell, hnamed, hcell⟩)]
      have hrefers : sheet.RefersTo formula cell :=
        ⟨namesAddress_iff.mpr ⟨piece, hpiece, hnamed⟩, by simp [hcell]⟩
      exact hstored cell hrefers cell List.mem_cons_self text hcell
  rw [evaluate_result_of_body hbody, if_neg hcycle.1]
  dsimp only [EvalOptions.exceeded?, Option.filter]
  rw [hexpression]
  rfl

theorem not_reachesCycle_of_reaches {formula text : List Char} {cell : Address}
    (hcycle : ¬ sheet.ReachesCycle formula) (hreaches : sheet.Reaches formula cell)
    (hcell : sheet.formulaAt? cell = some text) : ¬ sheet.ReachesCycle text := by
  rintro ⟨target, ⟨first, hrefers, hchain⟩, hloop⟩
  obtain ⟨start, hstart, hpath⟩ := hreaches
  refine hcycle ⟨target, ⟨start, hstart, ?_⟩, hloop⟩
  exact (hpath.tail ⟨text, hcell, hrefers⟩).trans hchain

/-- Storing the outcome of a cell behind those that it refers to. -/
theorem stores_storeOutcome {cells : List Address} {cell : Address}
    (hstored : Stores sheet stored cells)
    (hbehind : ∀ target, sheet.CellRefersTo cell target → target ∈ cells)
    (hcycle : ∀ text, sheet.formulaAt? cell = some text → ¬ sheet.ReachesCycle text) :
    Stores sheet (sheet.storeOutcome stored cell) (cells ++ [cell]) := by
  intro other hother text hcell
  unfold Sheet.storeOutcome
  by_cases heq : other = cell
  · subst heq
    simp only [hcell, List.lookup_cons_self]
    obtain ⟨body, hbody⟩ : ∃ body, formulaBody? text = some body := by
      rw [← Option.isSome_iff_exists, isSome_formulaBody?_iff, Sheet.trim_of_formulaAt? hcell]
      exact (Sheet.formulaAt?_eq_some_iff.mp hcell).2
    rw [evaluateFrom_eq hbody (hcycle text hcell)]
    intro target htarget found hfound
    rw [List.mem_singleton.mp hfound]
    exact hstored target (hbehind target ⟨text, hcell, htarget⟩)
  · have hmem : other ∈ cells := by simpa [heq] using hother
    have hlookup := hstored other hmem text hcell
    cases sheet.formulaAt? cell with
    | none => exact hlookup
    | some formula =>
        have hne : (other == cell) = false := by simpa using heq
        simp [List.lookup_cons, hne, hlookup]

/-- What is stored in an order that puts cells behind those that they refer to. -/
theorem stores_evaluateInOrder {order : List Address}
    (hbehind : ∀ before cell rest, order = before ++ cell :: rest →
      ∀ target, sheet.CellRefersTo cell target → target ∈ before)
    (hcycle : ∀ cell ∈ order, ∀ text, sheet.formulaAt? cell = some text →
      ¬ sheet.ReachesCycle text) :
    Stores sheet (sheet.evaluateInOrder order) order := by
  -- The invariant of the run: what is stored so far are the outcomes of the cells so far.
  have hrun : ∀ rest before stored, order = before ++ rest → Stores sheet stored before →
      Stores sheet (rest.foldl sheet.storeOutcome stored) order := by
    intro rest
    induction rest with
    | nil =>
        intro before stored horder hstored
        rw [horder, List.append_nil]
        exact hstored
    | cons cell rest ih =>
        intro before stored horder hstored
        refine ih (before ++ [cell]) _ (by simp [horder]) ?_
        exact stores_storeOutcome hstored (hbehind before cell rest horder)
          (hcycle cell (by simp [horder]))
  exact hrun order [] [] rfl fun cell hcell => absurd hcell List.not_mem_nil

end Storing

section Orders

variable {sheet : Sheet} {formula : List Char}

/-- The height of the formula in a cell. -/
noncomputable def Sheet.cellHeight (sheet : Sheet) (cell : Address) : ℕ∞ :=
  ((sheet.formulaAt? cell).map sheet.chainHeight).getD 0

theorem cellHeight_lt {source target : Address} (hrefers : sheet.CellRefersTo source target)
    (hcycle : ∀ text, sheet.formulaAt? target = some text → ¬ sheet.ReachesCycle text) :
    sheet.cellHeight target < sheet.cellHeight source := by
  obtain ⟨text, hsource, htarget⟩ := hrefers
  obtain ⟨callee, hcallee⟩ := Option.isSome_iff_exists.mp htarget.2
  simp only [Sheet.cellHeight, hsource, hcallee, Option.map_some, Option.getD_some]
  exact Sheet.chainHeight_lt_of_calls (Sheet.calls_of_refersTo htarget hcallee)
    fun htop => hcycle callee hcallee (Sheet.chainHeight_eq_top_iff.mp htop)

open Classical in
/-- Away from cycles, the cells that a formula reaches can be evaluated by increasing height. -/
theorem exists_evaluationOrder (hcycle : ¬ sheet.ReachesCycle formula) :
    ∃ order, sheet.EvaluationOrder formula order := by
  let cells := ((sheet.formulaCells.map Prod.fst).filter (sheet.Reaches formula)).dedup
  let lower := fun a b => sheet.cellHeight a ≤ sheet.cellHeight b
  have : Std.Total lower := ⟨fun a b => le_total (sheet.cellHeight a) (sheet.cellHeight b)⟩
  have : IsTrans Address lower := ⟨fun _ _ _ hab hbc => le_trans hab hbc⟩
  have hmem : ∀ cell, cell ∈ cells.insertionSort lower ↔ sheet.Reaches formula cell := by
    intro cell
    simp only [cells, List.mem_insertionSort, List.mem_dedup, List.mem_filter, decide_eq_true_eq,
      and_iff_right_iff_imp]
    intro hreaches
    obtain ⟨callee, hcell, -⟩ := Sheet.calls_of_reaches hreaches
    obtain ⟨raw, hraw, -⟩ := Sheet.mem_formulaCells_of_formulaAt? hcell
    exact List.mem_map.mpr ⟨_, hraw, rfl⟩
  refine ⟨cells.insertionSort lower, ?_, hmem, ?_⟩
  · exact (List.perm_insertionSort lower cells).nodup_iff.mpr (List.nodup_dedup _)
  · intro before cell rest horder target hrefers
    have hsorted := List.pairwise_insertionSort lower cells
    rw [horder] at hsorted
    have hreaches : sheet.Reaches formula cell := by
      rw [← hmem, horder]
      simp
    have htarget := hreaches.tail hrefers
    have hlt := cellHeight_lt hrefers fun text htext =>
      not_reachesCycle_of_reaches hcycle htarget htext
    have hin : target ∈ before ++ cell :: rest := by rwa [← horder, hmem]
    rcases List.mem_append.mp hin with hbefore | hin
    · exact hbefore
    · -- A target that stood behind its cell would be as high as the cell, but it is lower.
      rcases List.mem_cons.mp hin with rfl | hrest
      · exact absurd hlt (lt_irrefl _)
      · have hle := (List.pairwise_cons.mp (List.pairwise_append.mp hsorted).2.1).1 target hrest
        exact absurd hlt (not_lt.mpr hle)

end Orders

section Agreement

variable {sheet : Sheet} {formula : String}

/-- Every order of evaluation stores the outcomes of the cells, and gives that of the formula. -/
theorem evaluationOrder_outcomes (hformula : isFormula formula = true)
    (hcycle : ¬ sheet.ReachesCycle formula.toList) {order : List Address}
    (horder : sheet.EvaluationOrder formula.toList order) :
    sheet.evaluateFrom (sheet.evaluateInOrder order) formula.toList =
        evaluateFormula sheet {} formula ∧
      ∀ cell text, sheet.Reaches formula.toList cell →
        sheet.get? cell.row cell.column = some text →
          (sheet.evaluateInOrder order).lookup cell = some (evaluateFormula sheet {} text) := by
  have hstores : Stores sheet (sheet.evaluateInOrder order) order :=
    stores_evaluateInOrder horder.behind fun cell hmem text hcell =>
      not_reachesCycle_of_reaches hcycle ((horder.mem_iff cell).mp hmem) hcell
  constructor
  · obtain ⟨body, hbody⟩ := isFormula_iff_body.mp hformula
    refine evaluateFrom_eq hbody hcycle fun cell hrefers found hfound => ?_
    rw [List.mem_singleton.mp hfound]
    exact hstores cell ((horder.mem_iff cell).mpr ⟨cell, hrefers, ReflTransGen.refl⟩)
  · intro cell text hreaches htext
    obtain ⟨callee, hcell, -⟩ := Sheet.calls_of_reaches hreaches
    rw [hstores cell ((horder.mem_iff cell).mpr hreaches) callee hcell]
    have htrim : trim text.toList = callee := by
      have h := (Sheet.formulaAt?_eq_some_iff.mp hcell).1
      simpa [Sheet.textAt?, htext] using h
    rw [← htrim, evaluate_trim]
    rfl

/-- In every set of formulas in flight to which no chain of calls leads, the outcome is that of
the formula by itself. -/
theorem evaluate_result_of_unreachable (hcycle : ¬ sheet.ReachesCycle formula.toList)
    {inFlight : List (List Char)}
    (hclear : ∀ text ∈ inFlight, ¬ ReflTransGen sheet.Calls (trim formula.toList) text) :
    (evaluate sheet {} formula.toList inFlight).result = evaluateFormula sheet {} formula := by
  refine evaluate_result_eq_alone ?_
  rintro ⟨text, hchain, hmem | hloop⟩
  · exact hclear text hmem hchain
  · exact hcycle (meetsCycle_nil_iff.mp ⟨text, hchain, Or.inr hloop⟩)

/-- Whatever comes in flight in the course of an evaluation has the outcome that it has by
itself. -/
theorem evaluate_result_of_entered (hcycle : ¬ sheet.ReachesCycle formula.toList)
    {text : List Char} {inFlight : List (List Char)}
    (h : .entered (text :: inFlight) ∈ (formulaOutcome sheet {} formula).history) :
    (evaluate sheet {} text inFlight).result =
      evaluateFormula sheet {} (String.ofList text) := by
  have hmeets : ¬ sheet.MeetsCycle formula.toList [] := fun h =>
    hcycle (meetsCycle_nil_iff.mp h)
  obtain ⟨found, before, heq, hfound⟩ := not_meetsCycle_of_entered formula.toList [] hmeets h
  cases heq
  rw [evaluate_result_eq_alone hfound, evaluateFormula, formulaOutcome, String.toList_ofList]

end Agreement

/-- Away from cycles, following references is evaluation from the bottom up. The cells that a
formula reaches can be ordered, and in every such order the stored outcomes are those of
`evaluateFormula`, the formula's own included. Nor does it matter what is in flight: not in any
set to which no chain of calls leads, and not in the sets that its evaluation goes through. -/
theorem evaluateFormula_bottomUp (sheet : Sheet) (formula : String)
    (hformula : isFormula formula = true) (hcycle : ¬ sheet.ReachesCycle formula.toList) :
    (∃ order, sheet.EvaluationOrder formula.toList order) ∧
      (∀ order, sheet.EvaluationOrder formula.toList order →
        sheet.evaluateFrom (sheet.evaluateInOrder order) formula.toList =
            evaluateFormula sheet {} formula ∧
          ∀ cell text, sheet.Reaches formula.toList cell →
            sheet.get? cell.row cell.column = some text →
              (sheet.evaluateInOrder order).lookup cell =
                some (evaluateFormula sheet {} text)) ∧
      (∀ inFlight,
        (∀ text ∈ inFlight, ¬ ReflTransGen sheet.Calls (trim formula.toList) text) →
          (evaluate sheet {} formula.toList inFlight).result =
            evaluateFormula sheet {} formula) ∧
      ∀ text inFlight,
        .entered (text :: inFlight) ∈ (formulaOutcome sheet {} formula).history →
          (evaluate sheet {} text inFlight).result =
            evaluateFormula sheet {} (String.ofList text) := by
  refine ⟨exists_evaluationOrder hcycle, fun order horder => ?_, fun inFlight hclear => ?_,
    fun text inFlight h => ?_⟩
  · exact evaluationOrder_outcomes hformula hcycle horder
  · exact evaluate_result_of_unreachable hcycle hclear
  · exact evaluate_result_of_entered hcycle h

/-- A1 refers to B1 and C1, and both refer to D1; C1 divides by zero. -/
def diamondSheet : Sheet :=
  ⟨[Row.empty, Row.ofList [(1, "=B1+C1"), (2, "=D1*2"), (3, "=D1/0"), (4, "=3")]]⟩

/-- In every order, what is stored for C1 is its error, which counts as zero. -/
theorem evaluateFormula_bottomUp_diamond :
    isFormula "=A1+B1" = true ∧ ¬ diamondSheet.ReachesCycle "=A1+B1".toList ∧
      ∃ order, diamondSheet.EvaluationOrder "=A1+B1".toList order ∧
        (diamondSheet.evaluateInOrder order).lookup ⟨3, 1⟩ = some (.error .divisionByZero) ∧
        diamondSheet.evaluateFrom (diamondSheet.evaluateInOrder order) "=A1+B1".toList =
          .ok (Binary64.ofBits 0x4028000000000000) := by
  have hformula : isFormula "=A1+B1" = true := by decide
  have hcycle : ¬ diamondSheet.ReachesCycle "=A1+B1".toList := by
    rw [← evaluate_circular_iff]
    decide +kernel
  have hreaches : diamondSheet.Reaches "=A1+B1".toList ⟨3, 1⟩ := by
    refine ⟨⟨1, 1⟩, by decide, ReflTransGen.single ⟨"=B1+C1".toList, by decide, by decide⟩⟩
  obtain ⟨⟨order, horder⟩, hall, -⟩ :=
    evaluateFormula_bottomUp diamondSheet "=A1+B1" hformula hcycle
  obtain ⟨hresult, hcells⟩ := hall order horder
  refine ⟨hformula, hcycle, order, horder, ?_, ?_⟩
  · rw [hcells ⟨3, 1⟩ "=D1/0" hreaches (by decide)]
    decide +kernel
  · rw [hresult]
    decide +kernel

end FormulaSheet
