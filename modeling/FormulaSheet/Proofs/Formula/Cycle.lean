import FormulaSheet.Proofs.Formula.Structural

/-!
# Cycles of references

Without a limit, a formula is a circular reference exactly if a chain of references leads from
it to a cell that transitively refers to itself. Formulas in flight are told apart by their texts
only, so the proof goes over the chains of calls between texts.

* `Sheet.MeetsCycle`: a chain of calls comes to a formula in flight or to a cycle of texts;
  `meetsCycle_iff` follows one call.
* `evaluateFormula_circular_iff`: cycles are detected exactly.
-/

namespace FormulaSheet

open Text Relation

/-- A chain of calls leads from a formula to a text that is in flight or calls itself. -/
def Sheet.MeetsCycle (sheet : Sheet) (formula : List Char) (inFlight : List (List Char)) : Prop :=
  ∃ text, ReflTransGen sheet.Calls (trim formula) text ∧
    (text ∈ inFlight ∨ TransGen sheet.Calls text text)

section Detection

variable {sheet : Sheet} {options : EvalOptions}

theorem meetsCycle_trim {formula : List Char} {inFlight : List (List Char)} :
    sheet.MeetsCycle (trim formula) inFlight ↔ sheet.MeetsCycle formula inFlight := by
  simp [Sheet.MeetsCycle]

/-- A formula meets a cycle at once or through a formula that it calls. -/
theorem meetsCycle_iff {formula : List Char} {inFlight : List (List Char)} :
    sheet.MeetsCycle formula inFlight ↔ trim formula ∈ inFlight ∨
      ∃ callee, sheet.Calls formula callee ∧
        sheet.MeetsCycle callee (trim formula :: inFlight) := by
  constructor
  · rintro ⟨text, hchain, hend⟩
    rcases ReflTransGen.cases_head hchain with rfl | ⟨callee, hcall, hrest⟩
    · rcases hend with hmem | hcycle
      · exact Or.inl hmem
      · -- On a cycle, the text is met again once it is in flight itself.
        obtain ⟨callee, hcall, hrest⟩ := TransGen.head'_iff.mp hcycle
        rw [Sheet.calls_trim] at hcall
        refine Or.inr ⟨callee, hcall, trim formula, ?_, Or.inl List.mem_cons_self⟩
        rwa [Sheet.trim_of_calls hcall]
    · rw [Sheet.calls_trim] at hcall
      refine Or.inr ⟨callee, hcall, text, ?_, hend.imp_left (List.mem_cons_of_mem _)⟩
      rwa [Sheet.trim_of_calls hcall]
  · rintro (hmem | ⟨callee, hcall, text, hchain, hend⟩)
    · exact ⟨trim formula, ReflTransGen.refl, Or.inl hmem⟩
    · rw [Sheet.trim_of_calls hcall] at hchain
      rw [← Sheet.calls_trim] at hcall
      rcases hend with hmem | hcycle
      · rcases List.mem_cons.mp hmem with rfl | hmem
        · exact ⟨trim formula, ReflTransGen.refl, Or.inr (TransGen.head' hcall hchain)⟩
        · exact ⟨text, ReflTransGen.head hcall hchain, Or.inl hmem⟩
      · exact ⟨text, ReflTransGen.head hcall hchain, Or.inr hcycle⟩

/-- A circular reference is found only where there is one, under every limit. -/
theorem meetsCycle_of_circular (formula : List Char) (inFlight : List (List Char))
    (h : (evaluate sheet options formula inFlight).result = .error .circularReference) :
    sheet.MeetsCycle formula inFlight := by
  induction formula, inFlight using nesting_induction sheet with
  | step formula inFlight ih =>
      rw [meetsCycle_iff]
      rcases structural_error_origin h rfl with ⟨hmem, -⟩ | ⟨limit, -, herror⟩ |
        ⟨hfresh, callee, hcall, hresult⟩
      · exact Or.inl hmem
      · cases herror
      · exact Or.inr ⟨callee, hcall, ih callee hcall hfresh hresult⟩

/-- A formula that meets a cycle fails with a structural error, under every limit. -/
theorem not_degradable_of_meetsCycle (formula : List Char) (inFlight : List (List Char))
    {body : List Char} (hbody : formulaBody? formula = some body)
    (h : sheet.MeetsCycle formula inFlight) :
    ¬ Degradable (evaluate sheet options formula inFlight).result := by
  induction formula, inFlight using nesting_induction sheet generalizing body with
  | step formula inFlight ih =>
      by_cases hfresh : trim formula ∈ inFlight
      · exact not_degradable_of_mem hbody hfresh
      · obtain ⟨callee, hcall, hmeets⟩ := (meetsCycle_iff.mp h).resolve_left hfresh
        obtain ⟨body', hbody'⟩ := Sheet.exists_body_of_calls hcall
        exact not_degradable_of_calls hcall (ih callee hcall hfresh hbody' hmeets)

end Detection

section Reachability

variable {sheet : Sheet} {formula : List Char}

theorem transGen_calls_trim {text : List Char} :
    TransGen sheet.Calls (trim formula) text ↔ TransGen sheet.Calls formula text := by
  simp only [TransGen.head'_iff, Sheet.calls_trim]

/-- With nothing in flight, only the cycles that the formula reaches are left. -/
theorem meetsCycle_nil_iff : sheet.MeetsCycle formula [] ↔ sheet.ReachesCycle formula := by
  rw [Sheet.reachesCycle_iff_calls]
  constructor
  · rintro ⟨text, hchain, hmem | hcycle⟩
    · cases hmem
    · refine ⟨text, ?_, hcycle⟩
      rw [← transGen_calls_trim]
      exact TransGen.trans_right hchain hcycle
  · rintro ⟨text, hchain, hcycle⟩
    exact ⟨text, (transGen_calls_trim.mpr hchain).to_reflTransGen, Or.inr hcycle⟩

/-- A chain that leads to a cycle goes on without end. -/
theorem exists_calls_of_reachesCycle (h : sheet.ReachesCycle formula) :
    ∃ callee, sheet.Calls formula callee ∧ sheet.ReachesCycle callee := by
  obtain ⟨text, hchain, hcycle⟩ := Sheet.reachesCycle_iff_calls.mp h
  obtain ⟨callee, hcall, hrest⟩ := TransGen.head'_iff.mp hchain
  refine ⟨callee, hcall, Sheet.reachesCycle_iff_calls.mpr ⟨text, ?_, hcycle⟩⟩
  exact TransGen.trans_right hrest hcycle

end Reachability

/-- The unlimited evaluation of a formula with nothing in flight. -/
theorem evaluate_circular_iff {sheet : Sheet} {formula : List Char} :
    (evaluate sheet {} formula []).result = .error .circularReference ↔
      sheet.ReachesCycle formula := by
  constructor
  · intro h
    exact meetsCycle_nil_iff.mp (meetsCycle_of_circular formula [] h)
  · intro h
    obtain ⟨callee, hcall, -⟩ := exists_calls_of_reachesCycle h
    obtain ⟨body, hbody⟩ := Sheet.exists_body_of_caller hcall
    have hfails : ¬ Degradable (evaluate sheet {} formula []).result :=
      not_degradable_of_meetsCycle formula [] hbody (meetsCycle_nil_iff.mpr h)
    exact circular_of_not_degradable hfails

/-- Cycle detection is exact: without a limit, a formula is a circular reference if and only if a
chain of references leads from it to a formula cell that transitively refers to itself. -/
theorem evaluateFormula_circular_iff (sheet : Sheet) (formula : String) :
    evaluateFormula sheet {} formula = .error .circularReference ↔
      ∃ cell, sheet.Reaches formula.toList cell ∧ TransGen sheet.CellRefersTo cell cell :=
  evaluate_circular_iff

end FormulaSheet
