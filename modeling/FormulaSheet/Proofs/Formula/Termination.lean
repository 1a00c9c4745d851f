import Mathlib
import FormulaSheet.Proofs.Formula.History

/-!
# Resolutions come to an end

An evaluation makes nested evaluations, those of the formulas that it calls, with its own text in
flight. Below the first formula every text in flight is that of a formula cell, and no text is in
flight twice; so the nesting is no deeper than the distinct texts of formula cells allow, whatever
the sheet refers to. The evaluation needs no number of levels to come to an end, and any number
from that bound on gives its outcome.

* `Sheet.NestedCall`: one evaluation makes another; `wellFounded_nestedCall`.
* `Ends`: evaluations that come to an end, without any count of levels.
* `entered_invariant`: what nested evaluations preserve holds whenever a formula comes in flight.
* `resolution_ends`: resolutions and evaluations end, and within the bound.
-/

namespace FormulaSheet

open Text Resolving

namespace Sheet

/-- The number of distinct trimmed texts of formula cells. -/
def distinctFormulas (sheet : Sheet) : Nat :=
  sheet.formulaTexts.dedup.length

/-- An evaluation, given by its formula and the texts that are in flight before it, makes another:
its formula comes in flight and calls that of the other. -/
structure NestedCall (sheet : Sheet) (options : EvalOptions)
    (inner outer : List Char × List (List Char)) : Prop where
  fresh : trim outer.1 ∉ outer.2
  below : options.exceeded? outer.2 = none
  calls : sheet.Calls outer.1 inner.1
  inFlight : inner.2 = trim outer.1 :: outer.2

section Waiting

variable {sheet : Sheet}

theorem waiting_nil (sheet : Sheet) : sheet.waiting [] = sheet.distinctFormulas := by
  rw [waiting, List.toFinset_nil, Finset.sdiff_empty, List.card_toFinset, distinctFormulas]

theorem waiting_cons_le (text : List Char) (inFlight : List (List Char)) :
    sheet.waiting (text :: inFlight) ≤ sheet.waiting inFlight := by
  refine Finset.card_le_card (Finset.sdiff_subset_sdiff (Finset.Subset.refl _) ?_)
  rw [List.toFinset_cons]
  exact Finset.subset_insert _ _

end Waiting

end Sheet

/-- An evaluation comes to an end with an outcome: so do the nested evaluations that it makes, and
the outcome is that of one step over theirs. -/
inductive Ends (sheet : Sheet) (options : EvalOptions) :
    List Char → List (List Char) → Outcome Binary64 → Prop
  | step {formula : List Char} {inFlight : List (List Char)}
      (nested : List Char → Resolving Binary64)
      (hnested : ∀ callee inner,
        sheet.NestedCall options (callee, inner) (formula, inFlight) →
          Ends sheet options callee inner (nested callee inner)) :
      Ends sheet options formula inFlight (evaluateWith sheet options nested formula inFlight)

section Recursion

variable {sheet : Sheet} {options : EvalOptions} {formula : List Char}
variable {inFlight : List (List Char)}

/-- No evaluation makes nested evaluations without end. -/
theorem wellFounded_nestedCall : WellFounded (sheet.NestedCall options) := by
  have hacc : ∀ formula inFlight, Acc (sheet.NestedCall options) (formula, inFlight) := by
    intro formula inFlight
    induction formula, inFlight using nesting_induction sheet with
    | step formula inFlight ih =>
        refine Acc.intro _ fun inner hcall => ?_
        obtain ⟨callee, before⟩ := inner
        obtain rfl : before = trim formula :: inFlight := hcall.inFlight
        exact ih callee hcall.calls hcall.fresh
  exact ⟨fun outer => hacc outer.1 outer.2⟩

/-- A resolution has the same outcome over all nested evaluations that agree with `evaluate` where
it makes one. -/
theorem resolveWith_eq_of_nestedCall {nested : List Char → Resolving Binary64}
    (h : ∀ callee inner, sheet.NestedCall options (callee, inner) (formula, inFlight) →
      nested callee inner = evaluate sheet options callee inner) :
    resolveWith sheet options nested formula inFlight =
      resolve sheet options formula inFlight :=
  (resolveWith_congr restores_evaluate fun callee hcall hfresh hbelow =>
    (h callee _ ⟨hfresh, hbelow, hcall, rfl⟩).symm).symm

theorem evaluateWith_eq_of_nestedCall {nested : List Char → Resolving Binary64}
    (h : ∀ callee inner, sheet.NestedCall options (callee, inner) (formula, inFlight) →
      nested callee inner = evaluate sheet options callee inner) :
    evaluateWith sheet options nested formula inFlight =
      evaluate sheet options formula inFlight := by
  rw [evaluate_eq]
  exact bind_congr_left (resolveWith_eq_of_nestedCall h)

/-- Every evaluation comes to an end, and only with the outcome that `evaluate` gives. -/
theorem ends_iff {outcome : Outcome Binary64} :
    Ends sheet options formula inFlight outcome ↔
      outcome = evaluate sheet options formula inFlight := by
  constructor
  · intro h
    induction h with
    | step nested _ ih => exact evaluateWith_eq_of_nestedCall ih
  · rintro rfl
    induction formula, inFlight using nesting_induction sheet with
    | step formula inFlight ih =>
        rw [evaluate_eq]
        refine Ends.step (evaluate sheet options) fun callee inner hcall => ?_
        obtain rfl : inner = trim formula :: inFlight := hcall.inFlight
        exact ih callee hcall.calls hcall.fresh

/-- With as many levels as there are distinct texts of formula cells, and one more for a text that
is met again, it plays no part what would come after the last level. -/
theorem evaluateWithin_eq_of_calls {callee : List Char} (hcall : sheet.Calls formula callee)
    (last : List Char → Resolving Binary64) {levels : Nat}
    (h : sheet.distinctFormulas < levels) :
    evaluateWithin sheet options last levels callee [trim formula] =
      evaluate sheet options callee [trim formula] := by
  have hwaiting : sheet.waiting [trim formula] ≤ sheet.distinctFormulas := by
    rw [← Sheet.waiting_nil]
    exact Sheet.waiting_cons_le _ _
  have hlevels : sheet.waiting [trim formula] < sheet.levels := by
    have := sheet.waiting_le [trim formula]
    unfold Sheet.levels
    omega
  exact (evaluateWithin_eq (fun _ => restores_fail _) _ _ callee _
    (Sheet.mem_formulaTexts_of_calls hcall) (Sheet.trim_of_calls hcall) hlevels (by omega)).symm

theorem resolveWith_evaluateWithin_eq (last : List Char → Resolving Binary64) {levels : Nat}
    (h : sheet.distinctFormulas < levels) :
    resolveWith sheet options (evaluateWithin sheet options last levels) formula [] =
      resolve sheet options formula [] := by
  refine resolveWith_eq_of_nestedCall fun callee inner hcall => ?_
  obtain rfl : inner = [trim formula] := hcall.inFlight
  exact evaluateWithin_eq_of_calls hcall.calls last h

theorem evaluateWithin_eq_evaluate (last : List Char → Resolving Binary64) {levels : Nat}
    (h : sheet.distinctFormulas + 1 < levels) :
    evaluateWithin sheet options last levels formula [] =
      evaluate sheet options formula [] := by
  obtain ⟨levels, rfl⟩ : ∃ k, levels = k + 1 := ⟨levels - 1, by omega⟩
  refine evaluateWith_eq_of_nestedCall fun callee inner hcall => ?_
  obtain rfl : inner = [trim formula] := hcall.inFlight
  exact evaluateWithin_eq_of_calls hcall.calls last (by omega)

end Recursion

section Bounds

variable {sheet : Sheet} {options : EvalOptions} {entered : List (List Char)}

/-- What nested evaluations preserve holds of every evaluation whose formula comes in flight. -/
theorem entered_invariant {P : List Char → List (List Char) → Prop}
    (hstep : ∀ formula inFlight callee inner,
      sheet.NestedCall options (callee, inner) (formula, inFlight) →
        P formula inFlight → P callee inner)
    (formula : List Char) (inFlight : List (List Char)) (hP : P formula inFlight)
    (h : .entered entered ∈ (evaluate sheet options formula inFlight).history) :
    ∃ text before, entered = trim text :: before ∧ trim text ∉ before ∧
      options.exceeded? before = none ∧ P text before := by
  induction formula, inFlight using nesting_induction sheet with
  | step formula inFlight ih =>
      obtain ⟨hfresh, hbelow, rfl | ⟨callee, hcall, h⟩⟩ := entered_cases h
      · exact ⟨formula, inFlight, rfl, hfresh, hbelow, hP⟩
      · exact ih callee hcall hfresh (hstep _ _ _ _ ⟨hfresh, hbelow, hcall, rfl⟩ hP) h

/-- The texts in flight before a formula are distinct. If there are any, the formula is that of a
cell, and at most one of the texts in flight is not that of a cell. -/
structure BoundedNesting (sheet : Sheet) (formula : List Char) (inFlight : List (List Char)) :
    Prop where
  nodup : inFlight.Nodup
  nested : inFlight ≠ [] → formula ∈ sheet.formulaTexts ∧ trim formula = formula ∧
    inFlight.length + sheet.waiting inFlight ≤ 1 + sheet.distinctFormulas

theorem boundedNesting_nil (formula : List Char) : BoundedNesting sheet formula [] where
  nodup := List.nodup_nil
  nested := fun h => absurd rfl h

/-- A text that comes in flight above those of a bounded nesting takes the place of one that was
waiting. -/
theorem BoundedNesting.length_add_waiting_le {formula : List Char} {inFlight : List (List Char)}
    (h : BoundedNesting sheet formula inFlight) (hfresh : trim formula ∉ inFlight) :
    inFlight.length + 1 + sheet.waiting (trim formula :: inFlight) ≤
      1 + sheet.distinctFormulas := by
  by_cases hnil : inFlight = []
  · subst hnil
    have hwaiting : sheet.waiting [trim formula] ≤ sheet.waiting [] := Sheet.waiting_cons_le _ _
    rw [Sheet.waiting_nil] at hwaiting
    simp only [List.length_nil]
    omega
  · obtain ⟨hmem, htrim, hle⟩ := h.nested hnil
    rw [htrim] at hfresh ⊢
    have := Sheet.waiting_cons_lt hmem hfresh
    omega

theorem boundedNesting_nestedCall {formula callee : List Char} {inFlight inner : List (List Char)}
    (hcall : sheet.NestedCall options (callee, inner) (formula, inFlight))
    (h : BoundedNesting sheet formula inFlight) : BoundedNesting sheet callee inner := by
  obtain rfl : inner = trim formula :: inFlight := hcall.inFlight
  refine ⟨List.nodup_cons.mpr ⟨hcall.fresh, h.nodup⟩, fun _ => ⟨?_, ?_, ?_⟩⟩
  · exact Sheet.mem_formulaTexts_of_calls hcall.calls
  · exact Sheet.trim_of_calls hcall.calls
  · exact h.length_add_waiting_le hcall.fresh

theorem length_lt_of_exceeded? {inFlight : List (List Char)} {limit : Nat}
    (hlimit : options.maxDepth = some limit) (h : options.exceeded? inFlight = none) :
    inFlight.length < limit := by
  simpa [EvalOptions.exceeded?, hlimit, Option.filter_some] using h

/-- The arithmetic behind a resolution adds nothing to the history. -/
theorem evaluate_history (formula : List Char) (inFlight : List (List Char)) :
    (evaluate sheet options formula inFlight).history =
      (resolve sheet options formula inFlight).history := by
  rw [evaluate_eq, evaluateWith]
  change _ = (resolveWith sheet options (evaluate sheet options) formula inFlight).history
  cases h : (resolveWith sheet options (evaluate sheet options) formula inFlight).result with
  | error error => rw [bind_of_error h]
  | ok expression =>
      rw [bind_of_ok h]
      exact List.append_nil _

/-- Whenever a formula comes in flight, the texts in flight are distinct and no more than the bound
and the limit allow. -/
theorem entered_bounds {formula : List Char}
    (h : .entered entered ∈ (evaluate sheet options formula []).history) :
    entered.Nodup ∧ entered.length ≤ 1 + sheet.distinctFormulas ∧
      ∀ limit, options.maxDepth = some limit → entered.length ≤ limit := by
  obtain ⟨text, before, rfl, hfresh, hbelow, hbounded⟩ :=
    entered_invariant (fun _ _ _ _ hcall => boundedNesting_nestedCall hcall) formula []
      (boundedNesting_nil formula) h
  refine ⟨List.nodup_cons.mpr ⟨hfresh, hbounded.nodup⟩, ?_, fun limit hlimit => ?_⟩
  · have := hbounded.length_add_waiting_le hfresh
    simp only [List.length_cons]
    omega
  · exact length_lt_of_exceeded? hlimit hbelow

end Bounds

/-- Resolutions and evaluations come to an end on every sheet. Nested evaluations cannot go on
without end; so every evaluation ends, with one outcome, and a resolution has its outcome over
nested evaluations that end. With as many levels of nesting as there are distinct texts of formula
cells, and two more, neither their number nor what would come after the last plays a part. And
with no formula in flight at first, whenever a formula comes in flight those that are in flight
are distinct, at most one more than these texts, and no more than the limit. -/
theorem resolution_ends (sheet : Sheet) (options : EvalOptions) :
    WellFounded (sheet.NestedCall options) ∧
    (∀ formula inFlight outcome,
      Ends sheet options formula inFlight outcome ↔
        outcome = evaluate sheet options formula inFlight) ∧
    (∀ formula inFlight nested,
      (∀ callee inner, sheet.NestedCall options (callee, inner) (formula, inFlight) →
        Ends sheet options callee inner (nested callee inner)) →
      resolveWith sheet options nested formula inFlight =
        resolve sheet options formula inFlight) ∧
    (∀ formula last levels, sheet.distinctFormulas + 2 ≤ levels →
      resolveWith sheet options (evaluateWithin sheet options last levels) formula [] =
          resolve sheet options formula [] ∧
        evaluateWithin sheet options last levels formula [] =
          evaluate sheet options formula []) ∧
    (∀ formula entered,
      .entered entered ∈ (resolve sheet options formula []).history ∨
        .entered entered ∈ (evaluate sheet options formula []).history →
      entered.Nodup ∧ entered.length ≤ 1 + sheet.distinctFormulas ∧
        ∀ limit, options.maxDepth = some limit → entered.length ≤ limit) := by
  refine ⟨wellFounded_nestedCall, fun _ _ _ => ends_iff, fun formula inFlight nested h => ?_,
    fun formula last levels h => ⟨?_, ?_⟩, fun formula entered h => ?_⟩
  · exact resolveWith_eq_of_nestedCall fun callee inner hcall => ends_iff.mp (h callee inner hcall)
  · exact resolveWith_evaluateWithin_eq last (by omega)
  · exact evaluateWithin_eq_evaluate last h
  · rw [← evaluate_history, or_self] at h
    exact entered_bounds h

/-- A1 and B1 refer to each other, and so does C1 to A1, with the same text as B1. -/
def loopedSheet : Sheet :=
  ⟨[Row.empty, Row.ofList [(1, " =B1*2"), (2, "=A1"), (3, "=A1 ")]]⟩

/-- On a cycle of two texts, four levels are as good as any, and the bound of three formulas in
flight is reached. -/
theorem resolution_ends_looped :
    loopedSheet.distinctFormulas = 2 ∧
    evaluateWithin loopedSheet ⟨some 3⟩ (fun _ => value (Binary64.zero false)) 4
        "=C1+1".toList [] =
      evaluate loopedSheet ⟨some 3⟩ "=C1+1".toList [] ∧
    .entered ["=B1*2".toList, "=A1".toList, "=C1+1".toList] ∈
      (resolve loopedSheet ⟨some 3⟩ "=C1+1".toList []).history ∧
    (["=B1*2".toList, "=A1".toList, "=C1+1".toList] : List (List Char)).length ≤
      1 + loopedSheet.distinctFormulas := by
  have hdistinct : loopedSheet.distinctFormulas = 2 := by decide +kernel
  have hentered : .entered ["=B1*2".toList, "=A1".toList, "=C1+1".toList] ∈
      (resolve loopedSheet ⟨some 3⟩ "=C1+1".toList []).history := by decide +kernel
  obtain ⟨-, -, -, hlevels, hbounds⟩ := resolution_ends loopedSheet ⟨some 3⟩
  refine ⟨hdistinct, ?_, hentered, ?_⟩
  · exact (hlevels "=C1+1".toList _ 4 (by rw [hdistinct])).2
  · exact (hbounds _ _ (Or.inl hentered)).2.1

end FormulaSheet
