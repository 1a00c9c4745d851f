import Mathlib
import FormulaSheet.Proofs.Formula.Outcome

/-!
# Nested evaluations

A nested evaluation always begins with the text of a formula cell that is not in flight yet, or
ends at once. So the texts that are not in flight are a measure of what is left to do, the levels
of `evaluate` are never used up, and statements about evaluations can be proved by induction on
the nesting.

* `evaluate_eq`: an evaluation is one step over the evaluations of the formulas that it calls.
* `evaluate_result_of_body`: the result of that step.
* `evaluate_result_congr`: when two such steps have the same result.
* `nesting_induction`: induction on the nesting of evaluations.
-/

namespace FormulaSheet

open Text Resolving

/-- The expression of the body of a formula, which is in flight meanwhile. -/
def bodyExpression (sheet : Sheet) (nested : List Char → Resolving Binary64)
    (formula : List Char) : Resolving (List Char) := do
  let expression ← within (trim formula) (substitute sheet nested (formulaPieces formula))
  report (.rewritten (trim formula) expression)
  value expression

section Steps

variable {sheet : Sheet} {options : EvalOptions} {nested : List Char → Resolving Binary64}
variable {formula body : List Char} {inFlight : List (List Char)}

theorem resolveWith_of_body_eq_none (h : formulaBody? formula = none) :
    resolveWith sheet options nested formula inFlight =
      fail (if trim formula = [] then .emptyCell else .notAFormula) inFlight := by
  rw [formulaBody?] at h
  rw [resolveWith]
  cases htrim : trim formula with
  | nil => rfl
  | cons marker rest =>
      have hmarker : marker ≠ formulaMarker := by
        intro heq
        simp [htrim, heq] at h
      simp only [if_pos hmarker, reduceCtorEq, if_false]

theorem resolveWith_of_body (h : formulaBody? formula = some body) :
    resolveWith sheet options nested formula inFlight =
      if trim formula ∈ inFlight then fail .circularReference inFlight
      else
        match options.exceeded? inFlight with
        | some limit => fail (.maxDepthExceeded limit) inFlight
        | none => bodyExpression sheet nested formula inFlight := by
  have htrim := formulaBody?_eq_some_iff.mp h
  rw [resolveWith, bodyExpression, formulaPieces_of_body h, htrim]
  exact if_neg fun hmarker => hmarker rfl

/-- A resolution fails before it looks at any reference, or goes on with the body. -/
theorem resolveWith_cases (sheet : Sheet) (options : EvalOptions) (formula : List Char)
    (inFlight : List (List Char)) :
    (∃ error, ∀ nested, resolveWith sheet options nested formula inFlight = fail error inFlight) ∨
      trim formula ∉ inFlight ∧ options.exceeded? inFlight = none ∧
        ∀ nested, resolveWith sheet options nested formula inFlight =
          bodyExpression sheet nested formula inFlight := by
  cases hbody : formulaBody? formula with
  | none => exact Or.inl ⟨_, fun nested => resolveWith_of_body_eq_none hbody⟩
  | some body =>
      by_cases hmem : trim formula ∈ inFlight
      · refine Or.inl ⟨.circularReference, fun nested => ?_⟩
        rw [resolveWith_of_body hbody, if_pos hmem]
      · cases hlimit : options.exceeded? inFlight with
        | some limit =>
            refine Or.inl ⟨.maxDepthExceeded limit, fun nested => ?_⟩
            rw [resolveWith_of_body hbody, if_neg hmem, hlimit]
        | none =>
            refine Or.inr ⟨hmem, rfl, fun nested => ?_⟩
            rw [resolveWith_of_body hbody, if_neg hmem, hlimit]

end Steps

section Restoring

variable {sheet : Sheet} {options : EvalOptions} {nested : List Char → Resolving Binary64}

theorem restores_bodyExpression (hn : ∀ text, Restores (nested text)) (formula : List Char) :
    Restores (bodyExpression sheet nested formula) :=
  restores_bind (restores_within _ (restores_substitute hn _)) fun _ =>
    restores_bind (restores_report _) fun _ => restores_value _

theorem restores_resolveWith (hn : ∀ text, Restores (nested text)) (formula : List Char) :
    Restores (resolveWith sheet options nested formula) := by
  intro inFlight
  rcases resolveWith_cases sheet options formula inFlight with
    ⟨error, herror⟩ | ⟨-, -, hbody⟩
  · rw [herror]
    rfl
  · rw [hbody]
    exact restores_bodyExpression hn formula inFlight

theorem restores_evaluateWith (hn : ∀ text, Restores (nested text)) (formula : List Char) :
    Restores (evaluateWith sheet options nested formula) :=
  restores_bind (restores_resolveWith hn formula) fun _ => restores_ofExcept _

theorem restores_evaluateWithin {last : List Char → Resolving Binary64}
    (hlast : ∀ text, Restores (last text)) :
    ∀ (levels : Nat) (formula : List Char),
      Restores (evaluateWithin sheet options last levels formula)
  | 0, formula => hlast formula
  | levels + 1, formula => restores_evaluateWith (restores_evaluateWithin hlast levels) formula

theorem restores_evaluate (formula : List Char) : Restores (evaluate sheet options formula) :=
  restores_evaluateWithin (fun _ => restores_fail _) _ formula

end Restoring

section Congruence

variable {sheet : Sheet} {options : EvalOptions} {nested nested' : List Char → Resolving Binary64}
variable {inFlight : List (List Char)}

theorem bind_congr_left {α β : Type} {x y : Resolving α} {f : α → Resolving β}
    (h : x inFlight = y inFlight) : (x >>= f) inFlight = (y >>= f) inFlight := by
  show andThen x f inFlight = andThen y f inFlight
  simp only [andThen, h]

theorem bind_congr_right {α β : Type} {x : Resolving α} {f g : α → Resolving β} (hx : Restores x)
    (h : ∀ a, f a inFlight = g a inFlight) : (x >>= f) inFlight = (x >>= g) inFlight := by
  show andThen x f inFlight = andThen x g inFlight
  simp only [andThen, hx inFlight, h]

theorem referenceValue_congr {letters digits : List Char}
    (h : ∀ callee, sheet.PieceCalls (.token letters digits) callee →
      nested callee inFlight = nested' callee inFlight) :
    referenceValue sheet nested letters digits inFlight =
      referenceValue sheet nested' letters digits inFlight := by
  rcases referenceValue_cases sheet letters digits with
    ⟨number, x, -, -, hx⟩ | ⟨callee, -, hcall, hcalled⟩
  · rw [hx, hx]
  · rw [hcalled, hcalled]
    refine bind_congr_left ?_
    simp only [attempt, h callee hcall]

theorem substitute_congr (hn : ∀ text, Restores (nested text)) {pieces : List Piece}
    (h : ∀ piece ∈ pieces, ∀ callee, sheet.PieceCalls piece callee →
      nested callee inFlight = nested' callee inFlight) :
    substitute sheet nested pieces inFlight = substitute sheet nested' pieces inFlight := by
  induction pieces with
  | nil => rfl
  | cons piece rest ih =>
      have hrest := ih fun other hother => h other (List.mem_cons_of_mem _ hother)
      cases piece with
      | gap text => exact bind_congr_left hrest
      | token letters digits =>
          have hfirst := referenceValue_congr (h _ List.mem_cons_self)
          calc substitute sheet nested (.token letters digits :: rest) inFlight
              = (referenceValue sheet nested letters digits >>= fun number =>
                  substitute sheet nested' rest >>= fun replaced =>
                    value (number ++ replaced)) inFlight :=
                bind_congr_right (restores_referenceValue hn _ _) fun _ => bind_congr_left hrest
            _ = substitute sheet nested' (.token letters digits :: rest) inFlight :=
                bind_congr_left hfirst

/-- A resolution depends only on how the formulas that are called are evaluated, with the formula
itself in flight, if it comes in flight at all. -/
theorem resolveWith_congr (hn : ∀ text, Restores (nested text)) {formula : List Char}
    (h : ∀ callee, sheet.Calls formula callee → trim formula ∉ inFlight →
      options.exceeded? inFlight = none →
        nested callee (trim formula :: inFlight) = nested' callee (trim formula :: inFlight)) :
    resolveWith sheet options nested formula inFlight =
      resolveWith sheet options nested' formula inFlight := by
  rcases resolveWith_cases sheet options formula inFlight with
    ⟨error, herror⟩ | ⟨hfresh, hlimit, hbody⟩
  · rw [herror, herror]
  · rw [hbody, hbody]
    refine bind_congr_left ?_
    have hpieces := substitute_congr hn fun piece hpiece callee hcall =>
      h callee ⟨piece, hpiece, hcall⟩ hfresh hlimit
    simp only [within, hpieces]

/-- The same for one step of evaluation. -/
theorem evaluateWith_congr (hn : ∀ text, Restores (nested text)) {formula : List Char}
    (h : ∀ callee, sheet.Calls formula callee → trim formula ∉ inFlight →
      options.exceeded? inFlight = none →
        nested callee (trim formula :: inFlight) = nested' callee (trim formula :: inFlight)) :
    evaluateWith sheet options nested formula inFlight =
      evaluateWith sheet options nested' formula inFlight :=
  bind_congr_left (resolveWith_congr hn h)

end Congruence

namespace Sheet

/-- The number of texts of formula cells that are not in flight. -/
def waiting (sheet : Sheet) (inFlight : List (List Char)) : Nat :=
  (sheet.formulaTexts.toFinset \ inFlight.toFinset).card

theorem waiting_le (sheet : Sheet) (inFlight : List (List Char)) :
    sheet.waiting inFlight ≤ sheet.formulaCount := by
  calc sheet.waiting inFlight
      ≤ sheet.formulaTexts.toFinset.card := Finset.card_le_card Finset.sdiff_subset
    _ ≤ sheet.formulaTexts.length := List.toFinset_card_le _
    _ = sheet.formulaCount := by rw [formulaTexts, List.length_map, length_formulaCells]

theorem waiting_cons_lt {sheet : Sheet} {inFlight : List (List Char)} {text : List Char}
    (hmem : text ∈ sheet.formulaTexts) (hfresh : text ∉ inFlight) :
    sheet.waiting (text :: inFlight) < sheet.waiting inFlight := by
  have hin : text ∈ sheet.formulaTexts.toFinset \ inFlight.toFinset := by
    simp [hmem, hfresh]
  have herase : sheet.formulaTexts.toFinset \ (text :: inFlight).toFinset =
      (sheet.formulaTexts.toFinset \ inFlight.toFinset).erase text := by
    rw [List.toFinset_cons, Finset.sdiff_insert]
  rw [waiting, waiting, herase]
  exact Finset.card_erase_lt_of_mem hin

theorem mem_formulaTexts_of_calls {sheet : Sheet} {formula callee : List Char}
    (h : sheet.Calls formula callee) : callee ∈ sheet.formulaTexts := by
  obtain ⟨_, -, _, -, hcell⟩ := h
  exact mem_formulaTexts_of_formulaAt? hcell

end Sheet

/-- Induction on the nesting of evaluations: a formula with others in flight may rely on the
formulas that it calls, with itself in flight as well. -/
theorem nesting_induction (sheet : Sheet) {P : List Char → List (List Char) → Prop}
    (step : ∀ formula inFlight,
      (∀ callee, sheet.Calls formula callee → trim formula ∉ inFlight →
        P callee (trim formula :: inFlight)) → P formula inFlight)
    (formula : List Char) (inFlight : List (List Char)) : P formula inFlight := by
  -- Below the first formula, all texts are those of cells, so there are only so many of them.
  have hcells : ∀ (n : Nat) (text : List Char) (inFlight : List (List Char)),
      text ∈ sheet.formulaTexts → trim text = text → sheet.waiting inFlight ≤ n →
        P text inFlight := by
    intro n
    induction n with
    | zero =>
        intro text inFlight hmem htrim hle
        refine step text inFlight fun callee _ hfresh => ?_
        have := Sheet.waiting_cons_lt hmem (htrim ▸ hfresh)
        omega
    | succ n ih =>
        intro text inFlight hmem htrim hle
        refine step text inFlight fun callee hcall hfresh => ?_
        rw [htrim] at hfresh ⊢
        have := Sheet.waiting_cons_lt hmem hfresh
        exact ih callee _ (Sheet.mem_formulaTexts_of_calls hcall) (Sheet.trim_of_calls hcall)
          (by omega)
  refine step formula inFlight fun callee hcall _ => ?_
  exact hcells _ callee _ (Sheet.mem_formulaTexts_of_calls hcall) (Sheet.trim_of_calls hcall)
    (Nat.le_refl _)

section Levels

variable {sheet : Sheet} {options : EvalOptions} {last last' : List Char → Resolving Binary64}

/-- With more levels than texts that are not in flight, neither the number of levels nor the way
to go on after the last one plays a part. -/
theorem evaluateWithin_eq (hlast : ∀ text, Restores (last text)) :
    ∀ (n m : Nat) (text : List Char) (inFlight : List (List Char)),
      text ∈ sheet.formulaTexts → trim text = text →
      sheet.waiting inFlight < n → sheet.waiting inFlight < m →
        evaluateWithin sheet options last n text inFlight =
          evaluateWithin sheet options last' m text inFlight := by
  intro n
  induction n with
  | zero =>
      intro m text inFlight _ _ hn
      omega
  | succ n ih =>
      intro m text inFlight hmem htrim hn hm
      obtain ⟨m, rfl⟩ : ∃ k, m = k + 1 := ⟨m - 1, by omega⟩
      refine evaluateWith_congr (restores_evaluateWithin hlast n) fun callee hcall hfresh _ => ?_
      rw [htrim] at hfresh ⊢
      have := Sheet.waiting_cons_lt hmem hfresh
      exact ih m callee _ (Sheet.mem_formulaTexts_of_calls hcall) (Sheet.trim_of_calls hcall)
        (by omega) (by omega)

/-- An evaluation is one step over the evaluations of the formulas that it calls. -/
theorem evaluate_eq (formula : List Char) (inFlight : List (List Char)) :
    evaluate sheet options formula inFlight =
      evaluateWith sheet options (evaluate sheet options) formula inFlight := by
  refine evaluateWith_congr
    (restores_evaluateWithin (fun _ => restores_fail _) (sheet.formulaCount + 1))
    fun callee hcall _ _ => ?_
  have := sheet.waiting_le (trim formula :: inFlight)
  exact evaluateWithin_eq (fun _ => restores_fail _) _ _ callee _
    (Sheet.mem_formulaTexts_of_calls hcall) (Sheet.trim_of_calls hcall) (by omega)
    (by unfold Sheet.levels; omega)

end Levels

section Results

variable {sheet : Sheet} {options : EvalOptions} {formula body : List Char}

theorem evaluate_result (formula : List Char) (inFlight : List (List Char)) :
    (evaluate sheet options formula inFlight).result =
      (resolveWith sheet options (evaluate sheet options) formula inFlight).result >>=
        Expression.evaluate := by
  rw [evaluate_eq, evaluateWith, result_bind (restores_resolveWith restores_evaluate formula)]
  rfl

theorem evaluate_result_of_body_eq_none (h : formulaBody? formula = none)
    (inFlight : List (List Char)) :
    (evaluate sheet options formula inFlight).result =
      .error (if trim formula = [] then .emptyCell else .notAFormula) := by
  rw [evaluate_result, resolveWith_of_body_eq_none h]
  rfl

theorem bodyExpression_result (formula : List Char) (inFlight : List (List Char)) :
    (bodyExpression sheet (evaluate sheet options) formula inFlight).result =
      sheet.expressionOf (fun callee =>
        (evaluate sheet options callee (trim formula :: inFlight)).result)
        (formulaPieces formula) := by
  rw [bodyExpression, result_bind (restores_within _ (restores_substitute restores_evaluate _))]
  simp only [within, substitute_result restores_evaluate]
  cases sheet.expressionOf _ (formulaPieces formula) with
  | error error => rfl
  | ok expression => rfl

/-- The result of a formula: a circular reference if its text is in flight, else the limit if it
is reached, else the value of the expression in which the formulas that it calls are evaluated
with its text in flight. -/
theorem evaluate_result_of_body (h : formulaBody? formula = some body)
    (inFlight : List (List Char)) :
    (evaluate sheet options formula inFlight).result =
      if trim formula ∈ inFlight then .error .circularReference
      else
        match options.exceeded? inFlight with
        | some limit => .error (.maxDepthExceeded limit)
        | none =>
            sheet.expressionOf (fun callee =>
              (evaluate sheet options callee (trim formula :: inFlight)).result)
              (formulaPieces formula) >>= Expression.evaluate := by
  rw [evaluate_result, resolveWith_of_body h]
  split
  · rfl
  · cases options.exceeded? inFlight with
    | some limit => rfl
    | none =>
        dsimp only
        rw [bodyExpression_result]

/-- Two evaluations of a formula have the same result if they stop alike in front of its references
and its pieces have the same texts. -/
theorem evaluate_result_congr {other : Sheet} {options' : EvalOptions}
    {inFlight inFlight' : List (List Char)}
    (hmem : trim formula ∈ inFlight ↔ trim formula ∈ inFlight')
    (hlimit : options.exceeded? inFlight = options'.exceeded? inFlight')
    (hpieces : trim formula ∉ inFlight → ∀ piece ∈ formulaPieces formula,
      sheet.pieceText (fun callee =>
          (evaluate sheet options callee (trim formula :: inFlight)).result) piece =
        other.pieceText (fun callee =>
          (evaluate other options' callee (trim formula :: inFlight')).result) piece) :
    (evaluate sheet options formula inFlight).result =
      (evaluate other options' formula inFlight').result := by
  cases hbody : formulaBody? formula with
  | none => rw [evaluate_result_of_body_eq_none hbody, evaluate_result_of_body_eq_none hbody]
  | some body =>
      rw [evaluate_result_of_body hbody, evaluate_result_of_body hbody, ← hlimit]
      by_cases hfresh : trim formula ∈ inFlight
      · rw [if_pos hfresh, if_pos (hmem.mp hfresh)]
      · rw [if_neg hfresh, if_neg (mt hmem.mpr hfresh),
          Sheet.expressionOf_congr_pieceText (hpieces hfresh)]

theorem evaluate_trim (inFlight : List (List Char)) :
    (evaluate sheet options (trim formula) inFlight).result =
      (evaluate sheet options formula inFlight).result := by
  cases h : formulaBody? formula with
  | none =>
      have htrim : formulaBody? (trim formula) = none := by rw [formulaBody?_trim, h]
      rw [evaluate_result_of_body_eq_none h, evaluate_result_of_body_eq_none htrim, trim_trim]
  | some body =>
      have htrim : formulaBody? (trim formula) = some body := by rw [formulaBody?_trim, h]
      rw [evaluate_result_of_body h, evaluate_result_of_body htrim, trim_trim,
        formulaPieces_trim]

end Results

end FormulaSheet
