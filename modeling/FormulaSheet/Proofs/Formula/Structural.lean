import FormulaSheet.Proofs.Formula.Nesting

/-!
# Where structural errors come from

A structural error begins at a formula that is in flight already or meets the limit, and goes up
the chain of references unchanged. No formula on the way hides one: neither the tokens to the
left of the reference nor the arithmetic behind it can turn it into a value.

* `evaluate_error_cases`: the errors that a formula can have.
* `structural_error_origin`: what a structural error tells about a formula.
* `not_degradable_of_calls`: a formula fails with the formulas that it calls.
* `evaluate_result_of_sublist`: without such an error, the formulas in flight play no part.
* `structural_error_cases`: there are no other structural errors than the two known ones.
-/

namespace FormulaSheet

open Text

variable {sheet : Sheet} {options : EvalOptions} {formula : List Char}
variable {inFlight : List (List Char)}

/-- The errors that a formula can have: its text is in flight, the limit is reached, a formula that
it calls has a structural error, or there is something wrong with the expression. -/
theorem evaluate_error_cases {body : List Char} {error : EvalError}
    (hbody : formulaBody? formula = some body)
    (h : (evaluate sheet options formula inFlight).result = .error error) :
    (trim formula ∈ inFlight ∧ error = .circularReference) ∨
      (∃ limit, options.exceeded? inFlight = some limit ∧ error = .maxDepthExceeded limit) ∨
        (trim formula ∉ inFlight ∧ error.isStructural = true ∧
          ∃ callee, sheet.Calls formula callee ∧
            (evaluate sheet options callee (trim formula :: inFlight)).result = .error error) ∨
          error.isArithmetic = true := by
  rw [evaluate_result_of_body hbody] at h
  by_cases hmem : trim formula ∈ inFlight
  · rw [if_pos hmem] at h
    cases h
    exact Or.inl ⟨hmem, rfl⟩
  · rw [if_neg hmem] at h
    right
    cases hlimit : options.exceeded? inFlight with
    | some limit =>
        rw [hlimit] at h
        cases h
        exact Or.inl ⟨limit, rfl, rfl⟩
    | none =>
        rw [hlimit] at h
        dsimp only at h
        right
        cases hexpr : sheet.expressionOf (fun callee =>
            (evaluate sheet options callee (trim formula :: inFlight)).result)
            (formulaPieces formula) with
        | error found =>
            rw [hexpr] at h
            cases h
            obtain ⟨hs, piece, hpiece, callee, hcall, hresult⟩ := Sheet.expressionOf_eq_error hexpr
            exact Or.inl ⟨hmem, hs, callee, ⟨piece, hpiece, hcall⟩, hresult⟩
        | ok expression =>
            rw [hexpr] at h
            exact Or.inr
              (Expression.failsArithmetically_evaluateWith Expression.binary64 expression error h)

/-- A structural error of a formula comes from the formulas in flight, from the limit, or from a
formula that it calls. -/
theorem structural_error_origin {error : EvalError}
    (h : (evaluate sheet options formula inFlight).result = .error error)
    (hs : error.isStructural = true) :
    (trim formula ∈ inFlight ∧ error = .circularReference) ∨
      (∃ limit, options.exceeded? inFlight = some limit ∧ error = .maxDepthExceeded limit) ∨
        (trim formula ∉ inFlight ∧ ∃ callee, sheet.Calls formula callee ∧
          (evaluate sheet options callee (trim formula :: inFlight)).result = .error error) := by
  cases hbody : formulaBody? formula with
  | none =>
      rw [evaluate_result_of_body_eq_none hbody] at h
      cases h
      by_cases hempty : trim formula = [] <;> simp [hempty, EvalError.isStructural] at hs
  | some body =>
      rcases evaluate_error_cases hbody h with hmem | hlimit | ⟨hfresh, -, hcallee⟩ | harithmetic
      · exact Or.inl hmem
      · exact Or.inr (Or.inl hlimit)
      · exact Or.inr (Or.inr ⟨hfresh, hcallee⟩)
      · rw [EvalError.isStructural_of_isArithmetic harithmetic] at hs
        cases hs

/-- A formula is never refused as no formula: it fails for the chain of its references or for its
expression. -/
theorem structural_or_arithmetic_of_evaluate {body : List Char} {error : EvalError}
    (hbody : formulaBody? formula = some body)
    (h : (evaluate sheet options formula inFlight).result = .error error) :
    error.isStructural = true ∨ error.isArithmetic = true := by
  rcases evaluate_error_cases hbody h with ⟨-, rfl⟩ | ⟨limit, -, rfl⟩ | ⟨-, hs, -⟩ | harithmetic
  · exact Or.inl rfl
  · exact Or.inl rfl
  · exact Or.inl hs
  · exact Or.inr harithmetic

theorem not_degradable_of_mem {body : List Char} (hbody : formulaBody? formula = some body)
    (hmem : trim formula ∈ inFlight) :
    ¬ Degradable (evaluate sheet options formula inFlight).result := by
  rw [evaluate_result_of_body hbody, if_pos hmem, degradable_error_iff]
  simp [EvalError.isStructural]

theorem not_degradable_of_exceeded {body : List Char} (hbody : formulaBody? formula = some body)
    {limit : Nat} (hlimit : options.exceeded? inFlight = some limit) :
    ¬ Degradable (evaluate sheet options formula inFlight).result := by
  by_cases hmem : trim formula ∈ inFlight
  · exact not_degradable_of_mem hbody hmem
  · rw [evaluate_result_of_body hbody, if_neg hmem, hlimit, degradable_error_iff]
    simp [EvalError.isStructural]

/-- If a formula that is called fails with a structural error, so does the formula. -/
theorem not_degradable_of_calls {callee : List Char} (hcall : sheet.Calls formula callee)
    (h : ¬ Degradable (evaluate sheet options callee (trim formula :: inFlight)).result) :
    ¬ Degradable (evaluate sheet options formula inFlight).result := by
  obtain ⟨body, hbody⟩ := Sheet.exists_body_of_caller hcall
  by_cases hmem : trim formula ∈ inFlight
  · exact not_degradable_of_mem hbody hmem
  · cases hlimit : options.exceeded? inFlight with
    | some limit => exact not_degradable_of_exceeded hbody hlimit
    | none =>
        obtain ⟨piece, hpiece, hpieceCall⟩ := hcall
        rw [evaluate_result_of_body hbody, if_neg hmem, hlimit]
        dsimp only
        obtain ⟨error, hexpr, hs⟩ := Sheet.exists_error_of_not_degradable (fun callee =>
          (evaluate sheet options callee (trim formula :: inFlight)).result) hpiece hpieceCall h
        rw [hexpr]
        intro hdegradable
        rw [hdegradable error rfl] at hs
        cases hs

theorem exceeded?_eq_none_of_sublist {fewer more : List (List Char)} (h : fewer.Sublist more)
    (hmore : options.exceeded? more = none) : options.exceeded? fewer = none := by
  rw [EvalOptions.exceeded?, Option.filter_eq_none_iff] at hmore ⊢
  intro limit hlimit
  have hlength := h.length_le
  have hlt := hmore limit hlimit
  simp only [decide_eq_true_eq, not_le] at hlt ⊢
  omega

/-- The formulas in flight can only bring a structural error. Where they bring none, a formula has
the same result with fewer of them. -/
theorem evaluate_result_of_sublist (formula : List Char) (more : List (List Char))
    (hdegradable : Degradable (evaluate sheet options formula more).result)
    {fewer : List (List Char)} (hsublist : fewer.Sublist more) :
    (evaluate sheet options formula fewer).result =
      (evaluate sheet options formula more).result := by
  induction formula, more using nesting_induction sheet generalizing fewer with
  | step formula more ih =>
      cases hbody : formulaBody? formula with
      | none => rw [evaluate_result_of_body_eq_none hbody, evaluate_result_of_body_eq_none hbody]
      | some body =>
          have hmore : trim formula ∉ more := fun hmem =>
            not_degradable_of_mem hbody hmem hdegradable
          have hfewer : trim formula ∉ fewer := fun hmem => hmore (hsublist.subset hmem)
          have hlimit : options.exceeded? more = none := by
            rw [Option.eq_none_iff_forall_ne_some]
            exact fun limit hlimit => not_degradable_of_exceeded hbody hlimit hdegradable
          refine evaluate_result_congr (iff_of_false hfewer hmore)
            ((exceeded?_eq_none_of_sublist hsublist hlimit).trans hlimit.symm)
            fun _ piece hpiece => Sheet.pieceText_congr fun callee hcall => ?_
          have hcalls : sheet.Calls formula callee := ⟨piece, hpiece, hcall⟩
          refine ih callee hcalls hmore ?_ (hsublist.cons_cons _)
          by_contra hcallee
          exact not_degradable_of_calls hcalls hcallee hdegradable

/-- A structural error is a circular reference or names the limit of the options. -/
theorem structural_error_cases (formula : List Char) (inFlight : List (List Char))
    {error : EvalError} (h : (evaluate sheet options formula inFlight).result = .error error)
    (hs : error.isStructural = true) :
    error = .circularReference ∨
      ∃ limit, options.maxDepth = some limit ∧ error = .maxDepthExceeded limit := by
  induction formula, inFlight using nesting_induction sheet with
  | step formula inFlight ih =>
      rcases structural_error_origin h hs with ⟨-, rfl⟩ | ⟨limit, hlimit, rfl⟩ |
        ⟨hfresh, callee, hcall, hresult⟩
      · exact Or.inl rfl
      · exact Or.inr ⟨limit, (Option.filter_eq_some_iff.mp hlimit).1, rfl⟩
      · exact ih callee hcall hfresh hresult

/-- Without a limit, the only structural error is that of a cycle. -/
theorem circular_of_not_degradable
    (h : ¬ Degradable (evaluate sheet {} formula inFlight).result) :
    (evaluate sheet {} formula inFlight).result = .error .circularReference := by
  obtain ⟨error, hresult, hs⟩ := not_degradable_iff.mp h
  rcases structural_error_cases formula inFlight hresult hs with rfl | ⟨limit, hlimit, -⟩
  · exact hresult
  · cases hlimit

end FormulaSheet
