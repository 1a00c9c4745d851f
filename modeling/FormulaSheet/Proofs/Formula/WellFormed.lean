import Mathlib
import FormulaSheet.Proofs.Except
import FormulaSheet.Proofs.Formula.Nesting
import FormulaSheet.Proofs.Formula.Symbol

/-!
# Which formulas have a value

The scan of an expression counts operands and operators and does not look at their order. So a
formula may have a value although an operator stands behind its two operands, or although a
negative number that replaces an address brings an operator of its own. In all such formulas one
operand stands directly behind another, and apart from them only infix expressions have a value.

* `Reading.value`: the number whose text replaces a token.
* `wellFormed_of_evaluateFormula`: a formula with a value and without adjacent operands is an
  infix expression.
-/

namespace FormulaSheet

open Text Expression

/-- The number that a reading counts as, given the outcomes of formulas. -/
def Reading.value (outcome : List Char → Except EvalError Binary64) : Reading → Binary64
  | .number value => value
  | .formula text => outcomeValue (outcome text)

section Texts

variable {sheet : Sheet} {outcome : List Char → Except EvalError Binary64}

theorem text_eq_value_text {reading : Reading} {text : List Char}
    (h : reading.text outcome = .ok text) : text = (reading.value outcome).text := by
  cases reading with
  | number value => exact (Except.ok.inj h).symm
  | formula callee => exact outcomeText_eq_ok h

/-- The number that replaces a token. -/
def Sheet.tokenValue (sheet : Sheet) (outcome : List Char → Except EvalError Binary64)
    (letters digits : List Char) : Binary64 :=
  (sheet.tokenReading letters digits).value outcome

theorem pieceText_eq_fill {piece : Piece} {text : List Char}
    (h : sheet.pieceText outcome piece = .ok text) :
    text = piece.atoms.flatMap (Atom.fill (sheet.tokenValue outcome)) := by
  cases piece with
  | gap cs =>
      obtain rfl : cs = text := Except.ok.inj h
      simp [Piece.atoms, Atom.fill, List.flatMap_map]
  | token letters digits =>
      rw [text_eq_value_text h]
      simp [Piece.atoms, Atom.fill, Sheet.tokenValue]

theorem expressionOf_eq_fill {pieces : List Piece} {expression : List Char}
    (h : sheet.expressionOf outcome pieces = .ok expression) :
    expression = (pieces.flatMap Piece.atoms).flatMap (Atom.fill (sheet.tokenValue outcome)) := by
  induction pieces generalizing expression with
  | nil => exact (Except.ok.inj h).symm
  | cons piece rest ih =>
      obtain ⟨text, htext, h⟩ := exists_of_bind_eq_ok h
      obtain ⟨texts, htexts, h⟩ := exists_of_bind_eq_ok h
      rw [← Except.ok.inj h, pieceText_eq_fill htext, ih htexts, List.flatMap_cons,
        List.flatMap_append]

end Texts

section Shape

variable {number : List Char → List Char → Binary64} {atoms : List Atom} {value : Binary64}

/-- An infinity, or a value that is no number, gives a text that is no expression. -/
theorem isFinite_of_isExpressionText
    (h : isExpressionText (atoms.flatMap (Atom.fill number)) = true) {letters digits : List Char}
    (hmem : .address letters digits ∈ atoms) : (number letters digits).isFinite = true := by
  refine Binary64.isFinite_of_text (List.all_eq_true.mpr fun c hc => ?_)
  rw [isExpressionText, Bool.and_eq_true, List.all_eq_true] at h
  exact h.2 c (List.mem_flatMap.mpr ⟨_, hmem, hc⟩)

/-- Where numbers replace the addresses and the text that results has a value, these are the tokens
that have it. -/
theorem evaluateTokens_of_evaluate
    (h : Expression.evaluate (atoms.flatMap (Atom.fill number)) = .ok value)
    (hseparated : Separated ((symbolsAfter [] atoms).map Symbol.role)) :
    evaluateTokens binary64 ((symbolsAfter [] atoms).flatMap (Symbol.tokens number)) =
      .ok value := by
  obtain ⟨htext, htokens⟩ := evaluate_eq_ok h
  rwa [tokens_fill (fun _ _ => isFinite_of_isExpressionText htext) hseparated] at htokens

/-- Then the symbols are an infix expression if no two operands are adjacent. -/
theorem wellFormed_of_evaluate
    (h : Expression.evaluate (atoms.flatMap (Atom.fill number)) = .ok value)
    (hseparated : Separated ((symbolsAfter [] atoms).map Symbol.role)) :
    WellFormed (symbolsAfter [] atoms) := by
  obtain ⟨hlegal, hsurplus, hbalanced⟩ :=
    evaluateTokens_eq_ok (evaluateTokens_of_evaluate h hseparated)
  rw [balanced_tokens] at hbalanced
  have hsigns := surplus_tokens_add_signs number (symbolsAfter [] atoms)
  have hpart : ∀ part, .token part ∈ symbolsAfter [] atoms → part.IsLegal binary64 :=
    fun part hpart => hlegal part (List.mem_flatMap.mpr ⟨_, hpart, List.mem_singleton_self _⟩)
  have hforeign : .foreign ∉ (symbolsAfter [] atoms).map Symbol.role := by
    rw [List.mem_map]
    rintro ⟨symbol, hsymbol, hrole⟩
    cases symbol with
    | address letters digits => cases hrole
    | token part => exact role_ne_foreign_of_isLegal (hpart part hsymbol) hrole
  refine ⟨isInfix_of_surplus hforeign hseparated hbalanced (by omega), fun run hrun => ?_⟩
  exact Binary64.isNumeral_of_parse? (isNumberChar_of_mem_symbolsAfter (by simp) hrun)
    (hpart _ hrun)

end Shape

/-- A formula with a value, on any sheet and under any limit, is an infix expression of numerals
and addresses, unless an operand stands directly behind another. -/
theorem wellFormed_of_evaluateFormula (sheet : Sheet) (options : EvalOptions) (formula : String)
    (number : Binary64) (hvalue : evaluateFormula sheet options formula = .ok number)
    (hseparated : Separated ((formulaSymbols formula.toList).map Symbol.role)) :
    WellFormed (formulaSymbols formula.toList) := by
  have hresult : (evaluate sheet options formula.toList []).result = .ok number := hvalue
  cases hbody : formulaBody? formula.toList with
  | none =>
      rw [evaluate_result_of_body_eq_none hbody] at hresult
      cases hresult
  | some body =>
      rw [evaluate_result_of_body hbody, if_neg List.not_mem_nil] at hresult
      split at hresult
      · cases hresult
      · obtain ⟨expression, hexpression, hevaluate⟩ := exists_of_bind_eq_ok hresult
        rw [expressionOf_eq_fill hexpression] at hevaluate
        exact wellFormed_of_evaluate hevaluate hseparated

/-- A formula cell and a number, with white space and a literal that begins with a point. -/
def scaledSheet : Sheet :=
  ⟨[Row.empty, Row.ofList [(1, "=3-B1"), (2, "1")]]⟩

theorem wellFormed_of_evaluateFormula_scaled :
    evaluateFormula scaledSheet {} "=(3-B1) * .5/A1" = .ok (Binary64.ofBits 0x3fe0000000000000) ∧
      Separated ((formulaSymbols "=(3-B1) * .5/A1".toList).map Symbol.role) ∧
      WellFormed (formulaSymbols "=(3-B1) * .5/A1".toList) := by
  have hvalue : evaluateFormula scaledSheet {} "=(3-B1) * .5/A1" =
      .ok (Binary64.ofBits 0x3fe0000000000000) := by decide +kernel
  have hseparated : Separated ((formulaSymbols "=(3-B1) * .5/A1".toList).map Symbol.role) := by
    decide
  exact ⟨hvalue, hseparated, wellFormed_of_evaluateFormula _ _ _ _ hvalue hseparated⟩

/-- A1 holds a negative number. -/
def negativeSheet : Sheet :=
  ⟨[Row.empty, Row.ofList [(1, "-5")]]⟩

/-- Formulas with a value that are no infix expressions: an operator behind its two operands, a
sign in parentheses, and a literal glued to an address whose number brings the operator. -/
theorem not_wellFormed_of_adjacent :
    (evaluateFormula negativeSheet {} "=1 2+" = .ok (Binary64.ofBits 0x4008000000000000) ∧
        ¬ WellFormed (formulaSymbols "=1 2+".toList)) ∧
      (evaluateFormula negativeSheet {} "=1 (-5)" = .ok (Binary64.ofBits 0xc010000000000000) ∧
        ¬ WellFormed (formulaSymbols "=1 (-5)".toList)) ∧
      evaluateFormula negativeSheet {} "=2A1" = .ok (Binary64.ofBits 0xc008000000000000) ∧
        ¬ WellFormed (formulaSymbols "=2A1".toList) := by
  refine ⟨⟨by decide +kernel, fun h => ?_⟩, ⟨by decide +kernel, fun h => ?_⟩,
    by decide +kernel, fun h => ?_⟩
  · exact absurd h.isInfix (by decide)
  · exact absurd h.isInfix (by decide)
  · exact absurd h.isInfix (by decide)

end FormulaSheet
