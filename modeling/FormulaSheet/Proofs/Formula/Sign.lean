import Mathlib
import FormulaSheet.Proofs.Except
import FormulaSheet.Proofs.Formula.Degradation

/-!
# Numbers that spoil a formula

A negative number brings a minus sign into the expression of a formula that refers to it. There the
sign is an operator without a left operand of its own, and one operator too many: it may be applied
to operands that are none of its own, but then these are missing elsewhere. So a well-formed formula
has no value if one of its addresses is replaced by a negative number, nor if one is replaced by an
infinity or by no number at all.

* `spacedSymbols`: the symbols of a formula, with white space of every kind between them.
* `Sheet.Replaces`: the text that takes the place of an address.
* `Spoils`: the texts that leave a formula without a value.
* `positive_of_evaluate`: an expression with a value has no signs but those of the formula.
* `evaluateFormula_of_spoils`: formulas whose addresses are replaced by such texts.
-/

namespace FormulaSheet

open Text Expression

section Spacing

/-- White space of every kind as a space, which separates tokens. -/
def Atom.spaced : Atom → Atom
  | .char c => .char (if isBlank c then ' ' else c)
  | .address letters digits => .address letters digits

/-- The symbols of the body of a formula, where all white space stands between them. -/
def spacedSymbols (formula : List Char) : List Symbol :=
  symbolsAfter [] (((formulaPieces formula).flatMap Piece.atoms).map Atom.spaced)

variable {number : List Char → List Char → Binary64} {atoms : List Atom} {value : Binary64}

theorem symbolsAfter_spaced
    (h : ∀ c, .char c ∈ atoms → isBlank c = true → isSeparator c = true) (run : List Char) :
    symbolsAfter run (atoms.map Atom.spaced) = symbolsAfter run atoms := by
  induction atoms generalizing run with
  | nil => rfl
  | cons atom rest ih =>
      have ih := ih fun c hc => h c (List.mem_cons_of_mem _ hc)
      cases atom with
      | address letters digits =>
          simp only [List.map_cons, Atom.spaced, symbolsAfter, ih]
      | char c =>
          by_cases hblank : isBlank c = true
          · have hseparator := h c List.mem_cons_self hblank
            have hnumber := (isSeparator_cases hseparator).1
            have hspace : isNumberChar ' ' = false ∧ isSeparator ' ' = true := by decide
            simp only [List.map_cons, Atom.spaced, hblank, if_true, symbolsAfter, hspace.1,
              hspace.2, hnumber, hseparator, ih, Bool.false_eq_true, if_false]
          · simp only [List.map_cons, Atom.spaced, hblank, symbolsAfter, ih]
            rfl

/-- A text that has a value has only white space that separates tokens. -/
theorem symbolsAfter_spaced_of_evaluate
    (h : Expression.evaluate (atoms.flatMap (Atom.fill number)) = .ok value) :
    symbolsAfter [] (atoms.map Atom.spaced) = symbolsAfter [] atoms := by
  have hforeign : .foreign ∉ (tokens (atoms.flatMap (Atom.fill number))).map Token.role := by
    rw [List.mem_map]
    rintro ⟨token, htoken, hrole⟩
    have hlegal := (evaluateTokens_eq_ok (evaluate_eq_ok h).2).1 token htoken
    exact role_ne_foreign_of_isLegal hlegal hrole
  refine symbolsAfter_spaced (fun c hc hblank => ?_) []
  exact isSeparator_of_tokensAfter hforeign
    (List.mem_flatMap.mpr ⟨_, hc, List.mem_singleton_self c⟩) hblank

end Spacing

section Signs

variable {number : List Char → List Char → Binary64} {atoms : List Atom} {value : Binary64}

/-- Where an infix expression has a value, its operators are all its own: a sign that came in with a
number would be one too many. -/
theorem positive_of_evaluate
    (h : Expression.evaluate (atoms.flatMap (Atom.fill number)) = .ok value)
    (hshape : IsInfix ((symbolsAfter [] atoms).map Symbol.role)) {letters digits : List Char}
    (hmem : .address letters digits ∈ atoms) :
    (number letters digits).isFinite = true ∧ (number letters digits).negative = false := by
  refine ⟨isFinite_of_isExpressionText (evaluate_eq_ok h).1 hmem, ?_⟩
  have htokens := evaluateTokens_of_evaluate h (separated_of_isInfix hshape)
  have hsurplus := (evaluateTokens_eq_ok htokens).2.1
  have hsigns := surplus_tokens_add_signs number (symbolsAfter [] atoms)
  rw [hsurplus, surplus_of_isInfix hshape] at hsigns
  have hnone : signs number (symbolsAfter [] atoms) = 0 := by omega
  have hsymbol := List.countP_eq_zero.mp hnone _ (mem_symbolsAfter_of_mem hmem)
  simpa [Symbol.bringsSign] using hsymbol

/-- The token of a symbol, if texts that are single numbers take the place of the addresses. -/
def Symbol.asToken (text : List Char → List Char → List Char) : Symbol → Token
  | .token part => part
  | .address letters digits => .number (text letters digits)

theorem flatMap_tokens_of_positive {symbols : List Symbol}
    (h : ∀ letters digits, .address letters digits ∈ symbols →
      (number letters digits).isFinite = true ∧ (number letters digits).negative = false) :
    symbols.flatMap (Symbol.tokens number) =
      symbols.map (Symbol.asToken fun letters digits => (number letters digits).text) := by
  rw [List.map_eq_flatMap]
  refine List.flatMap_congr fun symbol hsymbol => ?_
  cases symbol with
  | token part => rfl
  | address letters digits =>
      obtain ⟨hfinite, hpositive⟩ := h letters digits hsymbol
      rw [Symbol.tokens, numberTokens, Symbol.asToken, Binary64.text_of_isFinite hfinite, hpositive]
      rfl

end Signs

/-- The outcomes of other formulas while a formula is in flight. -/
def Sheet.outcomeWithin (sheet : Sheet) (options : EvalOptions) (formula : List Char) :
    List Char → Except EvalError Binary64 :=
  fun callee => (FormulaSheet.evaluate sheet options callee [trim formula]).result

/-- When a formula is evaluated, an address token of it is replaced by a text. -/
structure Sheet.Replaces (sheet : Sheet) (options : EvalOptions)
    (formula letters digits text : List Char) : Prop where
  mem : .token letters digits ∈ formulaPieces formula
  result : (referenceValue sheet (FormulaSheet.evaluate sheet options) letters digits
    [trim formula]).result = .ok text

/-- The text brings a minus sign, or it is that of an infinity or of no number. -/
def Spoils (text : List Char) : Prop :=
  text.head? = some '-' ∨ text = "inf".toList ∨ text = "NaN".toList

/-- The formula has the value of an expression in which a single number stands for each address and
everything else is the formula's own, every operator included. -/
structure Sheet.ValueAsWritten (sheet : Sheet) (options : EvalOptions) (formula : List Char)
    (value : Binary64) (text : List Char → List Char → List Char) (expression : List Char) :
    Prop where
  replaces : ∀ letters digits, .token letters digits ∈ formulaPieces formula →
    sheet.Replaces options formula letters digits (text letters digits)
  resolves : (resolve sheet options formula []).result = .ok expression
  tokens : Expression.tokens expression = (spacedSymbols formula).map (Symbol.asToken text)
  value : ∃ tree, Writes 0 tree (Expression.tokens expression) ∧ tree.value binary64 = .ok value

section Formulas

variable {sheet : Sheet} {options : EvalOptions} {formula : List Char} {value : Binary64}
variable {letters digits text : List Char}

theorem pieceText_of_replaces (h : sheet.Replaces options formula letters digits text) :
    sheet.pieceText (sheet.outcomeWithin options formula) (.token letters digits) = .ok text := by
  have hresult := h.result
  rwa [referenceValue_result restores_evaluate] at hresult

/-- The number that takes the place of the token has a minus sign or is not finite. -/
theorem not_positive_of_spoils {x : Binary64} (h : Spoils x.text) :
    ¬ (x.isFinite = true ∧ x.negative = false) := by
  rintro ⟨hfinite, hpositive⟩
  have htext : x.text = Binary64.magnitudeText x.rank := by
    rw [Binary64.text_of_isFinite hfinite, hpositive]
    rfl
  have hnumber : ∀ c ∈ x.text, isNumberChar c = true := fun c hc =>
    Binary64.isNumberChar_of_mem_magnitudeText (Binary64.rank_ne_of_isFinite hfinite) (htext ▸ hc)
  rcases h with hminus | hinfinity | hnan
  · exact absurd (hnumber _ (List.mem_of_head? hminus)) (by decide)
  · exact absurd (hnumber 'i' (by simp [hinfinity])) (by decide)
  · exact absurd (hnumber 'N' (by simp [hnan])) (by decide)

/-- What the evaluation of a formula goes through that has a value. -/
theorem exists_expression
    (h : (FormulaSheet.evaluate sheet options formula []).result = .ok value) :
    ∃ expression, (resolve sheet options formula []).result = .ok expression ∧
      sheet.expressionOf (sheet.outcomeWithin options formula) (formulaPieces formula) =
        .ok expression ∧
      Expression.evaluate expression = .ok value := by
  cases hbody : formulaBody? formula with
  | none =>
      rw [evaluate_result_of_body_eq_none hbody] at h
      cases h
  | some body =>
      rw [evaluate_result] at h
      obtain ⟨expression, hresolve, hvalue⟩ := exists_of_bind_eq_ok h
      have hdegradable : Degradable (resolve sheet options formula []).result := by
        rw [resolve, hresolve]
        exact degradable_ok _
      have hexpression := resolve_result_of_degradable hbody hdegradable
      exact ⟨expression, hresolve, hexpression.symm.trans hresolve, hvalue⟩

/-- A token of a well-formed formula with a value is replaced by a finite number without a sign. -/
theorem positive_of_expressionOf {expression : List Char}
    (hexpression : sheet.expressionOf (sheet.outcomeWithin options formula)
      (formulaPieces formula) = .ok expression)
    (hvalue : Expression.evaluate expression = .ok value)
    (hwell : WellFormed (spacedSymbols formula)) :
    WellFormed (symbolsAfter [] ((formulaPieces formula).flatMap Piece.atoms)) ∧
      ∀ letters digits, .token letters digits ∈ formulaPieces formula →
        (sheet.tokenValue (sheet.outcomeWithin options formula) letters digits).isFinite = true ∧
        (sheet.tokenValue (sheet.outcomeWithin options formula) letters digits).negative =
          false := by
  rw [expressionOf_eq_fill hexpression] at hvalue
  rw [spacedSymbols, symbolsAfter_spaced_of_evaluate hvalue] at hwell
  exact ⟨hwell, fun letters digits hmem =>
    positive_of_evaluate hvalue hwell.isInfix (mem_flatMap_atoms.mpr hmem)⟩

theorem valueAsWritten_of_evaluate (hwell : WellFormed (spacedSymbols formula))
    (h : (FormulaSheet.evaluate sheet options formula []).result = .ok value) :
    ∃ text expression, sheet.ValueAsWritten options formula value text expression := by
  obtain ⟨expression, hresolve, hexpression, hvalue⟩ := exists_expression h
  obtain ⟨hsymbols, hpositive⟩ := positive_of_expressionOf hexpression hvalue hwell
  have hfill := expressionOf_eq_fill hexpression
  have hatoms : ∀ letters digits,
      .address letters digits ∈ (formulaPieces formula).flatMap Piece.atoms →
      (sheet.tokenValue (sheet.outcomeWithin options formula) letters digits).isFinite = true ∧
      (sheet.tokenValue (sheet.outcomeWithin options formula) letters digits).negative = false :=
    fun letters digits hmem => hpositive letters digits (mem_flatMap_atoms.mp hmem)
  refine ⟨fun letters digits =>
    (sheet.tokenValue (sheet.outcomeWithin options formula) letters digits).text, expression, ?_⟩
  exact {
    replaces := fun letters digits hmem => by
      obtain ⟨text, htext⟩ := Sheet.pieceText_of_expressionOf_eq_ok hexpression _ hmem
      refine ⟨hmem, ?_⟩
      rw [referenceValue_result restores_evaluate]
      rw [text_eq_value_text htext] at htext
      exact htext
    resolves := hresolve
    tokens := by
      rw [hfill] at hvalue ⊢
      rw [tokens_fill (fun letters digits hmem => (hatoms letters digits hmem).1)
        (separated_of_isInfix hsymbols.isInfix), spacedSymbols,
        symbolsAfter_spaced_of_evaluate hvalue]
      exact flatMap_tokens_of_positive fun letters digits hmem =>
        hatoms letters digits (address_mem_of_mem_symbolsAfter hmem)
    value := by
      obtain ⟨tree, htree⟩ := exists_writes_fill hsymbols hatoms
      rw [← hfill] at htree
      exact ⟨tree, htree, (evaluateWith_of_writes htree).symm.trans hvalue⟩ }

end Formulas

/-- A well-formed formula has no value if one of its addresses is replaced by a text with a minus
sign, by an infinity or by no number, whatever stands around it. Where it has a value, no operator
came in with a number. -/
theorem evaluateFormula_of_spoils (sheet : Sheet) (options : EvalOptions) (formula : String)
    (hwell : WellFormed (spacedSymbols formula.toList)) :
    (∀ letters digits text, sheet.Replaces options formula.toList letters digits text →
      Spoils text → ∃ error, evaluateFormula sheet options formula = .error error) ∧
    ∀ value, evaluateFormula sheet options formula = .ok value →
      ∃ text expression, sheet.ValueAsWritten options formula.toList value text expression := by
  refine ⟨fun letters digits text hreplaces hspoils => ?_, fun value hvalue =>
    valueAsWritten_of_evaluate hwell hvalue⟩
  cases hresult : evaluateFormula sheet options formula with
  | error error => exact ⟨error, rfl⟩
  | ok value =>
      obtain ⟨expression, -, hexpression, hvalue⟩ := exists_expression hresult
      obtain ⟨-, hpositive⟩ := positive_of_expressionOf hexpression hvalue hwell
      have htext := text_eq_value_text (pieceText_of_replaces hreplaces)
      rw [htext] at hspoils
      exact absurd (hpositive letters digits hreplaces.mem) (not_positive_of_spoils hspoils)

/-- A negative number, a formula that comes to negative zero, and a positive number. -/
def signedSheet : Sheet :=
  ⟨[Row.empty, Row.ofList [(1, "-5"), (2, "=0/(2-3)"), (3, "4")]]⟩

/-- The sign of the first formula is applied to the five in front of the parentheses, and the
product is left without an operand; the white space of the second one separates no tokens. -/
theorem evaluateFormula_of_spoils_signed :
    (WellFormed (spacedSymbols "=8/(5*(A1))".toList) ∧
      signedSheet.Replaces {} "=8/(5*(A1))".toList ['A'] ['1'] "-5".toList ∧
      Spoils "-5".toList ∧ ∃ error, evaluateFormula signedSheet {} "=8/(5*(A1))" = .error error) ∧
    (WellFormed (spacedSymbols "=A1*\u00a0(B1 - C1)".toList) ∧
      signedSheet.Replaces {} "=A1*\u00a0(B1 - C1)".toList ['B'] ['1'] "-0".toList ∧
      Spoils "-0".toList ∧
      ∃ error, evaluateFormula signedSheet {} "=A1*\u00a0(B1 - C1)" = .error error) ∧
    WellFormed (spacedSymbols "=(C1-1)*C1".toList) ∧
      evaluateFormula signedSheet {} "=(C1-1)*C1" = .ok (Binary64.ofBits 0x4028000000000000) ∧
      ∃ text expression, signedSheet.ValueAsWritten {} "=(C1-1)*C1".toList
        (Binary64.ofBits 0x4028000000000000) text expression := by
  have hquotient : WellFormed (spacedSymbols "=8/(5*(A1))".toList) := by decide
  have hspaced : WellFormed (spacedSymbols "=A1*\u00a0(B1 - C1)".toList) := by decide
  have hproduct : WellFormed (spacedSymbols "=(C1-1)*C1".toList) := by decide
  have hnegative : signedSheet.Replaces {} "=8/(5*(A1))".toList ['A'] ['1'] "-5".toList :=
    ⟨by decide, by decide +kernel⟩
  have hzero : signedSheet.Replaces {} "=A1*\u00a0(B1 - C1)".toList ['B'] ['1'] "-0".toList :=
    ⟨by decide, by decide +kernel⟩
  have hvalue : evaluateFormula signedSheet {} "=(C1-1)*C1" =
      .ok (Binary64.ofBits 0x4028000000000000) := by decide +kernel
  exact ⟨⟨hquotient, hnegative, .inl rfl,
      (evaluateFormula_of_spoils _ _ _ hquotient).1 _ _ _ hnegative (.inl rfl)⟩,
    ⟨hspaced, hzero, .inl rfl,
      (evaluateFormula_of_spoils _ _ _ hspaced).1 _ _ _ hzero (.inl rfl)⟩,
    hproduct, hvalue, (evaluateFormula_of_spoils _ _ _ hproduct).2 _ hvalue⟩

end FormulaSheet
