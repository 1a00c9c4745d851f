import Mathlib
import FormulaSheet.Proofs.Formula.WellFormed
import FormulaSheet.Proofs.Sheet.Diagnosis

/-!
# What references come to

Where no structural error ends a resolution, every address token of the formula is replaced by the
text of a number. The cell of the token *yields* the number: its text is read as one, or its formula
has it as its value, whatever other formulas are in flight. A token that yields no number counts as
zero, and so a reference can make a well-formed formula fail in three ways only: a divisor comes to
zero, or the number brings in a minus sign, or it is not finite and its text is no numeral.

* `Sheet.Yields`, `Sheet.CountsAsZero`: which tokens have a number, and which count as zero.
* `Sheet.Substitutes`: the texts that may take the place of a token.
* `Sheet.countsAsZero_or_yields`, `substitutes_of_pieceText`: each token has such a text.
* `references_degrade`: the same of whole formulas, and what makes a well-formed formula fail.
-/

namespace FormulaSheet

open Text Expression

namespace Sheet

variable (sheet : Sheet) (options : EvalOptions) (letters digits : List Char)

/-- The address that a token names has a cell, and this is its text. -/
def TokenCell (text : String) : Prop :=
  ∃ address, Address.ofParts? letters digits = some address ∧
    sheet.get? address.row address.column = some text

/-- The cell of a token has a number: its text is read as one, or it holds a formula with this
value. The number need not be finite. -/
inductive Yields : Binary64 → Prop
  | text {text : String} {number : Binary64} (hcell : sheet.TokenCell letters digits text)
      (hformula : isFormula text = false)
      (hnumber : Binary64.parse? (trim text.toList) = some number) : Yields number
  | formula {text : String} {number : Binary64} (hcell : sheet.TokenCell letters digits text)
      (hformula : isFormula text = true)
      (hnumber : evaluateFormula sheet options text = .ok number) : Yields number

/-- Why a token counts as zero. -/
inductive CountsAsZero : Prop
  | undecodable (hparts : Address.ofParts? letters digits = none)
  /-- The row of the address is missing, or the column in its row. -/
  | missing {address : Address} (hparts : Address.ofParts? letters digits = some address)
      (hcell : sheet.get? address.row address.column = none)
  | blank {text : String} (hcell : sheet.TokenCell letters digits text)
      (hblank : trim text.toList = [])
  /-- The text is neither a decimal nor a word for an infinity or for no number. -/
  | notANumber {text : String} (hcell : sheet.TokenCell letters digits text)
      (hformula : isFormula text = false) (hdecimal : ¬ IsDecimal (trim text.toList))
      (hword : ¬ IsWord (trim text.toList))
  /-- The cell holds a formula that is shown as the marker, and not because its value is not
  finite. -/
  | failed {text : String} (hcell : sheet.TokenCell letters digits text)
      (hformula : isFormula text = true) (hshown : shownText sheet options text = errorMarker)
      (hfinite : ∀ number, evaluateFormula sheet options text = .ok number →
        number.isFinite = true)

/-- What a text that takes the place of a token is: the text of the number that the cell yields, and
zero where there is a reason for that. It is always the text of a finite number, unless the cell
yields another. -/
structure Substitutes (text : List Char) : Prop where
  number : ∀ number, sheet.Yields options letters digits number → text = number.text
  zero : sheet.CountsAsZero options letters digits → text = zeroText
  finite : (∀ number, sheet.Yields options letters digits number → number.isFinite = true) →
    ∃ number : Binary64, number.isFinite = true ∧ text = number.text

section Cells

variable {sheet options letters digits} {text other : String} {number value : Binary64}

theorem TokenCell.eq (h : sheet.TokenCell letters digits text)
    (hother : sheet.TokenCell letters digits other) : text = other := by
  obtain ⟨address, hparts, hcell⟩ := h
  obtain ⟨found, hfound, hother⟩ := hother
  obtain rfl : address = found := Option.some.inj (hparts.symm.trans hfound)
  exact Option.some.inj (hcell.symm.trans hother)

/-- What a cell without a formula yields. -/
theorem yields_iff_of_text (hcell : sheet.TokenCell letters digits text)
    (hformula : isFormula text = false) :
    sheet.Yields options letters digits number ↔
      Binary64.parse? (trim text.toList) = some number := by
  constructor
  · intro h
    cases h with
    | text hcell' _ hnumber => rwa [hcell.eq hcell']
    | formula hcell' hformula' _ => simp [← hcell.eq hcell', hformula] at hformula'
  · exact .text hcell hformula

theorem yields_iff_of_formula (hcell : sheet.TokenCell letters digits text)
    (hformula : isFormula text = true) :
    sheet.Yields options letters digits number ↔
      evaluateFormula sheet options text = .ok number := by
  constructor
  · intro h
    cases h with
    | text hcell' hformula' _ => simp [← hcell.eq hcell', hformula] at hformula'
    | formula hcell' _ hnumber => rwa [hcell.eq hcell']
  · exact .formula hcell hformula

theorem Yields.eq (h : sheet.Yields options letters digits number)
    (hvalue : sheet.Yields options letters digits value) : number = value := by
  cases h with
  | text hcell hformula hnumber =>
      rw [yields_iff_of_text hcell hformula] at hvalue
      exact Option.some.inj (hnumber.symm.trans hvalue)
  | formula hcell hformula hnumber =>
      rw [yields_iff_of_formula hcell hformula] at hvalue
      exact Except.ok.inj (hnumber.symm.trans hvalue)

theorem tokenReading_of_tokenCell (h : sheet.TokenCell letters digits text) :
    sheet.tokenReading letters digits = .ofText (trim text.toList) := by
  obtain ⟨address, hparts, hcell⟩ := h
  simp only [tokenReading, hparts, reading, textAt?, hcell, Option.map_some]

theorem tokenReading_of_not_tokenCell (h : ∀ text, ¬ sheet.TokenCell letters digits text) :
    sheet.tokenReading letters digits = .number (Binary64.zero false) := by
  unfold tokenReading
  split
  · next address hparts =>
      cases hcell : sheet.get? address.row address.column with
      | some text => exact absurd ⟨address, hparts, hcell⟩ (h text)
      | none => simp only [reading, textAt?, hcell, Option.map_none]
  · rfl

theorem Yields.exists_tokenCell (h : sheet.Yields options letters digits number) :
    ∃ text, sheet.TokenCell letters digits text := by
  cases h with
  | text hcell _ _ => exact ⟨_, hcell⟩
  | formula hcell _ _ => exact ⟨_, hcell⟩

/-- The number of a text is a decimal or a word, and a formula with a finite value is not shown as
the marker. -/
theorem CountsAsZero.not_yields (h : sheet.CountsAsZero options letters digits) :
    ¬ sheet.Yields options letters digits number := by
  intro hyields
  cases h with
  | undecodable hparts =>
      obtain ⟨text, address, hfound, -⟩ := hyields.exists_tokenCell
      rw [hparts] at hfound
      cases hfound
  | missing hparts hcell =>
      obtain ⟨text, address, hfound, htext⟩ := hyields.exists_tokenCell
      obtain rfl := Option.some.inj (hparts.symm.trans hfound)
      rw [hcell] at htext
      cases htext
  | @blank text hcell hblank =>
      have hformula : isFormula text = false := by
        rw [← Bool.not_eq_true, isFormula_iff, hblank]
        simp
      rw [yields_iff_of_text hcell hformula, hblank, parse?_nil] at hyields
      cases hyields
  | notANumber hcell hformula hdecimal hword =>
      rw [yields_iff_of_text hcell hformula] at hyields
      have hsome := Option.isSome_of_eq_some hyields
      rcases Binary64.isSome_parse?_iff.mp hsome with h | h
      · exact hdecimal h
      · exact hword h
  | failed hcell hformula hshown hfinite =>
      rw [yields_iff_of_formula hcell hformula] at hyields
      obtain ⟨error, herror⟩ := (shownText_eq_errorMarker_iff hformula).mp hshown
      rw [evaluateCell_eq_ok_iff.mpr ⟨number, hyields, hfinite number hyields, rfl⟩] at herror
      cases herror

/-- There is no third way for a token. -/
theorem countsAsZero_or_yields (sheet : Sheet) (options : EvalOptions)
    (letters digits : List Char) :
    sheet.CountsAsZero options letters digits ∨
      ∃ number, sheet.Yields options letters digits number := by
  cases hparts : Address.ofParts? letters digits with
  | none => exact Or.inl (.undecodable hparts)
  | some address =>
      cases hget : sheet.get? address.row address.column with
      | none => exact Or.inl (.missing hparts hget)
      | some text =>
          have hcell : sheet.TokenCell letters digits text := ⟨address, hparts, hget⟩
          by_cases hformula : isFormula text = true
          · cases hresult : evaluateFormula sheet options text with
            | ok number => exact Or.inr ⟨number, .formula hcell hformula hresult⟩
            | error error =>
                have hshown := (shownText_eq_errorMarker_iff hformula).mpr
                  ⟨error, by rw [evaluateCell, hresult]⟩
                refine Or.inl (.failed hcell hformula hshown fun number hnumber => ?_)
                rw [hresult] at hnumber
                cases hnumber
          · rw [Bool.not_eq_true] at hformula
            cases hparse : Binary64.parse? (trim text.toList) with
            | some number => exact Or.inr ⟨number, .text hcell hformula hparse⟩
            | none =>
                have hunread : ¬ (Binary64.parse? (trim text.toList)).isSome = true := by
                  simp [hparse]
                rw [Binary64.isSome_parse?_iff, not_or] at hunread
                exact Or.inl (.notANumber hcell hformula hunread.1 hunread.2)

end Cells

end Sheet

section Tokens

variable {sheet : Sheet} {options : EvalOptions} {letters digits replaced : List Char}

/-- A formula whose evaluation in the course of another brings no structural error has the outcome
that it has by itself. -/
theorem evaluate_result_eq_evaluateFormula {text : String} {inFlight : List (List Char)}
    (h : Degradable (evaluate sheet options (trim text.toList) inFlight).result) :
    (evaluate sheet options (trim text.toList) inFlight).result =
      evaluateFormula sheet options text := by
  rw [← evaluate_result_of_sublist _ _ h (List.nil_sublist _), evaluate_trim]
  rfl

/-- A token is replaced by the text of the number that it yields, or by zero if it yields none. -/
theorem yields_or_eq_zeroText {inFlight : List (List Char)}
    (h : sheet.pieceText (fun callee => (evaluate sheet options callee inFlight).result)
      (.token letters digits) = .ok replaced) :
    (∃ number, sheet.Yields options letters digits number ∧ replaced = number.text) ∨
      (∀ number, ¬ sheet.Yields options letters digits number) ∧ replaced = zeroText := by
  rw [Sheet.pieceText] at h
  by_cases htoken : ∃ text, sheet.TokenCell letters digits text
  · obtain ⟨text, hcell⟩ := htoken
    rw [Sheet.tokenReading_of_tokenCell hcell, Reading.ofText] at h
    by_cases hformula : isFormula text = true
    · rw [if_pos (isFormula_iff.mp hformula), Reading.text] at h
      rw [evaluate_result_eq_evaluateFormula (Sheet.degradable_of_outcomeText h)] at h
      cases hresult : evaluateFormula sheet options text with
      | ok number =>
          rw [hresult] at h
          exact Or.inl ⟨number, .formula hcell hformula hresult, (Except.ok.inj h).symm⟩
      | error error =>
          refine Or.inr ⟨fun number hyields => ?_, ?_⟩
          · rw [Sheet.yields_iff_of_formula hcell hformula, hresult] at hyields
            cases hyields
          · rw [outcomeText_eq_ok h, hresult, outcomeValue, zero_text]
    · rw [if_neg (mt isFormula_iff.mpr hformula), Reading.text] at h
      rw [Bool.not_eq_true] at hformula
      obtain rfl := Except.ok.inj h
      cases hparse : Binary64.parse? (trim text.toList) with
      | some number => exact Or.inl ⟨number, .text hcell hformula hparse, rfl⟩
      | none =>
          refine Or.inr ⟨fun number hyields => ?_, zero_text⟩
          rw [Sheet.yields_iff_of_text hcell hformula, hparse] at hyields
          cases hyields
  · rw [Sheet.tokenReading_of_not_tokenCell (not_exists.mp htoken), Reading.text] at h
    obtain rfl := Except.ok.inj h
    exact Or.inr ⟨fun number hyields => htoken hyields.exists_tokenCell, zero_text⟩

theorem substitutes_of_pieceText {inFlight : List (List Char)}
    (h : sheet.pieceText (fun callee => (evaluate sheet options callee inFlight).result)
      (.token letters digits) = .ok replaced) :
    sheet.Substitutes options letters digits replaced := by
  rcases yields_or_eq_zeroText h with ⟨number, hyields, rfl⟩ | ⟨hnone, rfl⟩
  · exact {
      number := fun other hother => by rw [hyields.eq hother]
      zero := fun hzero => absurd hyields hzero.not_yields
      finite := fun hfinite => ⟨number, hfinite number hyields, rfl⟩ }
  · exact {
      number := fun number hyields => absurd hyields (hnone number)
      zero := fun _ => rfl
      finite := fun _ => ⟨Binary64.zero false, by decide, zero_text.symm⟩ }

end Tokens

/-- What can make a formula fail whose pieces are replaced by texts: a divisor that comes to zero in
the tree that the whole text is written for, a minus sign that begins the text of a token, or a
number that is not finite. -/
inductive Sheet.FailsThrough (sheet : Sheet) (options : EvalOptions) (formula : List Char)
    (text : Piece → List Char) : EvalError → Prop
  | zero {tree : Tree}
      (hwrites : Writes 0 tree (tokens ((formulaPieces formula).flatMap text)))
      (hzero : tree.DividesByZero binary64) :
      FailsThrough sheet options formula text .divisionByZero
  | minusSign {letters digits : List Char} {error : EvalError}
      (hmem : .token letters digits ∈ formulaPieces formula)
      (hsign : (text (.token letters digits)).head? = some '-') :
      FailsThrough sheet options formula text error
  | notFinite {letters digits : List Char} {number : Binary64} {error : EvalError}
      (hmem : .token letters digits ∈ formulaPieces formula)
      (hyields : sheet.Yields options letters digits number) (hfinite : number.isFinite = false) :
      FailsThrough sheet options formula text error

/-- The pieces of a formula are replaced by texts: the gaps by themselves, and the tokens by what
their cells yield. -/
structure Sheet.ResolvesBy (sheet : Sheet) (options : EvalOptions) (formula : List Char)
    (inFlight : List (List Char)) (text : Piece → List Char) : Prop where
  result : (resolve sheet options formula inFlight).result =
    .ok ((formulaPieces formula).flatMap text)
  gap : ∀ cs, text (.gap cs) = cs
  token : ∀ letters digits, .token letters digits ∈ formulaPieces formula →
    sheet.Substitutes options letters digits (text (.token letters digits))
  failure : WellFormed (formulaSymbols formula) → ∀ error,
    (FormulaSheet.evaluate sheet options formula inFlight).result = .error error →
      sheet.FailsThrough options formula text error

section Formulas

variable {sheet : Sheet} {options : EvalOptions} {formula : List Char}
variable {inFlight : List (List Char)}

theorem exists_texts_of_expressionOf_eq_ok {outcome : List Char → Except EvalError Binary64}
    {pieces : List Piece} {expression : List Char}
    (h : sheet.expressionOf outcome pieces = .ok expression) :
    ∃ text : Piece → List Char, (∀ cs, text (.gap cs) = cs) ∧
      ∀ piece ∈ pieces, sheet.pieceText outcome piece = .ok (text piece) := by
  refine ⟨fun piece => (sheet.pieceText outcome piece).toOption.getD [], fun _ => rfl, ?_⟩
  intro piece hpiece
  obtain ⟨text, htext⟩ := Sheet.pieceText_of_expressionOf_eq_ok h piece hpiece
  simp [htext, Except.toOption]

theorem resolve_result_of_degradable {body : List Char} (hbody : formulaBody? formula = some body)
    (h : Degradable (resolve sheet options formula inFlight).result) :
    (resolve sheet options formula inFlight).result =
      sheet.expressionOf (fun callee =>
        (evaluate sheet options callee (trim formula :: inFlight)).result)
        (formulaPieces formula) := by
  rw [resolve, resolveWith_of_body hbody] at h ⊢
  by_cases hmem : trim formula ∈ inFlight
  · rw [if_pos hmem] at h
    cases h _ rfl
  · rw [if_neg hmem] at h ⊢
    cases hlimit : options.exceeded? inFlight with
    | some limit =>
        rw [hlimit] at h
        cases h _ rfl
    | none => exact bodyExpression_result formula inFlight

/-- The number behind a text without a minus sign that is the text of a finite one. -/
theorem tokenValue_of_finite {outcome : List Char → Except EvalError Binary64}
    {letters digits text : List Char}
    (htoken : sheet.pieceText outcome (.token letters digits) = .ok text)
    (hfinite : ∃ number : Binary64, number.isFinite = true ∧ text = number.text)
    (hsign : text.head? ≠ some '-') :
    (sheet.tokenValue outcome letters digits).isFinite = true ∧
      (sheet.tokenValue outcome letters digits).negative = false := by
  have htext : text = (sheet.tokenValue outcome letters digits).text := text_eq_value_text htoken
  obtain ⟨number, hnumber, heq⟩ := hfinite
  have hvalue := Binary64.isFinite_of_text_eq hnumber (htext.symm.trans heq)
  refine ⟨hvalue, ?_⟩
  rw [htext, Binary64.text_of_isFinite hvalue] at hsign
  by_contra hnegative
  rw [if_pos (by simpa using hnegative)] at hsign
  exact hsign rfl

/-- Where all numbers are finite and none is negative, the tokens of a well-formed formula are those
of a tree, and only a divisor can make it fail. -/
theorem failsThrough_of_evaluate {text : Piece → List Char} {error : EvalError}
    (hpieces : ∀ piece ∈ formulaPieces formula, sheet.pieceText (fun callee =>
      (evaluate sheet options callee inFlight).result) piece = .ok (text piece))
    (hwell : WellFormed (formulaSymbols formula))
    (h : Expression.evaluate ((formulaPieces formula).flatMap text) = .error error) :
    sheet.FailsThrough options formula text error := by
  by_contra hnone
  obtain ⟨tree, htree⟩ := exists_writes_fill hwell fun letters digits hatom => by
    have hmem := mem_flatMap_atoms.mp hatom
    refine tokenValue_of_finite (hpieces _ hmem) ?_ fun hsign => hnone (.minusSign hmem hsign)
    refine (substitutes_of_pieceText (hpieces _ hmem)).finite fun number hyields => ?_
    by_contra hfinite
    exact hnone (.notFinite hmem hyields (by simpa using hfinite))
  rw [← expressionOf_eq_fill (Sheet.expressionOf_eq_ok hpieces)] at htree
  have hcomputes := computes_of_writes readsNumerals_binary64 htree
  by_cases hzero : tree.DividesByZero binary64
  · obtain rfl := Except.error.inj (h.symm.trans (hcomputes.divisionByZero hzero))
    exact hnone (.zero htree hzero)
  · obtain ⟨value, -, hvalue⟩ := hcomputes.value hzero
    cases h.symm.trans hvalue

end Formulas

/-- A token counts as zero or its cell yields a number, which need not be finite. If its resolution
meets no structural error, the token is replaced by the text of that number. Nothing else comes into
the expression of a formula, and only a divisor, a minus sign or a number that is not finite makes a
well-formed formula fail. -/
theorem references_degrade (sheet : Sheet) (options : EvalOptions) (inFlight : List (List Char)) :
    (∀ letters digits, sheet.CountsAsZero options letters digits ∨
      ∃ number, sheet.Yields options letters digits number) ∧
    (∀ letters digits,
      Degradable (referenceValue sheet (evaluate sheet options) letters digits inFlight).result →
        ∃ text, (referenceValue sheet (evaluate sheet options) letters digits inFlight).result =
          .ok text ∧ sheet.Substitutes options letters digits text) ∧
    ∀ formula, isFormulaText formula = true →
      Degradable (resolve sheet options formula inFlight).result →
        ∃ text, sheet.ResolvesBy options formula inFlight text := by
  refine ⟨sheet.countsAsZero_or_yields options, ?_, ?_⟩
  · intro letters digits hdegradable
    have hresult : (referenceValue sheet (evaluate sheet options) letters digits inFlight).result =
        sheet.pieceText (fun callee => (evaluate sheet options callee inFlight).result)
          (.token letters digits) := referenceValue_result restores_evaluate letters digits inFlight
    rw [hresult] at hdegradable ⊢
    obtain ⟨text, htext⟩ := Sheet.exists_pieceText_of_degradable hdegradable
    exact ⟨text, htext, substitutes_of_pieceText htext⟩
  · intro formula hformula hdegradable
    have hmarker : (trim formula).head? = some formulaMarker := by
      rw [head?_trim]
      simpa [isFormulaText] using hformula
    obtain ⟨body, hbody⟩ := Option.isSome_iff_exists.mp (isSome_formulaBody?_iff.mpr hmarker)
    have hresult := resolve_result_of_degradable hbody hdegradable
    cases hexpression : sheet.expressionOf (fun callee =>
        (evaluate sheet options callee (trim formula :: inFlight)).result)
        (formulaPieces formula) with
    | error error =>
        have hs := (Sheet.expressionOf_eq_error hexpression).1
        rw [hdegradable error (hresult.trans hexpression)] at hs
        cases hs
    | ok expression =>
        obtain ⟨text, hgap, hpieces⟩ := exists_texts_of_expressionOf_eq_ok hexpression
        rw [Sheet.expressionOf_eq_ok hpieces] at hresult
        refine ⟨text, hresult, hgap, fun letters digits hmem =>
          substitutes_of_pieceText (hpieces _ hmem), fun hwell error herror => ?_⟩
        refine failsThrough_of_evaluate hpieces hwell ?_
        rw [evaluate_result] at herror
        rw [resolve] at hresult
        rwa [hresult] at herror

/-- No number, a formula that divides by zero, and a formula that makes up for the first. -/
def patchySheet : Sheet :=
  ⟨[Row.empty, Row.ofList [(1, "n/a"), (2, "=1/0"), (3, "=A1+5")]]⟩

theorem references_degrade_patchy :
    (patchySheet.CountsAsZero {} ['B'] ['1'] ∧
      Degradable
        (referenceValue patchySheet (evaluate patchySheet {}) ['B'] ['1'] []).result ∧
      (referenceValue patchySheet (evaluate patchySheet {}) ['B'] ['1'] []).result =
        .ok zeroText) ∧
    isFormulaText "=C1/(A1+D9)".toList = true ∧
      Degradable (resolve patchySheet {} "=C1/(A1+D9)".toList []).result ∧
      ∃ text, patchySheet.ResolvesBy {} "=C1/(A1+D9)".toList [] text ∧
        patchySheet.FailsThrough {} "=C1/(A1+D9)".toList text .divisionByZero := by
  obtain ⟨-, htokens, hformulas⟩ := references_degrade patchySheet {} []
  have hformula : isFormulaText "=C1/(A1+D9)".toList = true := by decide
  have hwell : WellFormed (formulaSymbols "=C1/(A1+D9)".toList) := by decide
  have herror : (evaluate patchySheet {} "=C1/(A1+D9)".toList []).result =
    .error .divisionByZero := by decide +kernel
  have hfailed : evaluateFormula patchySheet {} "=1/0" = .error .divisionByZero := by
    decide +kernel
  have hcell : patchySheet.TokenCell ['B'] ['1'] "=1/0" := ⟨⟨2, 1⟩, by decide, by decide⟩
  have hzero : patchySheet.CountsAsZero {} ['B'] ['1'] := by
    refine .failed hcell (by decide) (by decide +kernel) fun number hnumber => ?_
    rw [hfailed] at hnumber
    cases hnumber
  have htoken : Degradable
      (referenceValue patchySheet (evaluate patchySheet {}) ['B'] ['1'] []).result := by
    decide +kernel
  have hresolve : Degradable (resolve patchySheet {} "=C1/(A1+D9)".toList []).result := by
    decide +kernel
  obtain ⟨replaced, hreplaced, hsubstitutes⟩ := htokens ['B'] ['1'] htoken
  obtain ⟨text, htext⟩ := hformulas _ hformula hresolve
  refine ⟨⟨hzero, htoken, ?_⟩, hformula, hresolve, text, htext, htext.failure hwell _ herror⟩
  rw [hreplaced, hsubstitutes.zero hzero]

/-- An infinity as a word and as a product, and two texts that can stand behind other digits. -/
def overflowSheet : Sheet :=
  ⟨[Row.empty, Row.ofList [(1, "inf"), (2, "1e200"), (3, "=B1*B1"), (4, "0.5"), (5, "2")]]⟩

/-- A formula that is shown as the marker and a text that is no decimal come to an infinity and not
to zero, and make the formula fail that refers to them. So does a number that is glued to a literal
and brings a second point with it. -/
theorem infinity_in_expression :
    (shownText overflowSheet {} "=B1*B1" = errorMarker ∧
      (resolve overflowSheet {} "=C1+1".toList []).result = .ok "inf+1".toList ∧
      evaluateFormula overflowSheet {} "=C1+1" =
        .error (.invalidExpression .invalidCharacters)) ∧
    ((¬ IsDecimal "inf".toList) ∧
      (resolve overflowSheet {} "=A1".toList []).result = .ok "inf".toList ∧
      ∀ number : Binary64, number.isFinite = true → number.text ≠ "inf".toList) ∧
    evaluateFormula overflowSheet {} "=1.5D1" =
      .error (.invalidExpression (.malformedNumber "1.50.5".toList)) ∧
    evaluateFormula overflowSheet {} "=1.5E1" = .ok (Binary64.ofBits 0x3ff851eb851eb852) := by
  refine ⟨⟨by decide +kernel, by decide +kernel, by decide +kernel⟩, ⟨?_, by decide +kernel, ?_⟩,
    by decide +kernel, by decide +kernel⟩
  · intro hdecimal
    exact absurd (Binary64.any_isNumberChar_of_isDecimal hdecimal) (by decide)
  · intro number hfinite htext
    have hmem : 'i' ∈ number.text := by
      rw [htext]
      decide
    rcases Binary64.eq_minus_or_isNumberChar_of_mem_text hfinite hmem with heq | hnumber
    · exact absurd heq (by decide)
    · exact absurd hnumber (by decide)

end FormulaSheet
