import Mathlib
import FormulaSheet.Proofs.Except
import FormulaSheet.Proofs.Formula.Cut
import FormulaSheet.Proofs.Formula.Degradation
import FormulaSheet.Proofs.Formula.Depth

/-!
# What is substituted

A resolution that ends without an error fills the exact cut of the body: the gaps stay as they are,
and each token is replaced by the text of a number. This number is a matter of the sheet and the
token alone. A nested formula might have a structural error for the formulas in flight or for the
limit, but then the resolution fails; without one, it has the outcome that it has by itself and
without a limit.

* `evaluate_result_unlimited`: a limit that brings no structural error changes nothing.
* `Sheet.tokenNumber`: the number of a token.
* `expressionOf_eq_cutFill`: the expression of pieces is their cut with the tokens replaced.
* `resolve_substitutes`: the same of a whole resolution.
-/

namespace FormulaSheet

open Text Expression

section Limits

variable {sheet : Sheet} {options : EvalOptions}

/-- Without a structural error, a formula has the outcome that it has without a limit. -/
theorem evaluate_result_unlimited {formula : List Char}
    (h : Degradable (evaluate sheet options formula []).result) :
    (evaluate sheet options formula []).result = (evaluate sheet {} formula []).result := by
  obtain ⟨maxDepth⟩ := options
  cases maxDepth with
  | none => rfl
  | some limit =>
      cases hbody : formulaBody? formula with
      | none => rw [evaluate_result_of_body_eq_none hbody, evaluate_result_of_body_eq_none hbody]
      | some body =>
          refine evaluate_limited_eq formula [] fun chain hchain => ?_
          by_contra hlong
          exact not_degradable_of_isChain hbody hchain (not_lt.mp hlong) h

end Limits

/-- The number that a token comes to on a sheet, if nothing else is in flight and there is no
limit. -/
def Sheet.tokenNumber (sheet : Sheet) (letters digits : List Char) : Binary64 :=
  sheet.tokenValue (fun callee => (FormulaSheet.evaluate sheet {} callee []).result) letters digits

section Filling

variable {sheet : Sheet} {options : EvalOptions} {inFlight : List (List Char)}

/-- Whatever is in flight and whatever the limit is, a token that has a text has that of its
number. -/
theorem pieceText_eq_tokenNumber_text {letters digits text : List Char}
    (h : sheet.pieceText (fun callee => (evaluate sheet options callee inFlight).result)
      (.token letters digits) = .ok text) : text = (sheet.tokenNumber letters digits).text := by
  have hsame : sheet.pieceText (fun callee => (evaluate sheet {} callee []).result)
      (.token letters digits) = .ok text := by
    rw [← h]
    refine Sheet.pieceText_congr fun callee hcall => ?_
    rw [Sheet.pieceText_of_pieceCalls hcall] at h
    have hdegradable := Sheet.degradable_of_outcomeText h
    have halone := evaluate_result_of_sublist callee inFlight hdegradable (List.nil_sublist _)
    rw [← halone] at hdegradable ⊢
    exact (evaluate_result_unlimited hdegradable).symm
  exact text_eq_value_text hsame

theorem expressionOf_eq_cutFill {outcome : List Char → Except EvalError Binary64}
    {value : List Char → List Char → List Char} {pieces : List Piece} {expression : List Char}
    (hvalue : ∀ letters digits text, sheet.pieceText outcome (.token letters digits) = .ok text →
      text = value letters digits)
    (h : sheet.expressionOf outcome pieces = .ok expression) :
    expression = (Cut.ofPieces pieces).fill value := by
  induction pieces generalizing expression with
  | nil => exact (Except.ok.inj h).symm
  | cons piece rest ih =>
      obtain ⟨text, htext, h⟩ := exists_of_bind_eq_ok h
      obtain ⟨texts, htexts, h⟩ := exists_of_bind_eq_ok h
      rw [← Except.ok.inj h, ih htexts]
      cases piece with
      | gap cs =>
          obtain rfl : cs = text := Except.ok.inj htext
          exact (Cut.fill_extend cs value _).symm
      | token letters digits =>
          rw [hvalue letters digits text htext]
          rfl

end Filling

/-- A resolution without an error fills the body of its formula. The body has exactly one cut into
gaps and whole matches, in which every match of letters and digits lies; the gaps stay as they are,
and each token is replaced by the text of its number, which depends on the sheet and on nothing
else. -/
theorem resolve_substitutes (sheet : Sheet) (options : EvalOptions) (formula : List Char)
    (inFlight : List (List Char)) (expression : List Char)
    (hresult : (resolve sheet options formula inFlight).result = .ok expression) :
    ∃ body cut, trim formula = formulaMarker :: body ∧
      (cut : Cut).IsExact body ∧ (∀ other : Cut, other.IsExact body → other = cut) ∧
      (∀ o : Occurrence, o.IsMatch → o.text = body → ∃ token ∈ cut.occurrences, o.LiesIn token) ∧
      expression = cut.fill fun letters digits => (sheet.tokenNumber letters digits).text := by
  cases hbody : formulaBody? formula with
  | none =>
      rw [resolve, resolveWith_of_body_eq_none hbody] at hresult
      cases hresult
  | some body =>
      have hexact := Cut.isExact_ofPieces_split body
      refine ⟨body, _, formulaBody?_eq_some_iff.mp hbody, hexact, fun other hother =>
        hother.eq hexact, fun o hmatch htext => ?_, ?_⟩
      · obtain ⟨token, htoken, hlies⟩ := Occurrence.exists_isTokenOf hmatch
        rw [htext] at htoken
        exact ⟨token, (hexact.tokens token).mpr htoken, hlies⟩
      · have hexpression : (resolve sheet options formula inFlight).result = _ :=
          resolve_result_of_degradable hbody (hresult ▸ degradable_ok expression)
        rw [hresult, formulaPieces_of_body hbody] at hexpression
        exact expressionOf_eq_cutFill (fun _ _ _ => pieceText_eq_tokenNumber_text) hexpression.symm

/-- A number, a formula, and a text with an operator and a parenthesis. -/
def mixedSheet : Sheet :=
  ⟨[Row.empty, Row.ofList [(1, "2.50"), (2, "=A1*2"), (3, "A1+1)")]]⟩

/-- Two tokens side by side, zeros in front of a row, and letters without a digit. -/
theorem resolve_substitutes_mixed :
    (resolve mixedSheet {} "=C1B1+é(A01)2A".toList []).result = .ok "05+é(2.5)2A".toList ∧
      ∃ cut : Cut, cut.IsExact "C1B1+é(A01)2A".toList ∧
        cut = .token [] ['C'] ['1'] (.token [] ['B'] ['1']
          (.token "+é(".toList ['A'] "01".toList (.last ")2A".toList))) ∧
        "05+é(2.5)2A".toList =
          cut.fill fun letters digits => (mixedSheet.tokenNumber letters digits).text := by
  have hresult : (resolve mixedSheet {} "=C1B1+é(A01)2A".toList []).result =
      .ok "05+é(2.5)2A".toList := by decide +kernel
  obtain ⟨body, cut, hbody, hexact, -, -, hfill⟩ := resolve_substitutes _ _ _ _ _ hresult
  have htrim : trim "=C1B1+é(A01)2A".toList = formulaMarker :: "C1B1+é(A01)2A".toList := by decide
  obtain rfl := (List.cons.inj (htrim.symm.trans hbody)).2
  refine ⟨hresult, cut, hexact, ?_, hfill⟩
  rw [hexact.eq (Cut.isExact_ofPieces_split _)]
  decide

end FormulaSheet
