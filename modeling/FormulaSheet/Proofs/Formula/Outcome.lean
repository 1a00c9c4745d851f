import FormulaSheet.Proofs.Expression.Degradable
import FormulaSheet.Proofs.Formula.Reference

/-!
# Results of resolutions

Every step of a resolution leaves the formulas in flight as it found them. So the result of a
formula is a function of its text and of those in flight, and the texts that replace its tokens
are read off the outcomes of the formulas that it calls.

* `Resolving.Restores`: a computation that restores the set of formulas in flight.
* `Sheet.expressionOf`: the expression of pieces, given the outcomes of formulas.
* `substitute_result`: substitution computes that expression.
-/

namespace FormulaSheet

open Text

namespace Resolving

variable {α β : Type}

/-- A computation that leaves the formulas in flight as it found them. -/
def Restores (x : Resolving α) : Prop :=
  ∀ inFlight, (x inFlight).inFlight = inFlight

theorem restores_value (a : α) : Restores (value a) := fun _ => rfl

theorem restores_ofExcept (result : Except EvalError α) : Restores (Resolving.ofExcept result) :=
  fun _ => rfl

theorem restores_report (event : Event) : Restores (report event) := fun _ => rfl

theorem restores_fail (error : EvalError) : Restores (fail error : Resolving α) := fun _ => rfl

theorem bind_of_error {x : Resolving α} {f : α → Resolving β} {inFlight : List (List Char)}
    {error : EvalError} (h : (x inFlight).result = .error error) :
    (x >>= f) inFlight = ⟨.error error, (x inFlight).inFlight, (x inFlight).history⟩ := by
  show andThen x f inFlight = _
  simp only [andThen, h]

theorem bind_of_ok {x : Resolving α} {f : α → Resolving β} {inFlight : List (List Char)} {a : α}
    (h : (x inFlight).result = .ok a) :
    (x >>= f) inFlight =
      ⟨(f a (x inFlight).inFlight).result, (f a (x inFlight).inFlight).inFlight,
        (x inFlight).history ++ (f a (x inFlight).inFlight).history⟩ := by
  show andThen x f inFlight = _
  simp only [andThen, h]

theorem restores_bind {x : Resolving α} {f : α → Resolving β} (hx : Restores x)
    (hf : ∀ a, Restores (f a)) : Restores (x >>= f) := by
  intro inFlight
  cases h : (x inFlight).result with
  | error error => rw [bind_of_error h, hx inFlight]
  | ok a => rw [bind_of_ok h, hf a, hx inFlight]

theorem restores_attempt {x : Resolving α} (hx : Restores x) : Restores (attempt x) := hx

/-- The formula that comes in flight first is the one that is removed, even if the same text is
in flight already. -/
theorem restores_within {x : Resolving α} (formula : List Char) (hx : Restores x) :
    Restores (within formula x) := by
  intro inFlight
  simp [within, hx (formula :: inFlight)]

theorem result_bind {x : Resolving α} {f : α → Resolving β} (hx : Restores x)
    (inFlight : List (List Char)) :
    ((x >>= f) inFlight).result = (x inFlight).result >>= fun a => (f a inFlight).result := by
  cases h : (x inFlight).result with
  | error error => rw [bind_of_error h]; rfl
  | ok a => rw [bind_of_ok h, hx inFlight]; rfl

end Resolving

open Resolving

/-- The text for the outcome of a formula: a structural error is passed on, and any other error
counts as zero. -/
def outcomeText : Except EvalError Binary64 → Except EvalError (List Char)
  | .ok number => .ok number.text
  | .error error => if error.isStructural then .error error else .ok zeroText

/-- The number that an outcome counts as, if it is not passed on. -/
def outcomeValue : Except EvalError Binary64 → Binary64
  | .ok value => value
  | .error _ => Binary64.zero false

/-- The text for a reading, given the outcomes of formulas. -/
def Reading.text (outcome : List Char → Except EvalError Binary64) :
    Reading → Except EvalError (List Char)
  | .number value => .ok value.text
  | .formula text => outcomeText (outcome text)

theorem zero_text : (Binary64.zero false).text = zeroText := by decide

theorem parse?_nil : Binary64.parse? [] = none := by decide

theorem outcomeText_eq_ok {result : Except EvalError Binary64} {text : List Char}
    (h : outcomeText result = .ok text) : text = (outcomeValue result).text := by
  cases result with
  | ok value => exact (Except.ok.inj h).symm
  | error error =>
      rw [outcomeText] at h
      cases hstructural : error.isStructural with
      | true =>
          rw [if_pos hstructural] at h
          cases h
      | false =>
          rw [if_neg (by simp [hstructural])] at h
          rw [outcomeValue, zero_text]
          exact (Except.ok.inj h).symm

namespace Sheet

/-- What a piece refers to; a token that is no address counts as zero. -/
def tokenReading (sheet : Sheet) (letters digits : List Char) : Reading :=
  match Address.ofParts? letters digits with
  | some address => sheet.reading address
  | none => .number (Binary64.zero false)

/-- The text that takes the place of a piece, given the outcomes of formulas. -/
def pieceText (sheet : Sheet) (outcome : List Char → Except EvalError Binary64) :
    Piece → Except EvalError (List Char)
  | .gap text => .ok text
  | .token letters digits => (sheet.tokenReading letters digits).text outcome

/-- The expression of pieces, given the outcomes of formulas; the first structural error among
them ends it. -/
def expressionOf (sheet : Sheet) (outcome : List Char → Except EvalError Binary64) :
    List Piece → Except EvalError (List Char)
  | [] => .ok []
  | piece :: rest => do
      let text ← sheet.pieceText outcome piece
      let texts ← sheet.expressionOf outcome rest
      .ok (text ++ texts)

section Expressions

variable {sheet : Sheet} {outcome outcome' : List Char → Except EvalError Binary64}

theorem pieceText_of_pieceCalls {piece : Piece} {callee : List Char}
    (h : sheet.PieceCalls piece callee) :
    sheet.pieceText outcome piece = outcomeText (outcome callee) := by
  obtain ⟨cell, hnamed, hcell⟩ := h
  cases piece with
  | gap text => simp [Piece.address?] at hnamed
  | token letters digits =>
      have hparts : Address.ofParts? letters digits = some cell := hnamed
      have hreading := reading_eq_formula_iff.mpr hcell
      simp [pieceText, tokenReading, hparts, hreading, Reading.text]

/-- A piece that calls no formula has a text of its own. -/
theorem pieceCalls_or_pieceText_eq_ok (sheet : Sheet) (piece : Piece) :
    (∃ callee, sheet.PieceCalls piece callee) ∨
      ∃ text, ∀ outcome, sheet.pieceText outcome piece = .ok text := by
  cases piece with
  | gap text => exact Or.inr ⟨text, fun _ => rfl⟩
  | token letters digits =>
      cases hparts : Address.ofParts? letters digits with
      | none =>
          refine Or.inr ⟨zeroText, fun _ => ?_⟩
          simp [pieceText, tokenReading, hparts, Reading.text, zero_text]
      | some cell =>
          cases hreading : sheet.reading cell with
          | number number =>
              refine Or.inr ⟨number.text, fun _ => ?_⟩
              simp [pieceText, tokenReading, hparts, hreading, Reading.text]
          | formula text =>
              exact Or.inl ⟨text, cell, hparts, reading_eq_formula_iff.mp hreading⟩

theorem pieceText_congr {piece : Piece}
    (h : ∀ callee, sheet.PieceCalls piece callee → outcome callee = outcome' callee) :
    sheet.pieceText outcome piece = sheet.pieceText outcome' piece := by
  rcases pieceCalls_or_pieceText_eq_ok sheet piece with ⟨callee, hcall⟩ | ⟨text, htext⟩
  · rw [pieceText_of_pieceCalls hcall, pieceText_of_pieceCalls hcall, h callee hcall]
  · rw [htext, htext]

/-- An expression depends only on the texts of its pieces, on one sheet or on two. -/
theorem expressionOf_congr_pieceText {other : Sheet} {pieces : List Piece}
    (h : ∀ piece ∈ pieces, sheet.pieceText outcome piece = other.pieceText outcome' piece) :
    sheet.expressionOf outcome pieces = other.expressionOf outcome' pieces := by
  induction pieces with
  | nil => rfl
  | cons piece rest ih =>
      unfold expressionOf
      rw [h piece List.mem_cons_self,
        ih fun other hother => h other (List.mem_cons_of_mem _ hother)]

theorem expressionOf_congr {pieces : List Piece}
    (h : ∀ piece ∈ pieces, ∀ callee, sheet.PieceCalls piece callee →
      outcome callee = outcome' callee) :
    sheet.expressionOf outcome pieces = sheet.expressionOf outcome' pieces :=
  expressionOf_congr_pieceText fun piece hpiece => pieceText_congr (h piece hpiece)

/-- If every piece has a text, the expression joins these texts. -/
theorem expressionOf_eq_ok {pieces : List Piece} {text : Piece → List Char}
    (h : ∀ piece ∈ pieces, sheet.pieceText outcome piece = .ok (text piece)) :
    sheet.expressionOf outcome pieces = .ok (pieces.flatMap text) := by
  induction pieces with
  | nil => rfl
  | cons piece rest ih =>
      unfold expressionOf
      rw [h piece List.mem_cons_self,
        ih fun other hother => h other (List.mem_cons_of_mem _ hother)]
      rfl

theorem pieceText_of_expressionOf_eq_ok {pieces : List Piece} {expression : List Char}
    (h : sheet.expressionOf outcome pieces = .ok expression) :
    ∀ piece ∈ pieces, ∃ text, sheet.pieceText outcome piece = .ok text := by
  induction pieces generalizing expression with
  | nil => simp
  | cons piece rest ih =>
      unfold expressionOf at h
      cases hpiece : sheet.pieceText outcome piece with
      | error error => simp [hpiece, bind, Except.bind] at h
      | ok text =>
          cases hrest : sheet.expressionOf outcome rest with
          | error error => simp [hpiece, hrest, bind, Except.bind] at h
          | ok texts =>
              intro other hother
              rcases List.mem_cons.mp hother with rfl | hother
              · exact ⟨text, hpiece⟩
              · exact ih hrest other hother

theorem outcomeText_eq_error {result : Except EvalError Binary64} {error : EvalError} :
    outcomeText result = .error error ↔ result = .error error ∧ error.isStructural = true := by
  cases result with
  | ok number => simp [outcomeText]
  | error found =>
      cases h : found.isStructural with
      | true =>
          simp only [outcomeText, h, if_true, Except.error.injEq]
          constructor
          · rintro rfl
            exact ⟨rfl, h⟩
          · exact And.left
      | false =>
          simp only [outcomeText, h, Bool.false_eq_true, if_false, reduceCtorEq, Except.error.injEq,
            false_iff]
          rintro ⟨rfl, hs⟩
          simp [h] at hs

theorem degradable_of_outcomeText {result : Except EvalError Binary64} {text : List Char}
    (h : outcomeText result = .ok text) : Degradable result := by
  intro error herror
  by_contra hs
  rw [outcomeText_eq_error.mpr ⟨herror, by simpa using hs⟩] at h
  cases h

/-- A piece has a text, or the formula that it calls has a structural error. -/
theorem exists_pieceText_of_degradable {piece : Piece}
    (h : Degradable (sheet.pieceText outcome piece)) :
    ∃ text, sheet.pieceText outcome piece = .ok text := by
  rcases pieceCalls_or_pieceText_eq_ok sheet piece with ⟨callee, hcall⟩ | ⟨text, htext⟩
  · rw [pieceText_of_pieceCalls hcall] at h ⊢
    cases hresult : outcomeText (outcome callee) with
    | ok text => exact ⟨text, rfl⟩
    | error error =>
        have hs := (outcomeText_eq_error.mp hresult).2
        rw [h error hresult] at hs
        cases hs
  · exact ⟨text, htext outcome⟩

/-- An expression fails only with the structural error of a formula that is called. -/
theorem expressionOf_eq_error {pieces : List Piece} {error : EvalError}
    (h : sheet.expressionOf outcome pieces = .error error) :
    error.isStructural = true ∧ ∃ piece ∈ pieces, ∃ callee,
      sheet.PieceCalls piece callee ∧ outcome callee = .error error := by
  induction pieces with
  | nil => simp [expressionOf] at h
  | cons piece rest ih =>
      unfold expressionOf at h
      cases hpiece : sheet.pieceText outcome piece with
      | error found =>
          obtain rfl : found = error := by simpa [hpiece, bind, Except.bind] using h
          rcases pieceCalls_or_pieceText_eq_ok sheet piece with
            ⟨callee, hcall⟩ | ⟨text, htext⟩
          · rw [pieceText_of_pieceCalls hcall, outcomeText_eq_error] at hpiece
            exact ⟨hpiece.2, piece, List.mem_cons_self, callee, hcall, hpiece.1⟩
          · rw [htext] at hpiece
            cases hpiece
      | ok text =>
          cases hrest : sheet.expressionOf outcome rest with
          | ok texts => simp [hpiece, hrest, bind, Except.bind] at h
          | error found =>
              obtain rfl : found = error := by simpa [hpiece, hrest, bind, Except.bind] using h
              obtain ⟨hs, other, hother, callee, hcall, hresult⟩ := ih hrest
              exact ⟨hs, other, List.mem_cons_of_mem _ hother, callee, hcall, hresult⟩

/-- A called formula whose error is structural makes the expression fail. -/
theorem exists_error_of_not_degradable (outcome : List Char → Except EvalError Binary64)
    {pieces : List Piece} {piece : Piece}
    (hpiece : piece ∈ pieces) {callee : List Char} (hcall : sheet.PieceCalls piece callee)
    (h : ¬ Degradable (outcome callee)) :
    ∃ error, sheet.expressionOf outcome pieces = .error error ∧ error.isStructural = true := by
  cases hexpr : sheet.expressionOf outcome pieces with
  | error error => exact ⟨error, rfl, (expressionOf_eq_error hexpr).1⟩
  | ok expression =>
      obtain ⟨text, htext⟩ := pieceText_of_expressionOf_eq_ok hexpr piece hpiece
      rw [pieceText_of_pieceCalls hcall] at htext
      exact absurd (degradable_of_outcomeText htext) h

end Expressions

end Sheet

/-- A computation that gives this text and lets no formula come in flight. -/
structure Resolving.Settles (x : Resolving (List Char)) (text : List Char) : Prop where
  result : ∀ inFlight, (x inFlight).result = .ok text
  restores : Restores x
  not_entered : ∀ inFlight entered, .entered entered ∉ (x inFlight).history

theorem settles_value (text : List Char) : Settles (value text) text where
  result := fun _ => rfl
  restores := restores_value text
  not_entered := fun _ _ => List.not_mem_nil

theorem settles_degrade (token : List Char) (cause : Degradation) :
    Settles (degrade token cause) zeroText where
  result := fun _ => rfl
  restores := restores_bind (restores_report _) fun _ => restores_value _
  not_entered := by
    intro inFlight entered
    show Event.entered entered ∉ [Event.degraded token cause]
    simp

/-- The text that replaces the token of a cell with a formula. -/
def calledValue (nested : List Char → Resolving Binary64) (token callee : List Char) :
    Resolving (List Char) := do
  match ← attempt (nested callee) with
  | .ok number => value number.text
  | .error error =>
      if error.isStructural then fail error else degrade token (.formulaFailed error)

section Substitution

variable {sheet : Sheet} {nested : List Char → Resolving Binary64}

theorem cellValue_of_formula {cell : List Char} (h : cell.head? = some formulaMarker)
    (token : List Char) : cellValue nested token cell = calledValue nested token cell := by
  have hne : cell ≠ [] := by
    rintro rfl
    cases h
  rw [cellValue, if_neg hne, if_pos h]
  rfl

/-- A text that is no formula is read in the same way whatever the formulas of a sheet are. -/
theorem exists_settles_cellValue {cell : List Char} (h : cell.head? ≠ some formulaMarker)
    (token : List Char) :
    ∃ number x, Reading.ofText cell = .number number ∧ Settles x number.text ∧
      ∀ nested, cellValue nested token cell = x := by
  simp only [Reading.ofText, if_neg h]
  by_cases hempty : cell = []
  · refine ⟨_, value zeroText, rfl, ?_, fun nested => by rw [cellValue, if_pos hempty]⟩
    rw [hempty, parse?_nil, Option.getD_none, zero_text]
    exact settles_value zeroText
  · cases hparse : Binary64.parse? cell with
    | some number =>
        refine ⟨number, _, rfl, settles_value _, fun nested => ?_⟩
        rw [cellValue, if_neg hempty, if_neg h, hparse]
    | none =>
        refine ⟨Binary64.zero false, _, rfl, ?_, fun nested => by
          rw [cellValue, if_neg hempty, if_neg h, hparse]⟩
        rw [zero_text]
        exact settles_degrade _ _

/-- A token has a text of its own or refers to a cell with a formula. -/
theorem referenceValue_cases (sheet : Sheet) (letters digits : List Char) :
    (∃ number x, sheet.tokenReading letters digits = .number number ∧ Settles x number.text ∧
      ∀ nested, referenceValue sheet nested letters digits = x) ∨
    ∃ callee, sheet.tokenReading letters digits = .formula callee ∧
      sheet.PieceCalls (.token letters digits) callee ∧
        ∀ nested, referenceValue sheet nested letters digits =
          calledValue nested (letters ++ digits) callee := by
  have hzero : ∀ cause, Settles (degrade (letters ++ digits) cause) (Binary64.zero false).text := by
    intro cause
    rw [zero_text]
    exact settles_degrade _ _
  cases hparts : Address.ofParts? letters digits with
  | none =>
      refine Or.inl ⟨_, _, by simp only [Sheet.tokenReading, hparts], hzero .undecodable, ?_⟩
      intro nested
      simp only [referenceValue, hparts]
  | some address =>
      cases hrow : sheet.row? address.row with
      | none =>
          refine Or.inl ⟨_, _, ?_, hzero (.rowOutOfBounds address.row sheet.length), ?_⟩
          · simp [Sheet.tokenReading, hparts, Sheet.reading, Sheet.textAt?, Sheet.get?, hrow]
          · intro nested
            simp only [referenceValue, hparts, hrow]
      | some row =>
          cases hcell : row.get? address.column with
          | none =>
              refine Or.inl ⟨_, _, ?_, hzero (.columnMissing address.column address.row), ?_⟩
              · simp [Sheet.tokenReading, hparts, Sheet.reading, Sheet.textAt?, Sheet.get?, hrow,
                  hcell]
              · intro nested
                simp only [referenceValue, hparts, hrow, hcell]
          | some text =>
              have htext : sheet.textAt? address = some (trim text.toList) := by
                simp [Sheet.textAt?, Sheet.get?, hrow, hcell]
              have hreading : sheet.tokenReading letters digits =
                  Reading.ofText (trim text.toList) := by
                simp only [Sheet.tokenReading, hparts, Sheet.reading, htext]
              have hvalue : ∀ nested, referenceValue sheet nested letters digits =
                  cellValue nested (letters ++ digits) (trim text.toList) := by
                intro nested
                simp only [referenceValue, hparts, hrow, hcell]
              by_cases hmarker : (trim text.toList).head? = some formulaMarker
              · refine Or.inr ⟨trim text.toList, ?_, ⟨address, hparts, ?_⟩, fun nested => ?_⟩
                · rw [hreading, Reading.ofText, if_pos hmarker]
                · exact Sheet.formulaAt?_eq_some_iff.mpr ⟨htext, hmarker⟩
                · rw [hvalue, cellValue_of_formula hmarker]
              · obtain ⟨number, x, hnumber, hsettles, hx⟩ :=
                  exists_settles_cellValue hmarker (letters ++ digits)
                refine Or.inl ⟨number, x, hreading.trans hnumber, hsettles, fun nested => ?_⟩
                rw [hvalue, hx]

theorem restores_calledValue (hn : ∀ text, Restores (nested text)) (token callee : List Char) :
    Restores (calledValue nested token callee) := by
  refine restores_bind (restores_attempt (hn callee)) fun result => ?_
  cases result with
  | ok number => exact restores_value _
  | error error =>
      cases h : error.isStructural with
      | true => simpa [h] using restores_fail _
      | false => simpa [h] using (settles_degrade _ _).restores

theorem calledValue_result (hn : ∀ text, Restores (nested text)) (token callee : List Char)
    (inFlight : List (List Char)) :
    (calledValue nested token callee inFlight).result =
      outcomeText (nested callee inFlight).result := by
  rw [calledValue, result_bind (restores_attempt (hn callee))]
  cases h : (nested callee inFlight).result with
  | ok number => simp [attempt, h, outcomeText, bind, Except.bind, value]
  | error error =>
      cases hs : error.isStructural with
      | true => simp [attempt, h, hs, outcomeText, bind, Except.bind, fail, Resolving.ofExcept]
      | false =>
          simp [attempt, h, hs, outcomeText, bind, Except.bind, (settles_degrade _ _).result]

theorem restores_referenceValue (hn : ∀ text, Restores (nested text))
    (letters digits : List Char) : Restores (referenceValue sheet nested letters digits) := by
  rcases referenceValue_cases sheet letters digits with
    ⟨number, x, -, hsettles, hx⟩ | ⟨callee, -, -, hcalled⟩
  · rw [hx]
    exact hsettles.restores
  · rw [hcalled]
    exact restores_calledValue hn _ _

theorem referenceValue_result (hn : ∀ text, Restores (nested text)) (letters digits : List Char)
    (inFlight : List (List Char)) :
    (referenceValue sheet nested letters digits inFlight).result =
      (sheet.tokenReading letters digits).text fun text => (nested text inFlight).result := by
  rcases referenceValue_cases sheet letters digits with
    ⟨number, x, hreading, hsettles, hx⟩ | ⟨callee, hreading, -, hcalled⟩
  · rw [hx, hsettles.result, hreading, Reading.text]
  · rw [hcalled, calledValue_result hn, hreading, Reading.text]

theorem restores_substitute (hn : ∀ text, Restores (nested text)) :
    ∀ pieces, Restores (substitute sheet nested pieces)
  | [] => restores_value _
  | .gap _ :: rest =>
      restores_bind (restores_substitute hn rest) fun _ => restores_value _
  | .token _ _ :: rest =>
      restores_bind (restores_referenceValue hn _ _) fun _ =>
        restores_bind (restores_substitute hn rest) fun _ => restores_value _

/-- Substitution computes the expression of the outcomes of the formulas that are called. -/
theorem substitute_result (hn : ∀ text, Restores (nested text)) (inFlight : List (List Char)) :
    ∀ pieces, (substitute sheet nested pieces inFlight).result =
      sheet.expressionOf (fun text => (nested text inFlight).result) pieces
  | [] => rfl
  | .gap _ :: rest => by
      unfold substitute
      rw [result_bind (restores_substitute hn rest), substitute_result hn inFlight rest]
      rfl
  | .token letters digits :: rest => by
      unfold substitute
      rw [result_bind (restores_referenceValue hn letters digits), referenceValue_result hn]
      simp only [result_bind (restores_substitute hn rest), substitute_result hn inFlight rest]
      rfl

end Substitution

end FormulaSheet
