import Mathlib
import FormulaSheet.Proofs.Except
import FormulaSheet.Proofs.Expression.Degradable
import FormulaSheet.Proofs.Expression.Rendering

/-!
# White space between tokens

The check of an expression as a whole lets all white space pass, and the scan takes five characters
of it for separators. Between tokens a separator is as good as any other and as none, as long as two
numbers do not run into each other: only the tokens matter, for a value and for an error. At any
other blank the scan stops, unless it has failed before it gets there.

* `existsUnique_spaced`: a text that passes the check is that of one sequence of tokens, with blanks
  between them.
* `StopsAt`: the scan gets as far as a blank that separates nothing.
* `evaluateWith_eq_invalidCharacter_iff`: the error that names a character is due to such a blank.
* `evaluate_of_spaced`: what the blanks between the tokens do to the answer.
-/

namespace FormulaSheet
namespace Expression

open Text (isBlank)

section Blanks

/-- A space for every blank. -/
def plain (c : Char) : Char :=
  if isBlank c then ' ' else c

theorem plain_of_isBlank {c : Char} (h : isBlank c = true) : plain c = ' ' :=
  if_pos h

theorem plain_of_not_isBlank {c : Char} (h : isBlank c = false) : plain c = c :=
  if_neg (by simp [h])

theorem isNumberChar_of_isBlank {c : Char} (h : isBlank c = true) : isNumberChar c = false := by
  by_contra hnumber
  rw [isBlank_of_isNumberChar (by simpa using hnumber)] at h
  cases h

@[simp] theorem isNumberChar_plain (c : Char) : isNumberChar (plain c) = isNumberChar c := by
  cases h : isBlank c with
  | true =>
      rw [plain_of_isBlank h, isNumberChar_of_isBlank h]
      decide
  | false => rw [plain_of_not_isBlank h]

theorem text_of_isSpelt {token : Token} (h : token.IsSpelt) :
    token.text ≠ [] ∧ ∀ c ∈ token.text, isBlank c = false ∧ isExpressionChar c = true := by
  cases token with
  | number literal =>
      refine ⟨h.1, fun c hc => ?_⟩
      have hnumber := h.2 c hc
      exact ⟨isBlank_of_isNumberChar hnumber, by simp [isExpressionChar, hnumber]⟩
  | operator op => cases op <;> simp only [Token.text, List.forall_mem_singleton] <;> decide
  | openParen =>
      simp only [Token.text, List.forall_mem_singleton]
      decide
  | closeParen =>
      simp only [Token.text, List.forall_mem_singleton]
      decide
  | stray c => exact h.elim

theorem map_plain_text {token : Token} (h : token.IsSpelt) : token.text.map plain = token.text := by
  conv_rhs => rw [← List.map_id token.text]
  exact List.map_congr_left fun c hc => plain_of_not_isBlank ((text_of_isSpelt h).2 c hc).1

/-- With spaces for blanks, a text keeps its tokens. -/
theorem Spaced.map_plain {tokens : List Token} {text : List Char}
    (h : Spaced isBlank tokens text) : Spaced isSeparator tokens (text.map plain) := by
  have hgaps : ∀ {gap : List Char}, (∀ c ∈ gap, isBlank c = true) →
      ∀ c ∈ gap.map plain, isSeparator c = true := by
    intro gap hgap c hc
    obtain ⟨d, hd, rfl⟩ := List.mem_map.mp hc
    rw [plain_of_isBlank (hgap d hd)]
    decide
  induction h with
  | nil hgap => exact .nil (hgaps hgap)
  | cons hgap hspelt hapart _ ih =>
      rw [List.map_append, List.map_append, map_plain_text hspelt]
      exact .cons (hgaps hgap) hspelt (fun hoperand => by simpa using hapart hoperand) ih

theorem tokens_map_plain {tokens : List Token} {text : List Char}
    (h : Spaced isBlank tokens text) : Expression.tokens (text.map plain) = tokens :=
  tokens_of_spaced h.map_plain

/-- A character of a text is a blank of a gap, or one of a token. -/
theorem mem_of_spaced {blank : Char → Bool} {tokens : List Token} {text : List Char}
    (h : Spaced blank tokens text) :
    ∀ c ∈ text, blank c = true ∨ isBlank c = false ∧ isExpressionChar c = true := by
  induction h with
  | nil hgap => exact fun c hc => Or.inl (hgap c hc)
  | cons hgap hspelt _ _ ih =>
      intro c hc
      rcases List.mem_append.mp hc with hc | hc
      · exact Or.inl (hgap c hc)
      · rcases List.mem_append.mp hc with hc | hc
        · exact Or.inr ((text_of_isSpelt hspelt).2 c hc)
        · exact ih c hc

/-- A text of at least one token passes the check. -/
theorem isExpressionText_of_spaced {tokens : List Token} {text : List Char}
    (h : Spaced isBlank tokens text) (hne : tokens ≠ []) : isExpressionText text = true := by
  have hlength : text ≠ [] := by
    cases h with
    | nil _ => exact absurd rfl hne
    | cons _ hspelt _ _ => simp [(text_of_isSpelt hspelt).1]
  rw [isExpressionText, Bool.and_eq_true, List.all_eq_true, Bool.not_eq_true',
    List.isEmpty_eq_false_iff]
  refine ⟨hlength, fun c hc => ?_⟩
  rcases mem_of_spaced h c hc with hblank | ⟨-, hc⟩
  · simp [isExpressionChar, hblank]
  · exact hc

theorem Spaced.mono {blank other : Char → Bool} (h : ∀ c, blank c = true → other c = true)
    {tokens : List Token} {text : List Char} (hspaced : Spaced blank tokens text) :
    Spaced other tokens text := by
  induction hspaced with
  | nil hgap => exact .nil fun c hc => h c (hgap c hc)
  | cons hgap hspelt hapart _ ih => exact .cons (fun c hc => h c (hgap c hc)) hspelt hapart ih

/-- A blank in front of a text belongs to the gap before its first token. -/
theorem Spaced.blank_cons {blank : Char → Bool} {tokens : List Token} {text : List Char}
    (h : Spaced blank tokens text) {c : Char} (hc : blank c = true) :
    Spaced blank tokens (c :: text) := by
  cases h with
  | nil hgap => exact .nil (by simpa using ⟨hc, hgap⟩)
  | @cons _ _ gap _ hgap hspelt hapart hrest =>
      have hmore : ∀ d ∈ c :: gap, blank d = true := by simpa using ⟨hc, hgap⟩
      exact .cons hmore hspelt hapart hrest

/-- A run of digits and points, if there is any, is a token in front of a text that does not
continue it. -/
theorem Spaced.flushNumber {blank : Char → Bool} {tokens : List Token} {text run : List Char}
    (h : Spaced blank tokens text) (hrun : ∀ c ∈ run, isNumberChar c = true)
    (hhead : ∀ c ∈ text.head?, isNumberChar c = false) :
    Spaced blank (flushNumber run tokens) (run.reverse ++ text) := by
  unfold Expression.flushNumber
  split
  · next hnil =>
      subst hnil
      exact h
  · next hne =>
      have hspelt : (Token.number run.reverse).IsSpelt :=
        ⟨by simpa using hne, by simpa using hrun⟩
      have hnone : ∀ c ∈ ([] : List Char), blank c = true := by simp
      exact .cons hnone hspelt (fun _ => hhead) h

theorem symbol_of_ofChar? {c : Char} {op : Operator} (h : Operator.ofChar? c = some op) :
    op.symbol = c := by
  unfold Operator.ofChar? at h
  split at h <;> cases h <;> rfl

/-- The other characters of an expression are tokens by themselves. -/
theorem text_ofChar {c : Char} (hnumber : isNumberChar c = false) (hblank : isBlank c = false)
    (h : isExpressionChar c = true) :
    (Token.ofChar c).text = [c] ∧ (Token.ofChar c).IsSpelt ∧ (Token.ofChar c).role ≠ .operand := by
  unfold Token.ofChar
  split
  · next hopen => exact ⟨by rw [hopen]; rfl, trivial, by decide⟩
  · next hopen =>
      split
      · next hclose => exact ⟨by rw [hclose]; rfl, trivial, by decide⟩
      · next hclose =>
          cases hop : Operator.ofChar? c with
          | some op =>
              exact ⟨by rw [Token.text, symbol_of_ofChar? hop], trivial, by simp [Token.role]⟩
          | none => simp [isExpressionChar, hnumber, hblank, hop, hopen, hclose] at h

/-- Behind a run of digits and points, a text without foreign characters consists of tokens. -/
theorem spaced_tokensAfter {run text : List Char} (hrun : ∀ c ∈ run, isNumberChar c = true)
    (h : text.all isExpressionChar = true) :
    Spaced isBlank (tokensAfter run (text.map plain)) (run.reverse ++ text) := by
  induction text generalizing run with
  | nil => exact (Spaced.nil (by simp)).flushNumber hrun (by simp)
  | cons c text ih =>
      rw [List.all_cons, Bool.and_eq_true] at h
      obtain ⟨hc, htext⟩ := h
      have hrest : Spaced isBlank (tokensAfter [] (text.map plain)) text := ih (by simp) htext
      rw [List.map_cons]
      cases hnumber : isNumberChar c with
      | true =>
          rw [plain_of_not_isBlank (isBlank_of_isNumberChar hnumber), tokensAfter, if_pos hnumber]
          have hlonger : ∀ d ∈ c :: run, isNumberChar d = true := by
            simpa using ⟨hnumber, hrun⟩
          simpa using ih hlonger htext
      | false =>
          have hhead : ∀ d ∈ (c :: text).head?, isNumberChar d = false := by simpa using hnumber
          cases hblank : isBlank c with
          | true =>
              rw [plain_of_isBlank hblank, tokensAfter_separator (by decide) (by decide)]
              exact (hrest.blank_cons hblank).flushNumber hrun hhead
          | false =>
              obtain ⟨hsymbol, hspelt, hoperand⟩ := text_ofChar hnumber hblank hc
              have hseparator : ¬ isSeparator c = true := fun hseparator => by
                rw [(isSeparator_cases hseparator).2] at hblank
                cases hblank
              have htoken : Spaced isBlank (Token.ofChar c :: tokensAfter [] (text.map plain))
                  ([] ++ ((Token.ofChar c).text ++ text)) :=
                .cons (by simp) hspelt (fun h => absurd h hoperand) hrest
              rw [hsymbol] at htoken
              rw [plain_of_not_isBlank hblank, tokensAfter_ofChar (by simp [hnumber]) hseparator]
              exact htoken.flushNumber hrun hhead

/-- A text that passes the check is that of one sequence of tokens. -/
theorem existsUnique_spaced {text : List Char} (h : isExpressionText text = true) :
    ∃! tokens, Spaced isBlank tokens text := by
  rw [isExpressionText, Bool.and_eq_true] at h
  have hnone : ∀ c ∈ ([] : List Char), isNumberChar c = true := by simp
  exact ⟨_, spaced_tokensAfter hnone h.2, fun tokens hspaced => (tokens_map_plain hspaced).symm⟩

end Blanks

section Scan

variable {α : Type} {I : Interpretation α} {run : List Char}

theorem flushNumber_append (run : List Char) (before behind : List Token) :
    flushNumber run (before ++ behind) = flushNumber run before ++ behind := by
  unfold flushNumber
  split <;> rfl

/-- What stands in front of a character that is part of no number is cut by itself. -/
theorem tokensAfter_cut {c : Char} (h : isNumberChar c = false) (run front back : List Char) :
    tokensAfter run (front ++ c :: back) = tokensAfter run front ++ tokensAfter [] (c :: back) := by
  have hnumber : ¬ isNumberChar c = true := by simp [h]
  induction front generalizing run with
  | nil =>
      rw [List.nil_append, tokensAfter, tokensAfter, tokensAfter, ← flushNumber_append]
      simp only [if_neg hnumber]
      split <;> rfl
  | cons d front ih =>
      rw [List.cons_append, tokensAfter, tokensAfter]
      simp only [ih]
      split
      · rfl
      · split
        · exact flushNumber_append run _ _
        · exact flushNumber_append run (Token.ofChar d :: tokensAfter [] front) _

/-- A blank that is no separator. -/
def isStrayBlank (c : Char) : Bool :=
  isBlank c && !isSeparator c

theorem isStrayBlank_iff {c : Char} :
    isStrayBlank c = true ↔ isBlank c = true ∧ isSeparator c = false := by
  rw [isStrayBlank, Bool.and_eq_true, Bool.not_eq_true']

/-- A stray blank is a token without a place. -/
theorem tokensAfter_append_blank {c : Char} (h : isStrayBlank c = true)
    (run front back : List Char) :
    tokensAfter run (front ++ c :: back) =
      tokensAfter run front ++ .stray (leadByte c) :: tokensAfter [] back := by
  obtain ⟨hblank, hseparator⟩ := isStrayBlank_iff.mp h
  have hnumber := isNumberChar_of_isBlank hblank
  rw [tokensAfter_cut hnumber, tokensAfter_ofChar (by simp [hnumber]) (by simp [hseparator]),
    ofChar_of_isBlank hblank]
  rfl

/-- Where every blank separates, spaces for blanks make no difference. -/
theorem tokensAfter_map_plain {cs : List Char} (h : ∀ c ∈ cs, ¬ isStrayBlank c = true)
    (run : List Char) : tokensAfter run (cs.map plain) = tokensAfter run cs := by
  induction cs generalizing run with
  | nil => rfl
  | cons c cs ih =>
      have ih := ih fun d hd => h d (List.mem_cons_of_mem _ hd)
      rw [List.map_cons]
      cases hblank : isBlank c with
      | false => simp only [plain_of_not_isBlank hblank, tokensAfter, ih]
      | true =>
          have hseparator : isSeparator c = true := by
            have hnot := h c List.mem_cons_self
            rw [isStrayBlank_iff, not_and, Bool.not_eq_false] at hnot
            exact hnot hblank
          rw [plain_of_isBlank hblank, tokensAfter_separator (by decide) (by decide), ih,
            tokensAfter_separator (by simp [isNumberChar_of_isBlank hblank]) hseparator]

/-- The number that a run becomes is not the token without a place. -/
theorem exists_of_flushNumber {tokens before behind : List Token} {b : Char}
    (h : flushNumber run tokens = before ++ .stray b :: behind) :
    ∃ inner, tokens = inner ++ .stray b :: behind ∧ flushNumber run inner = before := by
  unfold flushNumber at h ⊢
  split at h
  · next hnil => exact ⟨before, h, if_pos hnil⟩
  · next hne =>
      cases before with
      | nil => cases h
      | cons token before =>
          rw [List.cons_append, List.cons.injEq] at h
          exact ⟨before, h.2, by rw [if_neg hne, h.1]⟩

/-- A token without a place comes from a character that is no separator and no symbol, and what is
in front of the character is cut by itself. -/
theorem exists_of_tokensAfter {text : List Char} {before behind : List Token} {b : Char}
    (h : tokensAfter run text = before ++ .stray b :: behind) :
    ∃ front c back, text = front ++ c :: back ∧ isNumberChar c = false ∧ isSeparator c = false ∧
      Token.ofChar c = .stray b ∧ tokensAfter run front = before := by
  induction text generalizing run before with
  | nil =>
      obtain ⟨inner, hinner, -⟩ := exists_of_flushNumber h
      simp at hinner
  | cons c text ih =>
      unfold tokensAfter at h
      split at h
      · next hnumber =>
          obtain ⟨front, d, back, rfl, hd⟩ := ih h
          refine ⟨c :: front, d, back, rfl, ?_⟩
          rwa [tokensAfter, if_pos hnumber]
      · next hnumber =>
          split at h
          · next hseparator =>
              obtain ⟨inner, hinner, rfl⟩ := exists_of_flushNumber h
              obtain ⟨front, d, back, rfl, hnotNumber, hnotSeparator, hd, hbefore⟩ := ih hinner
              refine ⟨c :: front, d, back, rfl, ?_⟩
              rw [tokensAfter_separator hnumber hseparator]
              exact ⟨hnotNumber, hnotSeparator, hd, congrArg _ hbefore⟩
          · next hseparator =>
              obtain ⟨inner, hinner, rfl⟩ := exists_of_flushNumber h
              cases inner with
              | nil =>
                  rw [List.nil_append, List.cons.injEq] at hinner
                  exact ⟨[], c, text, rfl, by simpa using hnumber, by simpa using hseparator,
                    hinner.1, rfl⟩
              | cons token inner =>
                  rw [List.cons_append, List.cons.injEq] at hinner
                  obtain ⟨rfl, hinner⟩ := hinner
                  obtain ⟨front, d, back, rfl, hnotNumber, hnotSeparator, hd, hbefore⟩ := ih hinner
                  refine ⟨c :: front, d, back, rfl, ?_⟩
                  rw [tokensAfter_ofChar hnumber hseparator]
                  exact ⟨hnotNumber, hnotSeparator, hd, by rw [hbefore]⟩

/-- The scan gets as far as a stray blank. -/
def StopsAt (I : Interpretation α) (text : List Char) (c : Char) : Prop :=
  isStrayBlank c = true ∧
    ∃ front back s, text = front ++ c :: back ∧ Expression.run I {} (tokens front) = .ok s

/-- Only a token without a place fails with an error that names a character. -/
theorem step_eq_invalidCharacter {s : Stacks α} {token : Token} {b : Char}
    (h : step I s token = .error (.invalidExpression (.invalidCharacter b))) :
    token = .stray b := by
  cases token with
  | stray c =>
      cases h
      rfl
  | number literal => simpa using failsOnly_number I s literal _ h
  | operator op => exact absurd (failsOnly_step I s (by simp) (by simp) _ h) Bool.false_ne_true
  | openParen => exact absurd (failsOnly_step I s (by simp) (by simp) _ h) Bool.false_ne_true
  | closeParen => exact absurd (failsOnly_step I s (by simp) (by simp) _ h) Bool.false_ne_true

theorem run_eq_invalidCharacter {s : Stacks α} {tokens : List Token} {b : Char}
    (h : Expression.run I s tokens = .error (.invalidExpression (.invalidCharacter b))) :
    ∃ before behind s', tokens = before ++ .stray b :: behind ∧
      Expression.run I s before = .ok s' := by
  induction tokens generalizing s with
  | nil => cases h
  | cons token rest ih =>
      rcases exists_of_bind_eq_error h with hstep | ⟨middle, hstep, hrest⟩
      · obtain rfl := step_eq_invalidCharacter hstep
        exact ⟨[], rest, s, rfl, rfl⟩
      · obtain ⟨before, behind, s', rfl, hrun⟩ := ih hrest
        refine ⟨token :: before, behind, s', rfl, ?_⟩
        rw [Expression.run, hstep]
        exact hrun

theorem evaluateTokens_stray {before behind : List Token} {s : Stacks α} {b : Char}
    (h : Expression.run I {} before = .ok s) :
    evaluateTokens I (before ++ .stray b :: behind) =
      .error (.invalidExpression (.invalidCharacter b)) := by
  rw [evaluateTokens, run_append, h]
  rfl

theorem evaluateTokens_eq_invalidCharacter {tokens : List Token} {b : Char}
    (h : evaluateTokens I tokens = .error (.invalidExpression (.invalidCharacter b))) :
    ∃ before behind s, tokens = before ++ .stray b :: behind ∧
      Expression.run I {} before = .ok s := by
  rcases exists_of_bind_eq_error h with hrun | ⟨s, -, h⟩
  · exact run_eq_invalidCharacter hrun
  · rcases exists_of_bind_eq_error h with hfinish | ⟨operands, -, hvalue⟩
    · exact absurd (failsOnly_finish I _ _ _ hfinish) Bool.false_ne_true
    · unfold onlyOperand at hvalue
      split at hvalue <;> cases hvalue

theorem evaluateWith_of_stopsAt {text : List Char} {c : Char} (h : StopsAt I text c)
    (htext : isExpressionText text = true) :
    evaluateWith I text = .error (.invalidExpression (.invalidCharacter (leadByte c))) := by
  obtain ⟨hstray, front, back, s, rfl, hrun⟩ := h
  rw [evaluateWith, if_pos htext, tokens, tokensAfter_append_blank hstray]
  exact evaluateTokens_stray hrun

theorem evaluateWith_eq_invalidCharacter_iff {text : List Char} {b : Char} :
    evaluateWith I text = .error (.invalidExpression (.invalidCharacter b)) ↔
      isExpressionText text = true ∧ ∃ c, StopsAt I text c ∧ leadByte c = b := by
  constructor
  · intro h
    unfold evaluateWith at h
    split at h
    · next htext =>
        obtain ⟨before, behind, s, htokens, hrun⟩ := evaluateTokens_eq_invalidCharacter h
        obtain ⟨front, c, back, rfl, hnumber, hseparator, hstray, rfl⟩ :=
          exists_of_tokensAfter htokens
        have hblank : isBlank c = true := by
          have hc : isExpressionChar c = true := by
            simp only [isExpressionText, Bool.and_eq_true, List.all_eq_true] at htext
            exact htext.2 c (by simp)
          by_contra hnot
          have hspelt := (text_ofChar hnumber (by simpa using hnot) hc).2.1
          rw [hstray] at hspelt
          exact hspelt
        rw [ofChar_of_isBlank hblank] at hstray
        cases hstray
        exact ⟨htext, c, ⟨isStrayBlank_iff.mpr ⟨hblank, hseparator⟩, front, back, s, rfl, hrun⟩,
          rfl⟩
    · cases h
  · rintro ⟨htext, c, hstops, rfl⟩
    exact evaluateWith_of_stopsAt hstops htext

/-- Unless it gets to a stray blank, the scan sees the tokens of a text only. -/
theorem evaluateWith_of_not_stopsAt {tokens : List Token} {text : List Char}
    (hne : tokens ≠ []) (h : Spaced isBlank tokens text) (hstops : ∀ c, ¬ StopsAt I text c) :
    evaluateWith I text = evaluateTokens I tokens := by
  rw [evaluateWith, if_pos (isExpressionText_of_spaced h hne), ← tokens_map_plain h]
  cases hfirst : text.find? isStrayBlank with
  | none =>
      rw [Expression.tokens, Expression.tokens,
        tokensAfter_map_plain (List.find?_eq_none.mp hfirst)]
  | some c =>
      -- The scan fails in front of the first stray blank, and there the two texts have the same
      -- tokens.
      obtain ⟨hstray, front, back, rfl, hfront⟩ := List.find?_eq_some_iff_append.mp hfirst
      have hplain : ∀ d ∈ front, ¬ isStrayBlank d = true := by simpa using hfront
      have hsame := tokensAfter_map_plain hplain []
      have hblank := (isStrayBlank_iff.mp hstray).1
      rw [Expression.tokens, Expression.tokens, tokensAfter_append_blank hstray, List.map_append,
        List.map_cons, tokensAfter_cut (by simp [isNumberChar_of_isBlank hblank]), hsame]
      cases hrun : Expression.run I {} (tokensAfter [] front) with
      | ok s => exact absurd ⟨hstray, front, back, s, rfl, hrun⟩ (hstops c)
      | error error =>
          rw [evaluateTokens, evaluateTokens, run_append, run_append, hrun]
          rfl

/-- The scan passes all separators. -/
theorem not_stopsAt_of_spaced {tokens : List Token} {text : List Char}
    (h : Spaced isSeparator tokens text) (c : Char) : ¬ StopsAt I text c := by
  rintro ⟨hstray, front, back, -, rfl, -⟩
  obtain ⟨hblank, hseparator⟩ := isStrayBlank_iff.mp hstray
  rcases mem_of_spaced h c (by simp) with hc | ⟨hc, -⟩
  · rw [hseparator] at hc
    cases hc
  · rw [hblank] at hc
    cases hc

end Scan

/-- Separators between tokens make no difference to the answer, a value or an error. No other blank
does, in texts where the scan fails before it gets there; where it gets there, the answer is an
error that names the first byte of the blank, and nothing else has that answer. -/
theorem evaluate_of_spaced (text other : List Char) :
    (∀ tokens, tokens ≠ [] → Spaced isSeparator tokens text → Spaced isSeparator tokens other →
        evaluate text = evaluate other) ∧
      (∀ tokens, tokens ≠ [] → Spaced isBlank tokens text → Spaced isBlank tokens other →
        (∀ c, ¬ StopsAt binary64 text c) → (∀ c, ¬ StopsAt binary64 other c) →
          evaluate text = evaluate other) ∧
        ∀ b, evaluate text = .error (.invalidExpression (.invalidCharacter b)) ↔
          isExpressionText text = true ∧ ∃ c, StopsAt binary64 text c ∧ leadByte c = b := by
  have hquiet : ∀ tokens, tokens ≠ [] → Spaced isBlank tokens text → Spaced isBlank tokens other →
      (∀ c, ¬ StopsAt binary64 text c) → (∀ c, ¬ StopsAt binary64 other c) →
        evaluate text = evaluate other := by
    intro tokens hne htext hother hstops hothers
    rw [evaluate, evaluate, evaluateWith_of_not_stopsAt hne htext hstops,
      evaluateWith_of_not_stopsAt hne hother hothers]
  refine ⟨fun tokens hne htext hother => ?_, hquiet, fun b =>
    evaluateWith_eq_invalidCharacter_iff⟩
  have hblank : ∀ c, isSeparator c = true → isBlank c = true := fun c hc =>
    (isSeparator_cases hc).2
  exact hquiet tokens hne (htext.mono hblank) (hother.mono hblank)
    (not_stopsAt_of_spaced htext) (not_stopsAt_of_spaced hother)

/-- A sum of two numbers. -/
def sumTokens : List Token :=
  [.number ['1'], .operator .add, .number ['2']]

theorem spaced_sumTokens {blank : Char → Bool} {gap : List Char}
    (h : ∀ c ∈ gap, blank c = true ∧ isNumberChar c = false) :
    Spaced blank sumTokens ('1' :: (gap ++ ['+', '2'])) := by
  have hnone : ∀ c ∈ ([] : List Char), blank c = true := by simp
  have hlast : Spaced blank [.number ['2']] ['2'] :=
    .cons hnone (by simp [Token.IsSpelt, isNumberChar]) (by simp) (.nil hnone)
  have hrest : Spaced blank [.operator .add, .number ['2']] (gap ++ (['+'] ++ ['2'])) :=
    .cons (fun c hc => (h c hc).1) trivial (by simp [Token.role]) hlast
  have hhead : ∀ c ∈ (gap ++ (['+'] ++ ['2'])).head?, isNumberChar c = false := by
    cases gap with
    | nil => simp [isNumberChar]
    | cons d gap => simpa using (h d List.mem_cons_self).2
  exact .cons hnone (by simp [Token.IsSpelt, isNumberChar]) (fun _ => hhead) hrest

theorem evaluate_of_spaced_sum :
    (sumTokens ≠ [] ∧ Spaced isSeparator sumTokens "1+2".toList ∧
      Spaced isSeparator sumTokens "1\t +2".toList ∧
      evaluate "1+2".toList = evaluate "1\t +2".toList) ∧
    (.closeParen :: sumTokens ≠ [] ∧ Spaced isBlank (.closeParen :: sumTokens) ")1+2".toList ∧
      Spaced isBlank (.closeParen :: sumTokens) ")1\x0b+2".toList ∧
      (∀ c, ¬ StopsAt binary64 ")1+2".toList c) ∧ (∀ c, ¬ StopsAt binary64 ")1\x0b+2".toList c) ∧
      evaluate ")1+2".toList = evaluate ")1\x0b+2".toList) ∧
    evaluate "1\x0b+2".toList = .error (.invalidExpression (.invalidCharacter '\x0b')) ∧
      ∃ c, StopsAt binary64 "1\x0b+2".toList c ∧ leadByte c = '\x0b' := by
  obtain ⟨hseparators, -, -⟩ := evaluate_of_spaced "1+2".toList "1\t +2".toList
  obtain ⟨-, hblanks, -⟩ := evaluate_of_spaced ")1+2".toList ")1\x0b+2".toList
  obtain ⟨-, -, hcharacter⟩ := evaluate_of_spaced "1\x0b+2".toList "1+2".toList
  have hsum : sumTokens ≠ [] := List.cons_ne_nil _ _
  have hbare : ∀ {blank : Char → Bool}, Spaced blank sumTokens "1+2".toList := fun {blank} =>
    spaced_sumTokens (List.forall_mem_nil _)
  have hspaces : ∀ c ∈ ['\t', ' '], isSeparator c = true ∧ isNumberChar c = false := by
    simp [isSeparator, isNumberChar]
  have htab : ∀ c ∈ ['\x0b'], isBlank c = true ∧ isNumberChar c = false :=
    List.forall_mem_singleton.mpr (by decide)
  have hclosed : ∀ {text : List Char}, Spaced isBlank sumTokens text →
      Spaced isBlank (.closeParen :: sumTokens) (')' :: text) := fun h =>
    .cons (List.forall_mem_nil _) trivial (by simp [Token.role]) h
  have hfails : ∀ {text : List Char}, isExpressionText text = true →
      evaluate text = .error .mismatchedParentheses → ∀ c, ¬ StopsAt binary64 text c := by
    intro text htext herror c hstops
    have hstopped := evaluateWith_of_stopsAt hstops htext
    rw [← evaluate, herror] at hstopped
    cases hstopped
  have hfailsBare : ∀ c, ¬ StopsAt binary64 ")1+2".toList c :=
    hfails (by decide +kernel) (by decide +kernel)
  have hfailsTab : ∀ c, ¬ StopsAt binary64 ")1\x0b+2".toList c :=
    hfails (by decide +kernel) (by decide +kernel)
  have hstopped : evaluate "1\x0b+2".toList =
      .error (.invalidExpression (.invalidCharacter '\x0b')) := by
    decide +kernel
  have hspaced := spaced_sumTokens hspaces
  have hforeign := hclosed (spaced_sumTokens htab)
  have hplain : Spaced isBlank (.closeParen :: sumTokens) ")1+2".toList := hclosed hbare
  exact ⟨⟨hsum, hbare, hspaced, hseparators _ hsum hbare hspaced⟩,
    ⟨List.cons_ne_nil _ _, hplain, hforeign, hfailsBare, hfailsTab,
      hblanks _ (List.cons_ne_nil _ _) hplain hforeign hfailsBare hfailsTab⟩,
    hstopped, ((hcharacter _).mp hstopped).2⟩

/-- A vertical tab passes the check of the whole text, and is no separator. -/
theorem not_evaluate_of_spaced :
    isExpressionText "1\x0b+2".toList = true ∧
      Spaced isBlank sumTokens "1\x0b+2".toList ∧ Spaced isBlank sumTokens "1+2".toList ∧
      evaluate "1\x0b+2".toList = .error (.invalidExpression (.invalidCharacter '\x0b')) ∧
      evaluate "1+2".toList = .ok (Binary64.ofBits 0x4008000000000000) := by
  have htab : ∀ c ∈ ['\x0b'], isBlank c = true ∧ isNumberChar c = false :=
    List.forall_mem_singleton.mpr (by decide)
  have hbare : Spaced isBlank sumTokens "1+2".toList := spaced_sumTokens (List.forall_mem_nil _)
  exact ⟨by decide +kernel, spaced_sumTokens htab, hbare, by decide +kernel, by decide +kernel⟩

end Expression
end FormulaSheet
