import Mathlib
import FormulaSheet.Proofs.Expression.Tree

/-!
# Trees as text

The tokens of a text are those that it spells: each of them in full, with any separators in front
of it and at the end. Two numbers would run into each other, but the tokens of a tree never have
them side by side. So every text of a tree, with parentheses and separators beyond those that it
needs, has the value of the tree.

* `Spells`: the texts of a sequence of tokens.
* `Spaced`: those that keep numbers apart, with blanks of any kind; `tokens_of_spaced` finds the
  tokens if the blanks separate.
* `tokens_of_spells`: a text of tokens that are kept apart is cut into these tokens.
* `Renders`: the texts of a tree.
* `evaluateWith_of_writes`: the value of a text is that of the tree, under any interpretation.
-/

namespace FormulaSheet
namespace Expression

section Cuts

variable {run : List Char}

/-- Digits and points join the run before them. -/
theorem tokensAfter_append (run : List Char) {cs : List Char}
    (h : ∀ c ∈ cs, isNumberChar c = true) (rest : List Char) :
    tokensAfter run (cs ++ rest) = tokensAfter (cs.reverse ++ run) rest := by
  induction cs generalizing run with
  | nil => rfl
  | cons c cs ih =>
      rw [List.cons_append, tokensAfter, if_pos (h c List.mem_cons_self),
        ih _ fun d hd => h d (List.mem_cons_of_mem _ hd)]
      simp

theorem tokensAfter_separator {c : Char} (hnumber : ¬ isNumberChar c = true)
    (hseparator : isSeparator c = true) (run cs : List Char) :
    tokensAfter run (c :: cs) = flushNumber run (tokensAfter [] cs) := by
  rw [tokensAfter, if_neg hnumber, if_pos hseparator]

theorem tokensAfter_ofChar {c : Char} (hnumber : ¬ isNumberChar c = true)
    (hseparator : ¬ isSeparator c = true) (run cs : List Char) :
    tokensAfter run (c :: cs) = flushNumber run (Token.ofChar c :: tokensAfter [] cs) := by
  rw [tokensAfter, if_neg hnumber, if_neg hseparator]

theorem isSeparator_cases {c : Char} (h : isSeparator c = true) :
    isNumberChar c = false ∧ Text.isBlank c = true := by
  simp only [isSeparator, Bool.or_eq_true, decide_eq_true_eq] at h
  rcases h with (((rfl | rfl) | rfl) | rfl) | rfl <;> decide

/-- Separators only end the run before them. -/
theorem tokensAfter_gap {gap rest : List Char} (h : ∀ c ∈ gap, isSeparator c = true)
    (run : List Char) :
    tokensAfter run (gap ++ rest) =
      if gap = [] then tokensAfter run rest else flushNumber run (tokensAfter [] rest) := by
  induction gap generalizing run with
  | nil => rfl
  | cons c gap ih =>
      have hc := h c List.mem_cons_self
      have hnumber : ¬ isNumberChar c = true := by simp [(isSeparator_cases hc).1]
      rw [List.cons_append, tokensAfter_separator hnumber hc,
        ih (fun d hd => h d (List.mem_cons_of_mem _ hd)), if_neg (List.cons_ne_nil _ _)]
      split <;> rfl

theorem isExpressionChar_of_role {c : Char} (h : (Token.ofChar c).role ≠ .foreign) :
    isExpressionChar c = true := by
  unfold Token.ofChar at h
  split at h
  · next hc => simp [isExpressionChar, hc]
  · split at h
    · next hc => simp [isExpressionChar, hc]
    · split at h
      · next op hop => simp [isExpressionChar, hop]
      · exact absurd rfl h

theorem foreign_notMem_of_flushNumber {tokens : List Token}
    (h : .foreign ∉ (flushNumber run tokens).map Token.role) :
    .foreign ∉ tokens.map Token.role := by
  unfold flushNumber at h
  split at h
  · exact h
  · exact fun hmem => h (List.mem_cons_of_mem _ hmem)

/-- A character that may not stand in an expression becomes a token that has no place in it. -/
theorem isExpressionChar_of_tokensAfter {cs : List Char}
    (h : .foreign ∉ (tokensAfter run cs).map Token.role) : cs.all isExpressionChar = true := by
  induction cs generalizing run with
  | nil => rfl
  | cons c cs ih =>
      rw [List.all_cons, Bool.and_eq_true]
      unfold tokensAfter at h
      split at h
      · next hnumber => exact ⟨by simp [isExpressionChar, hnumber], ih h⟩
      · split at h
        · next hseparator =>
            exact ⟨by simp [isExpressionChar, (isSeparator_cases hseparator).2],
              ih (foreign_notMem_of_flushNumber h)⟩
        · have hrest := foreign_notMem_of_flushNumber h
          rw [List.map_cons, List.mem_cons, not_or] at hrest
          exact ⟨isExpressionChar_of_role (Ne.symm hrest.1), ih hrest.2⟩

/-- White space makes up no operator and no parenthesis. -/
theorem ofChar_of_isBlank {c : Char} (h : Text.isBlank c = true) :
    Token.ofChar c = .stray (leadByte c) := by
  have hne : ∀ d : Char, Text.isBlank d = false → c ≠ d := by
    rintro d hd rfl
    rw [h] at hd
    cases hd
  have hopen := hne '(' (by decide)
  have hclose := hne ')' (by decide)
  have hoperator : Operator.ofChar? c = none := by
    unfold Operator.ofChar?
    split
    · exact absurd rfl (hne '+' (by decide))
    · exact absurd rfl (hne '-' (by decide))
    · exact absurd rfl (hne '*' (by decide))
    · exact absurd rfl (hne '/' (by decide))
    · rfl
  rw [Token.ofChar, if_neg hopen, if_neg hclose, hoperator]

/-- White space that separates no tokens becomes a token that has no place in an expression. -/
theorem isSeparator_of_tokensAfter {cs : List Char}
    (h : .foreign ∉ (tokensAfter run cs).map Token.role) {c : Char} (hmem : c ∈ cs)
    (hblank : Text.isBlank c = true) : isSeparator c = true := by
  induction cs generalizing run with
  | nil => cases hmem
  | cons d cs ih =>
      unfold tokensAfter at h
      split at h
      · next hnumber =>
          rcases List.mem_cons.mp hmem with rfl | hmem
          · rw [isBlank_of_isNumberChar hnumber] at hblank
            cases hblank
          · exact ih h hmem
      · split at h
        · next hseparator =>
            rcases List.mem_cons.mp hmem with rfl | hmem
            · exact hseparator
            · exact ih (foreign_notMem_of_flushNumber h) hmem
        · have hrest := foreign_notMem_of_flushNumber h
          rw [List.map_cons, List.mem_cons, not_or] at hrest
          rcases List.mem_cons.mp hmem with rfl | hmem
          · exact absurd (by rw [ofChar_of_isBlank hblank]; rfl) hrest.1
          · exact ih hrest.2 hmem

/-- A text with the tokens of an infix expression has no foreign character. -/
theorem isExpressionText_of_isInfix {cs : List Char} (h : IsInfix ((tokens cs).map Token.role)) :
    isExpressionText cs = true := by
  have hne : cs ≠ [] := by
    rintro rfl
    exact absurd h (by decide)
  have hall := isExpressionChar_of_tokensAfter (foreign_notMem_of_isInfix h)
  rw [isExpressionText, hall, Bool.and_true, Bool.not_eq_true', List.isEmpty_eq_false_iff]
  exact hne

end Cuts

section Spelling

/-- The characters of a token. -/
def Token.text : Token → List Char
  | .number run => run
  | .operator op => [op.symbol]
  | .openParen => ['(']
  | .closeParen => [')']
  | .stray c => [c]

/-- The token is one of an expression, and a number is at least one digit or point. -/
def Token.IsSpelt : Token → Prop
  | .number run => run ≠ [] ∧ ∀ c ∈ run, isNumberChar c = true
  | .stray _ => False
  | _ => True

/-- The texts of tokens: one token after the other, with separators in front of each and at the
end. -/
inductive Spells : List Token → List Char → Prop
  | nil {gap : List Char} (hgap : ∀ c ∈ gap, isSeparator c = true) : Spells [] gap
  | cons {token : Token} {rest : List Token} {gap text : List Char}
      (hgap : ∀ c ∈ gap, isSeparator c = true) (hrest : Spells rest text) :
      Spells (token :: rest) (gap ++ (token.text ++ text))

/-- A token of a single character is what this character is made of. -/
theorem tokensAfter_symbol {token : Token} (hspelt : token.IsSpelt)
    (hoperand : token.role ≠ .operand) (run text : List Char) :
    tokensAfter run (token.text ++ text) = flushNumber run (token :: tokensAfter [] text) := by
  cases token with
  | number literal => exact absurd rfl hoperand
  | operator op =>
      cases op <;> exact tokensAfter_ofChar (by decide) (by decide) run text
  | openParen => exact tokensAfter_ofChar (by decide) (by decide) run text
  | closeParen => exact tokensAfter_ofChar (by decide) (by decide) run text
  | stray c => exact hspelt.elim

/-- The texts of tokens with blanks of some kind in front of each and at the end, and with something
between two numbers. -/
inductive Spaced (blank : Char → Bool) : List Token → List Char → Prop
  | nil {gap : List Char} (hgap : ∀ c ∈ gap, blank c = true) : Spaced blank [] gap
  | cons {token : Token} {rest : List Token} {gap text : List Char}
      (hgap : ∀ c ∈ gap, blank c = true) (hspelt : token.IsSpelt)
      (hapart : token.role = .operand → ∀ c ∈ text.head?, isNumberChar c = false)
      (hrest : Spaced blank rest text) : Spaced blank (token :: rest) (gap ++ (token.text ++ text))

/-- The tokens of a text behind a run that it does not continue. -/
theorem tokensAfter_of_spaced {tokens : List Token} {text : List Char}
    (h : Spaced isSeparator tokens text) (run : List Char)
    (hrun : run = [] ∨ ∀ c ∈ text.head?, isNumberChar c = false) :
    tokensAfter run text = flushNumber run tokens := by
  induction h generalizing run with
  | @nil gap hgap =>
      have hcut : tokensAfter run (gap ++ []) = _ := tokensAfter_gap hgap run
      rw [List.append_nil] at hcut
      rw [hcut]
      split <;> rfl
  | @cons token rest gap text hgap hspelt hapart _ ih =>
      have hhead : ∀ run, run = [] ∨ token.role ≠ .operand →
          tokensAfter run (token.text ++ text) = flushNumber run (token :: rest) := by
        intro run hrun
        by_cases hoperand : token.role = .operand
        · obtain ⟨literal, rfl⟩ := Token.role_eq_operand_iff.mp hoperand
          obtain rfl : run = [] := hrun.resolve_right (absurd hoperand)
          obtain ⟨hne, hnumber⟩ := hspelt
          have hopen : literal.reverse ≠ [] := by simpa using hne
          rw [Token.text, tokensAfter_append [] hnumber, List.append_nil,
            ih _ (Or.inr (hapart rfl)), flushNumber, if_neg hopen, List.reverse_reverse]
          rfl
        · rw [tokensAfter_symbol hspelt hoperand, ih [] (Or.inl rfl)]
          rfl
      rw [tokensAfter_gap hgap]
      split
      · next hnil =>
          subst hnil
          refine hhead run (hrun.imp_right fun hnext hoperand => ?_)
          obtain ⟨literal, rfl⟩ := Token.role_eq_operand_iff.mp hoperand
          obtain ⟨c, literal, rfl⟩ := List.exists_cons_of_ne_nil hspelt.1
          have hnumber := hspelt.2 c List.mem_cons_self
          rw [hnext c rfl] at hnumber
          cases hnumber
      · rw [hhead [] (Or.inl rfl)]
        rfl

theorem tokens_of_spaced {tokens : List Token} {text : List Char}
    (h : Spaced isSeparator tokens text) : Expression.tokens text = tokens :=
  tokensAfter_of_spaced h [] (Or.inl rfl)

/-- A text begins with a digit or a point only if its first token is a number. -/
theorem isNumberChar_head?_of_spells {tokens : List Token} {text : List Char}
    (h : Spells tokens text) (hspelt : ∀ token ∈ tokens, token.IsSpelt)
    (hhead : ∀ role ∈ (tokens.map Token.role).head?, role ≠ .operand) :
    ∀ c ∈ text.head?, isNumberChar c = false := by
  cases h with
  | nil hgap => exact fun c hc => (isSeparator_cases (hgap c (List.mem_of_mem_head? hc))).1
  | @cons token rest gap text hgap _ =>
      cases gap with
      | cons d gap =>
          intro c hc
          obtain rfl : d = c := by simpa using hc
          exact (isSeparator_cases (hgap d List.mem_cons_self)).1
      | nil =>
          cases token with
          | number literal => exact absurd rfl (hhead .operand rfl)
          | operator op => cases op <;> simp [Token.text, Operator.symbol, isNumberChar]
          | openParen => simp [Token.text, isNumberChar]
          | closeParen => simp [Token.text, isNumberChar]
          | stray c => exact (hspelt _ List.mem_cons_self).elim

/-- Tokens with no operands side by side are kept apart without blanks. -/
theorem spaced_of_spells {tokens : List Token} {text : List Char} (h : Spells tokens text)
    (hspelt : ∀ token ∈ tokens, token.IsSpelt)
    (hseparated : Separated (tokens.map Token.role)) : Spaced isSeparator tokens text := by
  induction h with
  | nil hgap => exact .nil hgap
  | @cons token rest gap text hgap hrest ih =>
      have hrestSpelt : ∀ token ∈ rest, token.IsSpelt := fun token h =>
        hspelt token (List.mem_cons_of_mem _ h)
      refine .cons hgap (hspelt token List.mem_cons_self) (fun hoperand => ?_)
        (ih hrestSpelt (List.IsChain.tail hseparated))
      refine isNumberChar_head?_of_spells hrest hrestSpelt fun role hrole hnext => ?_
      have hadjacent : Adjacent token.role role := by
        rw [hoperand, hnext]
        decide
      exact (List.isChain_cons.mp hseparated).1 role hrole hadjacent

theorem tokens_of_spells {tokens : List Token} {text : List Char} (h : Spells tokens text)
    (hspelt : ∀ token ∈ tokens, token.IsSpelt)
    (hseparated : Separated (tokens.map Token.role)) : Expression.tokens text = tokens :=
  tokens_of_spaced (spaced_of_spells h hspelt hseparated)

end Spelling

section Trees

variable {tree : Tree} {precedence : Nat} {tokens : List Token} {text : List Char}

theorem isInfix_of_writes (h : Writes precedence tree tokens) :
    IsInfix (tokens.map Token.role) := by
  induction h with
  | literal _ => exact .operand
  | group _ ih => simpa [Token.role] using IsInfix.group ih
  | binary _ _ _ ihleft ihright => simpa [Token.role] using IsInfix.binary ihleft ihright

theorem isSpelt_of_writes (h : Writes precedence tree tokens) :
    ∀ token ∈ tokens, token.IsSpelt := by
  induction h with
  | literal hrun =>
      simpa [Token.IsSpelt] using ⟨hrun.ne_nil, Binary64.isNumberChar_of_isNumeral hrun⟩
  | group _ ih => simpa [Token.IsSpelt, or_imp, forall_and] using ih
  | binary _ _ _ ihleft ihright =>
      simpa [Token.IsSpelt, or_imp, forall_and] using ⟨ihleft, ihright⟩

/-- The texts of a tree, with parentheses at least where precedence and association to the left do
not tell the operands, and with separators anywhere between the tokens. -/
def Renders (tree : Tree) (text : List Char) : Prop :=
  ∃ tokens, Writes 0 tree tokens ∧ Spells tokens text

theorem writes_of_renders (h : Renders tree text) : Writes 0 tree (Expression.tokens text) := by
  obtain ⟨tokens, hwrites, hspells⟩ := h
  have hseparated := separated_of_isInfix (isInfix_of_writes hwrites)
  rw [tokens_of_spells hspells (isSpelt_of_writes hwrites) hseparated]
  exact hwrites

/-- A text with the tokens of a tree has the value of the tree, with the same error if it has
none. -/
theorem evaluateWith_of_writes {α : Type} {I : Interpretation α}
    (h : Writes 0 tree (Expression.tokens text)) : evaluateWith I text = tree.value I := by
  rw [evaluateWith, if_pos (isExpressionText_of_isInfix (isInfix_of_writes h)),
    evaluateTokens_of_writes h]

theorem evaluateWith_of_renders {α : Type} {I : Interpretation α} (h : Renders tree text) :
    evaluateWith I text = tree.value I :=
  evaluateWith_of_writes (writes_of_renders h)

/-- The interpretation that computes nothing and only puts trees together. -/
def asTree : Interpretation Tree where
  literal run := some (.literal run)
  apply := .binary
  isZero _ := false

theorem value_asTree (tree : Tree) : tree.value asTree = .ok tree := by
  induction tree with
  | literal run => rfl
  | binary op left right ihleft ihright =>
      rw [Tree.value, ihleft, ihright]
      exact if_neg (by simp [asTree])

/-- A text is that of one tree only. -/
theorem eq_of_renders {other : Tree} (h : Renders tree text) (hother : Renders other text) :
    tree = other := by
  have heval := evaluateWith_of_renders (I := asTree) h
  rw [evaluateWith_of_renders hother, value_asTree, value_asTree] at heval
  exact (Except.ok.inj heval).symm

theorem dividesByZero_iff {α : Type} {I : Interpretation α} (hI : I.ReadsNumerals)
    (h : Renders tree text) :
    tree.DividesByZero I ↔ tree.value I = .error .divisionByZero := by
  rcases value_cases hI (writes_of_renders h) with ⟨hzero, herror⟩ | ⟨hzero, value, hvalue⟩
  · simp [hzero, herror]
  · simp [hzero, hvalue]

/-- What an evaluator makes of a tree: an error if a divisor is zero, and otherwise the value of the
tree. -/
structure Computes {α : Type} (I : Interpretation α) (tree : Tree)
    (outcome : Except EvalError α) : Prop where
  divisionByZero : tree.DividesByZero I → outcome = .error .divisionByZero
  value : ¬ tree.DividesByZero I → ∃ value, tree.value I = .ok value ∧ outcome = .ok value

theorem computes_of_writes {α : Type} {I : Interpretation α} (hI : I.ReadsNumerals)
    (h : Writes 0 tree (Expression.tokens text)) : Computes I tree (evaluateWith I text) := by
  rw [evaluateWith_of_writes h]
  rcases value_cases hI h with ⟨hzero, herror⟩ | ⟨hzero, value, hvalue⟩
  · exact ⟨fun _ => herror, fun hnot => absurd hzero hnot⟩
  · exact ⟨fun hyes => absurd hyes hzero, fun _ => ⟨value, hvalue, hvalue⟩⟩

end Trees

theorem readsNumerals_binary64 : binary64.ReadsNumerals :=
  fun _ => Binary64.isSome_parse?_of_isNumeral

/-- Every text of a tree is evaluated as the tree is, node by node: in double precision, and under
every interpretation of operators and literals. -/
theorem evaluate_of_renders {tree : Tree} {text : List Char} (h : Renders tree text) :
    Computes binary64 tree (evaluate text) ∧
      ∀ {α : Type} (I : Interpretation α), I.ReadsNumerals →
        Computes I tree (evaluateWith I text) := by
  have hwrites := writes_of_renders h
  exact ⟨computes_of_writes readsNumerals_binary64 hwrites, fun _ hI =>
    computes_of_writes hI hwrites⟩

/-- A quotient between two differences. -/
def quotientTree : Tree :=
  .binary .sub
    (.binary .sub (.literal ['2']) (.binary .div (.literal ['1', '.', '5']) (.literal ['.', '5'])))
    (.literal ['1'])

/-- A text of it with separators, and with parentheses that it does not need. -/
theorem renders_quotientTree : Renders quotientTree " 2 -\t(1.5)/.5 - 1".toList := by
  have hquotient : Writes 2 (.binary .div (.literal ['1', '.', '5']) (.literal ['.', '5']))
      [.openParen, .number ['1', '.', '5'], .closeParen, .operator .div, .number ['.', '5']] :=
    .binary (by decide) (.group (.literal (by decide))) (.literal (by decide))
  refine ⟨_, .binary (by decide) (.binary (by decide) (.literal (by decide)) hquotient)
    (.literal (by decide)), ?_⟩
  have hspace : ∀ c ∈ [' '], isSeparator c = true := by simp [isSeparator]
  have htab : ∀ c ∈ ['\t'], isSeparator c = true := by simp [isSeparator]
  have hnone : ∀ c ∈ ([] : List Char), isSeparator c = true := by simp
  exact .cons hspace (.cons hspace (.cons htab (.cons hnone (.cons hnone (.cons hnone (.cons hnone
    (.cons hspace (.cons hspace (.nil hnone)))))))))

/-- A quotient whose divisor comes to zero. -/
def zeroDivisorTree : Tree :=
  .binary .div (.literal ['1']) (.binary .sub (.literal ['2']) (.literal ['2', '.']))

theorem renders_zeroDivisorTree : Renders zeroDivisorTree "1/(2-2.)".toList := by
  have hnone : ∀ c ∈ ([] : List Char), isSeparator c = true := by simp
  refine ⟨_, .binary (by decide) (.literal (by decide)) (.group (.binary (by decide)
    (.literal (by decide)) (.literal (by decide)))), ?_⟩
  exact .cons hnone (.cons hnone (.cons hnone (.cons hnone (.cons hnone (.cons hnone (.cons hnone
    (.nil hnone)))))))

theorem evaluate_of_renders_quotients :
    (Renders quotientTree " 2 -\t(1.5)/.5 - 1".toList ∧ asTree.ReadsNumerals ∧
      evaluate " 2 -\t(1.5)/.5 - 1".toList = .ok (Binary64.ofBits 0xc000000000000000) ∧
      evaluateWith asTree " 2 -\t(1.5)/.5 - 1".toList = .ok quotientTree) ∧
    Renders zeroDivisorTree "1/(2-2.)".toList ∧
      evaluate "1/(2-2.)".toList = .error .divisionByZero := by
  have hnumerals : asTree.ReadsNumerals := fun _ _ => rfl
  obtain ⟨hnumber, htree⟩ := evaluate_of_renders renders_quotientTree
  have hvalue : quotientTree.value binary64 = .ok (Binary64.ofBits 0xc000000000000000) := by
    decide +kernel
  have hnumberZero : ¬ quotientTree.DividesByZero binary64 := by
    rw [dividesByZero_iff readsNumerals_binary64 renders_quotientTree, hvalue]
    simp
  have htreeZero : ¬ quotientTree.DividesByZero asTree := by
    simp [quotientTree, Tree.DividesByZero, asTree]
  refine ⟨⟨renders_quotientTree, hnumerals, ?_, ?_⟩, renders_zeroDivisorTree, ?_⟩
  · obtain ⟨value, hcomputed, heval⟩ := hnumber.value hnumberZero
    rw [heval, ← hcomputed, hvalue]
  · obtain ⟨value, hcomputed, heval⟩ := (htree asTree hnumerals).value htreeZero
    rw [heval, ← hcomputed, value_asTree]
  · refine (evaluate_of_renders renders_zeroDivisorTree).1.divisionByZero ?_
    rw [dividesByZero_iff readsNumerals_binary64 renders_zeroDivisorTree]
    decide +kernel

end Expression
end FormulaSheet
