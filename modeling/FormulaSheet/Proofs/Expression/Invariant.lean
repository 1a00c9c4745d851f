import Mathlib
import FormulaSheet.Proofs.Binary64.Literal
import FormulaSheet.Proofs.Expression.Degradable
import FormulaSheet.Proofs.Expression.Machine
import FormulaSheet.Proofs.Expression.Spacing
import FormulaSheet.Proofs.Expression.Stacks

/-!
# What the scan keeps, and what a value tells

Between two turns of the scan the operators wait in layers, one for each open parenthesis. Whatever
tokens come, in whatever order, no layer holds more than two operators, and the upper one binds more
tightly. The operands are as many as literals have been read less operators applied. A text with a
value is therefore not far from an expression: its parentheses match, its runs of digits and points
are numerals, and there is one numeral more than there are operators.

* `Layered`: how operators wait on the stack.
* `Point.IsSound`, `isSound_of_reaches`: what holds at every point, by one step and by all.
* `HasShape`: what is known of a text with a value.
* `scan_invariants`: both together.
-/

namespace FormulaSheet
namespace Expression

section Layers

/-- The operators between two open parentheses, next to each other on the stack, are two at most,
and each binds more tightly than those below. -/
def Layered (operators : List Pending) : Prop :=
  ∀ layer : List Operator, layer.map .operator <:+: operators →
    layer.length ≤ 2 ∧ layer.Pairwise fun above below => below.precedence < above.precedence

/-- What can wait right above something else: an open parenthesis, or what binds more tightly. -/
def Mounts (above below : Pending) : Prop :=
  above = .openParen ∨ below.precedence < above.precedence

/-- There are two precedences, so no three operators can bind each more tightly than the next. -/
theorem length_le_two_of_pairwise {layer : List Operator}
    (h : layer.Pairwise fun above below => below.precedence < above.precedence) :
    layer.length ≤ 2 := by
  rcases layer with - | ⟨a, - | ⟨b, - | ⟨c, layer⟩⟩⟩
  · simp
  · simp
  · simp
  · simp only [List.pairwise_cons, List.mem_cons, forall_eq_or_imp] at h
    have hpositive : 0 < c.precedence := by cases c <;> decide
    have hbound : a.precedence ≤ 2 := by cases a <;> decide
    omega

theorem layered_of_isChain {operators : List Pending} (h : operators.IsChain Mounts) :
    Layered operators := by
  intro layer hlayer
  have hinfix := List.IsChain.infix h hlayer
  have hchain := (List.isChain_map _).mp hinfix
  have hbinds : layer.IsChain fun above below => below.precedence < above.precedence :=
    hchain.imp fun above below hmounts => hmounts.resolve_left nofun
  have : IsTrans Operator fun above below => below.precedence < above.precedence :=
    ⟨fun _ _ _ hab hbc => hbc.trans hab⟩
  have hpairwise := List.isChain_iff_pairwise.mp hbinds
  exact ⟨length_le_two_of_pairwise hpairwise, hpairwise⟩

end Layers

section Points

variable {α : Type}

/-- The literals that are counted are those of the tokens that have been read. -/
def Point.CountsLiterals (tokens : List Token) (p : Point α) : Prop :=
  ∃ before, tokens = before ++ p.rest ∧ p.literals = (before.filterMap Token.literal?).length

/-- What holds wherever the scan of some tokens stands. -/
structure Point.IsSound (I : Interpretation α) (tokens : List Token) (p : Point α) : Prop where
  layered : Layered p.held.operators
  literals : p.CountsLiterals tokens
  operands : (p.held.operands.length : Int) = p.literals - p.applied
  /-- An operator is applied only where something waits. -/
  applies : p.appliesTop = true → p.held.operators ≠ []
  /-- The next turn does not fail for want of an operator, or on a parenthesis as if it were one. -/
  halts : p.turn I ≠ .halt .missingOperator ∧ p.turn I ≠ .halt .parenApplied

variable {I : Interpretation α} {tokens : List Token} {p q : Point α}

/-- A turn takes from the operators at their top, or puts on top what can wait there. -/
theorem isChain_of_follows (h : p.Follows q) (hp : p.held.operators.IsChain Mounts) :
    q.held.operators.IsChain Mounts := by
  cases h with
  | applied hoperators _ =>
      rw [hoperators] at hp
      exact hp.tail
  | literal _ => exact hp
  | entered _ _ => exact hp
  | opened _ => exact List.isChain_cons.mpr ⟨fun _ _ => Or.inl rfl, hp⟩
  | ended => exact hp
  | reduced hroom => exact List.isChain_cons.mpr ⟨fun top htop => Or.inr (hroom top htop), hp⟩
  | closed hoperators =>
      rw [hoperators] at hp
      exact hp.tail

theorem countsLiterals_of_follows (h : p.Follows q) (hp : p.CountsLiterals tokens) :
    q.CountsLiterals tokens := by
  obtain ⟨before, htokens, hliterals⟩ := hp
  have hnext : ∀ {token rest}, p.rest = token :: rest → tokens = (before ++ [token]) ++ rest := by
    intro token rest hrest
    rw [htokens, hrest, List.append_assoc]
    rfl
  cases h with
  | applied _ _ => exact ⟨before, htokens, hliterals⟩
  | literal hrest => exact ⟨_, hnext hrest, by simp [Token.literal?, hliterals]⟩
  | entered hrest htoken => exact ⟨_, hnext hrest, by simp [htoken, hliterals]⟩
  | opened hrest => exact ⟨_, hnext hrest, by simp [Token.literal?, hliterals, Point.wait]⟩
  | ended => exact ⟨before, htokens, hliterals⟩
  | reduced _ => exact ⟨before, htokens, hliterals⟩
  | closed _ => exact ⟨before, htokens, hliterals⟩

theorem operands_of_follows (h : p.Follows q)
    (hp : (p.held.operands.length : Int) = p.literals - p.applied) :
    (q.held.operands.length : Int) = q.literals - q.applied := by
  cases h with
  | applied _ hoperands =>
      simp only
      omega
  | literal _ =>
      simp only [List.length_cons]
      omega
  | entered _ _ => exact hp
  | opened _ => exact hp
  | ended => exact hp
  | reduced _ => exact hp
  | closed _ => exact hp

/-- What the turns keep. -/
theorem isSound_of_reaches {tokens : List Token} (h : Point.Reaches I { rest := tokens } p) :
    p.IsSound I tokens := by
  have hkept : p.held.operators.IsChain Mounts ∧ p.CountsLiterals tokens ∧
      (p.held.operands.length : Int) = p.literals - p.applied := by
    induction h with
    | refl => exact ⟨.nil, ⟨[], rfl, rfl⟩, rfl⟩
    | tail _ hlast ih =>
        have hfollows := follows_of_leads hlast
        exact ⟨isChain_of_follows hfollows ih.1, countsLiterals_of_follows hfollows ih.2.1,
          operands_of_follows hfollows ih.2.2⟩
  obtain ⟨hchain, hliterals, hoperands⟩ := hkept
  refine ⟨layered_of_isChain hchain, hliterals, hoperands, operators_ne_nil_of_appliesTop,
    fun hhalt => ?_, fun hhalt => ?_⟩
  · obtain ⟨error, herror⟩ := exists_error_of_turn hhalt
    cases herror
  · obtain ⟨error, herror⟩ := exists_error_of_turn hhalt
    cases herror

end Points

section Counts

variable {roles : List Role} {depth : Nat}

theorem surplus_eq_count (roles : List Role) :
    surplus roles = roles.count .operand - roles.count .operator := by
  induction roles with
  | nil => rfl
  | cons role rest ih =>
      rw [surplus_cons, ih]
      cases role <;> simp [Role.surplus] <;> omega

theorem exists_of_balanced_cons {role : Role} (h : balanced depth (role :: roles) = true) :
    ∃ next, balanced next roles = true ∧
      next + [role].count .closeParen = depth + [role].count .openParen := by
  cases role with
  | operand => exact ⟨depth, by simpa [balanced] using h, rfl⟩
  | operator => exact ⟨depth, by simpa [balanced] using h, rfl⟩
  | openParen => exact ⟨depth + 1, by simpa [balanced] using h, rfl⟩
  | closeParen =>
      cases depth with
      | zero => cases h
      | succ depth => exact ⟨depth, by simpa [balanced] using h, rfl⟩
  | foreign => exact ⟨depth, by simpa [balanced] using h, rfl⟩

/-- Of balanced parentheses each one that closes has an open one before it, and none stays open. -/
theorem count_of_balanced (h : balanced depth roles = true) :
    roles.count .closeParen = depth + roles.count .openParen ∧
      ∀ front, front <+: roles → front.count .closeParen ≤ depth + front.count .openParen := by
  induction roles generalizing depth with
  | nil =>
      have hdepth : depth = 0 := by simpa [balanced] using h
      simp [hdepth]
  | cons role rest ih =>
      obtain ⟨next, hrest, hstep⟩ := exists_of_balanced_cons h
      obtain ⟨hall, hfront⟩ := ih hrest
      rw [← List.singleton_append, List.count_append, List.count_append]
      refine ⟨by omega, fun front hbegin => ?_⟩
      rcases List.prefix_cons_iff.mp hbegin with rfl | ⟨tail, rfl, htail⟩
      · simp
      · have hle := hfront tail htail
        rw [← List.singleton_append, List.count_append, List.count_append]
        omega

/-- Operands have no part in the matching of parentheses. -/
theorem balanced_filter (depth : Nat) (roles : List Role) :
    balanced depth (roles.filter (· ≠ .operand)) = balanced depth roles := by
  induction roles generalizing depth with
  | nil => rfl
  | cons role rest ih =>
      cases role with
      | operand => simpa [balanced] using ih depth
      | operator => simpa [balanced] using ih depth
      | openParen => simpa [balanced] using ih (depth + 1)
      | closeParen =>
          cases depth with
          | zero => rfl
          | succ depth => simpa [balanced] using ih depth
      | foreign => simpa [balanced] using ih depth

end Counts

section Texts

/-- The runs of digits and points in a text, each as long as it can be. -/
def numberRuns (text : List Char) : List (List Char) :=
  (text.splitOnP fun c => !isNumberChar c).filter (· ≠ [])

/-- The character is one of the four operators. -/
def isOperatorChar (c : Char) : Bool :=
  (Operator.ofChar? c).isSome

/-- What is known of a text that has a value. -/
structure HasShape (text : List Char) : Prop where
  /-- No parenthesis closes before it has been opened. -/
  opened : ∀ front, front <+: text → front.count ')' ≤ front.count '('
  closed : text.count ')' = text.count '('
  numerals : ∀ run ∈ numberRuns text, IsNumeral run
  operators : (numberRuns text).length = text.countP isOperatorChar + 1

theorem isNumberChar_of_mem_numberRuns {text run : List Char} (h : run ∈ numberRuns text) :
    ∀ c ∈ run, isNumberChar c = true := by
  have hsplit : ∀ run ∈ text.splitOnP fun c => !isNumberChar c,
      ∀ c ∈ run, isNumberChar c = true := by
    clear h
    induction text with
    | nil => simp
    | cons c text ih =>
        rw [List.splitOnP_cons_eq_if_modifyHead]
        split
        · simpa using ih
        · next hnumber =>
            cases hruns : text.splitOnP fun c => !isNumberChar c with
            | nil => exact absurd hruns (List.splitOnP_ne_nil _ _)
            | cons head tail =>
                rw [hruns, List.forall_mem_cons] at ih
                rw [List.modifyHead_cons, List.forall_mem_cons, List.forall_mem_cons]
                exact ⟨⟨by simpa using hnumber, ih.1⟩, ih.2⟩
  exact hsplit run (List.mem_of_mem_filter h)

theorem literal?_eq_some_iff {token : Token} {literal : List Char} :
    token.literal? = some literal ↔ token = .number literal := by
  cases token <;> simp [Token.literal?]

theorem literal?_ofChar (c : Char) : (Token.ofChar c).literal? = none := by
  unfold Token.ofChar
  split
  · rfl
  · split
    · rfl
    · split <;> rfl

theorem filterMap_literal?_flushNumber (run : List Char) (tokens : List Token) :
    (flushNumber run tokens).filterMap Token.literal? =
      [run.reverse].filter (· ≠ []) ++ tokens.filterMap Token.literal? := by
  unfold flushNumber
  split
  · next h => simp [h]
  · next h => simp [h, Token.literal?]

/-- The literals of a text behind the beginning of a run, given last character first. -/
theorem filterMap_literal?_tokensAfter (run text : List Char) :
    (tokensAfter run text).filterMap Token.literal? =
      ((text.splitOnP fun c => !isNumberChar c).modifyHead (run.reverse ++ ·)).filter (· ≠ []) := by
  induction text generalizing run with
  | nil =>
      rw [tokensAfter, filterMap_literal?_flushNumber]
      simp
  | cons c text ih =>
      -- Any other character ends the run, and a new one begins behind it.
      have hcut : [run.reverse].filter (· ≠ []) ++
            (tokensAfter [] text).filterMap Token.literal? =
          (([] :: text.splitOnP fun c => !isNumberChar c).modifyHead (run.reverse ++ ·)).filter
            (· ≠ []) := by
        have hid : (text.splitOnP fun c => !isNumberChar c).modifyHead ([] ++ ·) =
            text.splitOnP fun c => !isNumberChar c := congrFun List.modifyHead_id _
        rw [ih, List.reverse_nil, hid, List.modifyHead_cons, List.append_nil, ← List.filter_append]
        rfl
      rw [tokensAfter, List.splitOnP_cons_eq_if_modifyHead]
      split
      · next hnumber =>
          rw [ih]
          simp [hnumber, Function.comp_def]
      · next hnumber =>
          have hends : (!isNumberChar c) = true := by simpa using hnumber
          rw [if_pos hends, ← hcut]
          split
          · exact filterMap_literal?_flushNumber run _
          · rw [filterMap_literal?_flushNumber, List.filterMap_cons, literal?_ofChar]

theorem filterMap_literal?_tokens (text : List Char) :
    (tokens text).filterMap Token.literal? = numberRuns text := by
  rw [tokens, filterMap_literal?_tokensAfter]
  exact congrArg _ (congrFun List.modifyHead_id _)

/-- The part of a character that is a token by itself. -/
def charRole? (c : Char) : Option Role :=
  if isNumberChar c = true ∨ isSeparator c = true then none else some (Token.ofChar c).role

theorem filter_role_flushNumber (run : List Char) (tokens : List Token) :
    ((flushNumber run tokens).map Token.role).filter (· ≠ .operand) =
      (tokens.map Token.role).filter (· ≠ .operand) := by
  unfold flushNumber
  split <;> rfl

theorem role_ofChar_ne_operand (c : Char) : (Token.ofChar c).role ≠ .operand := by
  unfold Token.ofChar
  split
  · nofun
  · split
    · nofun
    · split <;> nofun

theorem filter_role_tokensAfter (run text : List Char) :
    ((tokensAfter run text).map Token.role).filter (· ≠ .operand) = text.filterMap charRole? := by
  induction text generalizing run with
  | nil => exact filter_role_flushNumber run []
  | cons c text ih =>
      rw [tokensAfter, List.filterMap_cons, charRole?]
      split
      · next hnumber => simpa [hnumber] using ih _
      · next hnumber =>
          split
          · next hseparator =>
              rw [filter_role_flushNumber]
              simpa [hseparator] using ih _
          · next hseparator =>
              rw [filter_role_flushNumber]
              simpa [hnumber, hseparator, role_ofChar_ne_operand] using ih _

theorem charRole?_eq_openParen_iff {c : Char} : charRole? c = some .openParen ↔ c = '(' := by
  constructor
  · intro h
    unfold charRole? Token.ofChar at h
    split at h
    · cases h
    · split at h
      · assumption
      · split at h
        · cases h
        · split at h <;> cases h
  · rintro rfl
    decide

theorem charRole?_eq_closeParen_iff {c : Char} : charRole? c = some .closeParen ↔ c = ')' := by
  constructor
  · intro h
    unfold charRole? Token.ofChar at h
    split at h
    · cases h
    · split at h
      · cases h
      · split at h
        · assumption
        · split at h <;> cases h
  · rintro rfl
    decide

theorem charRole?_eq_operator_iff {c : Char} :
    charRole? c = some .operator ↔ isOperatorChar c = true := by
  constructor
  · intro h
    unfold charRole? Token.ofChar at h
    split at h
    · cases h
    · split at h
      · cases h
      · split at h
        · cases h
        · split at h
          · next op hop => simp [isOperatorChar, hop]
          · cases h
  · intro h
    obtain ⟨op, hop⟩ := Option.isSome_iff_exists.mp h
    obtain rfl := symbol_of_ofChar? hop
    cases op <;> decide

theorem count_filterMap_charRole? (role : Role) (text : List Char) :
    (text.filterMap charRole?).count role = text.countP fun c => charRole? c = some role := by
  rw [List.count, List.countP_filterMap]
  refine List.countP_congr fun c _ => ?_
  cases charRole? c with
  | none => simp
  | some found => simp

theorem count_openParen (text : List Char) :
    (text.filterMap charRole?).count .openParen = text.count '(' := by
  rw [count_filterMap_charRole?]
  exact List.countP_congr fun c _ => by simp [charRole?_eq_openParen_iff]

theorem count_closeParen (text : List Char) :
    (text.filterMap charRole?).count .closeParen = text.count ')' := by
  rw [count_filterMap_charRole?]
  exact List.countP_congr fun c _ => by simp [charRole?_eq_closeParen_iff]

theorem count_operator (text : List Char) :
    (text.filterMap charRole?).count .operator = text.countP isOperatorChar := by
  rw [count_filterMap_charRole?]
  exact List.countP_congr fun c _ => by simp [charRole?_eq_operator_iff]

theorem count_operand (tokens : List Token) :
    (tokens.map Token.role).count .operand = (tokens.filterMap Token.literal?).length := by
  rw [List.count, List.countP_map, List.length_filterMap_eq_countP]
  refine List.countP_congr fun token _ => ?_
  cases token <;> simp [Token.role, Token.literal?]

theorem hasShape_of_evaluate {text : List Char} {value : Binary64}
    (h : evaluate text = .ok value) : HasShape text := by
  obtain ⟨hlegal, hsurplus, hbalanced⟩ := evaluateTokens_eq_ok (evaluate_eq_ok h).2
  have hroles := filter_role_tokensAfter [] text
  rw [← balanced_filter, tokens, hroles] at hbalanced
  obtain ⟨hall, hfront⟩ := count_of_balanced hbalanced
  refine ⟨fun front hbegin => ?_, ?_, fun run hrun => ?_, ?_⟩
  · have hle := hfront _ (hbegin.filterMap charRole?)
    rw [count_openParen, count_closeParen] at hle
    omega
  · rw [count_openParen, count_closeParen] at hall
    omega
  · have hmem := hrun
    rw [← filterMap_literal?_tokens, List.mem_filterMap] at hmem
    obtain ⟨token, htoken, hliteral⟩ := hmem
    obtain rfl := literal?_eq_some_iff.mp hliteral
    exact Binary64.isNumeral_of_parse? (isNumberChar_of_mem_numberRuns hrun) (hlegal _ htoken)
  · have hoperators :
        ((tokens text).map Token.role).count .operator = text.countP isOperatorChar := by
      rw [← count_operator, ← hroles, List.count_filter (by decide)]
      rfl
    rw [surplus_eq_count, count_operand, hoperators, filterMap_literal?_tokens] at hsurplus
    omega

/-- What holds of the scan of a text. -/
structure Scanned (text : List Char) : Prop where
  sound : ∀ p, Point.Reaches binary64 { rest := tokens text } p → p.IsSound binary64 (tokens text)
  answer : isExpressionText text = true →
    ∀ p, Point.Reaches binary64 { rest := tokens text } p → p.Answers binary64 (evaluate text)
  value : ∀ value, evaluate text = .ok value → HasShape text
  error : ∀ error, evaluate text = .error error → error.isStructural = false

theorem scan_invariants (text : List Char) : Scanned text := by
  refine ⟨fun p hp => isSound_of_reaches hp, fun htext p hp => ?_,
    fun value hvalue => hasShape_of_evaluate hvalue, fun error herror => ?_⟩
  · have hanswer : evaluate text = evaluateTokens binary64 (tokens text) := if_pos htext
    rw [hanswer]
    exact answers_of_reaches (answers_start _) hp
  · exact EvalError.isStructural_of_isArithmetic
      (failsArithmetically_evaluateWith binary64 text error herror)

end Texts

end Expression
end FormulaSheet
