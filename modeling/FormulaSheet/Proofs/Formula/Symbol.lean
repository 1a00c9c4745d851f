import Mathlib
import FormulaSheet.Proofs.Binary64.Text
import FormulaSheet.Proofs.Expression.Rendering
import FormulaSheet.Proofs.Formula.Reading

/-!
# Symbols of a formula

The body of a formula as its author wrote it: numbers, addresses, operators and parentheses. When
it is evaluated, each address is replaced by the text of a number, and the text that results is cut
into tokens. As long as no operand stands directly beside another, the cuts are the same, and an
address becomes one operand, behind a minus sign if its number is negative.

* `formulaSymbols`: the symbols of a formula.
* `WellFormed`: symbols that make up an infix expression.
* `tokens_fill`: the tokens of a body in which addresses are replaced by numbers.
* `exists_writes_fill`: with numbers that bring no minus sign, the body is that of a tree.
-/

namespace FormulaSheet

open Text Expression

/-- A character of the body, or a whole address. -/
inductive Atom
  | char (c : Char)
  | address (letters digits : List Char)
  deriving DecidableEq

def Piece.atoms : Piece → List Atom
  | .gap text => text.map .char
  | .token letters digits => [.address letters digits]

/-- The smallest parts of the body of a formula. -/
inductive Symbol
  | token (token : Token)
  | address (letters digits : List Char)
  deriving DecidableEq

namespace Symbol

def role : Symbol → Role
  | .token part => part.role
  | .address _ _ => .operand

end Symbol

/-- The literal of a run, given last character first; an empty run makes none. -/
def flushLiteral (run : List Char) (symbols : List Symbol) : List Symbol :=
  if run = [] then symbols else .token (.number run.reverse) :: symbols

/-- The symbols of atoms that follow a run of digits and points, given last character first. -/
def symbolsAfter (run : List Char) : List Atom → List Symbol
  | [] => flushLiteral run []
  | .char c :: rest =>
      if isNumberChar c then symbolsAfter (c :: run) rest
      else if isSeparator c then flushLiteral run (symbolsAfter [] rest)
      else flushLiteral run (.token (.ofChar c) :: symbolsAfter [] rest)
  | .address letters digits :: rest =>
      flushLiteral run (.address letters digits :: symbolsAfter [] rest)

/-- The symbols of the body of a formula, in order. -/
def formulaSymbols (formula : List Char) : List Symbol :=
  symbolsAfter [] ((formulaPieces formula).flatMap Piece.atoms)

/-- Numerals and addresses, joined by binary operators and with parentheses around expressions. -/
structure WellFormed (symbols : List Symbol) : Prop where
  isInfix : IsInfix (symbols.map Symbol.role)
  numerals : ∀ run, .token (.number run) ∈ symbols → IsNumeral run

/-- The symbol can be an operand of an expression, if it is meant as one. -/
def Symbol.IsRead : Symbol → Prop
  | .token (.number run) => IsNumeral run
  | _ => True

instance : (symbol : Symbol) → Decidable symbol.IsRead
  | .token (.number run) => inferInstanceAs (Decidable (IsNumeral run))
  | .token (.operator _) => isTrue trivial
  | .token .openParen => isTrue trivial
  | .token .closeParen => isTrue trivial
  | .token (.stray _) => isTrue trivial
  | .address _ _ => isTrue trivial

theorem wellFormed_iff {symbols : List Symbol} :
    WellFormed symbols ↔
      IsInfix (symbols.map Symbol.role) ∧ ∀ symbol ∈ symbols, symbol.IsRead := by
  constructor
  · intro h
    refine ⟨h.isInfix, fun symbol hsymbol => ?_⟩
    unfold Symbol.IsRead
    split
    · exact h.numerals _ hsymbol
    · trivial
  · intro h
    exact ⟨h.1, fun run hrun => h.2 _ hrun⟩

instance (symbols : List Symbol) : Decidable (WellFormed symbols) :=
  decidable_of_iff _ wellFormed_iff.symm

theorem mem_flatMap_atoms {pieces : List Piece} {letters digits : List Char} :
    .address letters digits ∈ pieces.flatMap Piece.atoms ↔ .token letters digits ∈ pieces := by
  rw [List.mem_flatMap]
  constructor
  · rintro ⟨piece, hpiece, hatom⟩
    cases piece with
    | gap text => simp [Piece.atoms] at hatom
    | token letters' digits' =>
        cases List.mem_singleton.mp hatom
        exact hpiece
  · exact fun h => ⟨_, h, List.mem_singleton_self _⟩

section Runs

variable {run literal : List Char} {atoms : List Atom} {symbols : List Symbol}

theorem mem_flushLiteral {symbol : Symbol} :
    symbol ∈ flushLiteral run symbols ↔
      (run ≠ [] ∧ symbol = .token (.number run.reverse)) ∨ symbol ∈ symbols := by
  unfold flushLiteral
  by_cases h : run = []
  · simp [h]
  · simp [h]

theorem flushLiteral_of_ne_nil (h : run ≠ []) :
    flushLiteral run symbols = .token (.number run.reverse) :: symbols :=
  if_neg h

/-- A run of digits and points is the first symbol, together with those that follow it. -/
theorem exists_symbolsAfter_eq_cons (h : run ≠ []) (atoms : List Atom) :
    ∃ literal rest, symbolsAfter run atoms = .token (.number literal) :: rest := by
  induction atoms generalizing run with
  | nil => exact ⟨_, _, flushLiteral_of_ne_nil h⟩
  | cons atom rest ih =>
      cases atom with
      | address letters digits => exact ⟨_, _, flushLiteral_of_ne_nil h⟩
      | char c =>
          unfold symbolsAfter
          split
          · exact ih (List.cons_ne_nil _ _)
          · split
            · exact ⟨_, _, flushLiteral_of_ne_nil h⟩
            · exact ⟨_, _, flushLiteral_of_ne_nil h⟩

/-- Only digits and points make a number token. -/
theorem ofChar_ne_number (c : Char) (run : List Char) : Token.ofChar c ≠ .number run := by
  unfold Token.ofChar
  split
  · simp
  · split
    · simp
    · cases Operator.ofChar? c with
      | none => simp
      | some op => simp

theorem isNumberChar_of_mem_flushLiteral (hrun : ∀ c ∈ run, isNumberChar c = true)
    (hsymbols : .token (.number literal) ∈ symbols → ∀ c ∈ literal, isNumberChar c = true)
    (h : .token (.number literal) ∈ flushLiteral run symbols) :
    ∀ c ∈ literal, isNumberChar c = true := by
  rcases mem_flushLiteral.mp h with ⟨-, heq⟩ | h
  · cases heq
    exact fun c hc => hrun c (List.mem_reverse.mp hc)
  · exact hsymbols h

theorem isNumberChar_of_mem_symbolsAfter (hrun : ∀ c ∈ run, isNumberChar c = true)
    (h : .token (.number literal) ∈ symbolsAfter run atoms) :
    ∀ c ∈ literal, isNumberChar c = true := by
  induction atoms generalizing run with
  | nil => exact isNumberChar_of_mem_flushLiteral hrun (by simp) h
  | cons atom rest ih =>
      have hnil : .token (.number literal) ∈ symbolsAfter [] rest →
          ∀ c ∈ literal, isNumberChar c = true := ih (by simp)
      cases atom with
      | address letters digits =>
          exact isNumberChar_of_mem_flushLiteral hrun (fun h => hnil (by simpa using h)) h
      | char c =>
          unfold symbolsAfter at h
          split at h
          · next hc => exact ih (by simpa using ⟨hc, hrun⟩) h
          · split at h
            · exact isNumberChar_of_mem_flushLiteral hrun hnil h
            · refine isNumberChar_of_mem_flushLiteral hrun (fun h => hnil ?_) h
              have hne : Token.number literal ≠ .ofChar c := (ofChar_ne_number c literal).symm
              simpa [hne] using h

theorem address_mem_of_mem_symbolsAfter {letters digits : List Char}
    (h : .address letters digits ∈ symbolsAfter run atoms) : .address letters digits ∈ atoms := by
  have hliteral : ∀ {run : List Char} {symbols : List Symbol},
      .address letters digits ∈ flushLiteral run symbols → .address letters digits ∈ symbols :=
    fun h => (mem_flushLiteral.mp h).resolve_left (by simp)
  induction atoms generalizing run with
  | nil => exact absurd (hliteral h) List.not_mem_nil
  | cons atom rest ih =>
      cases atom with
      | address letters' digits' =>
          rcases List.mem_cons.mp (hliteral h) with heq | h
          · cases heq
            exact List.mem_cons_self
          · exact List.mem_cons_of_mem _ (ih h)
      | char c =>
          refine List.mem_cons_of_mem _ ?_
          unfold symbolsAfter at h
          split at h
          · exact ih h
          · split at h
            · exact ih (hliteral h)
            · exact ih (List.mem_of_ne_of_mem (by simp) (hliteral h))

theorem mem_symbolsAfter_of_mem {letters digits : List Char}
    (h : .address letters digits ∈ atoms) : .address letters digits ∈ symbolsAfter run atoms := by
  have hliteral : ∀ {run : List Char} {symbols : List Symbol},
      .address letters digits ∈ symbols → .address letters digits ∈ flushLiteral run symbols :=
    fun h => mem_flushLiteral.mpr (Or.inr h)
  induction atoms generalizing run with
  | nil => cases h
  | cons atom rest ih =>
      cases atom with
      | address letters' digits' =>
          rcases List.mem_cons.mp h with heq | h
          · cases heq
            exact hliteral List.mem_cons_self
          · exact hliteral (List.mem_cons_of_mem _ (ih h))
      | char c =>
          have hrest : .address letters digits ∈ rest := List.mem_of_ne_of_mem (by simp) h
          unfold symbolsAfter
          split
          · exact ih hrest
          · split
            · exact hliteral (ih hrest)
            · exact hliteral (List.mem_cons_of_mem _ (ih hrest))

end Runs

/-- The text of an atom, with numbers for the addresses. -/
def Atom.fill (number : List Char → List Char → Binary64) : Atom → List Char
  | .char c => [c]
  | .address letters digits => (number letters digits).text

/-- The tokens of the text of a finite number. -/
def numberTokens (x : Binary64) : List Token :=
  if x.negative then [.operator .sub, .number (Binary64.magnitudeText x.rank)]
  else [.number (Binary64.magnitudeText x.rank)]

/-- The tokens of a symbol, with numbers for the addresses. -/
def Symbol.tokens (number : List Char → List Char → Binary64) : Symbol → List Token
  | .token part => [part]
  | .address letters digits => numberTokens (number letters digits)

section Filling

variable {number : List Char → List Char → Binary64}

/-- The text of a finite number, read where no run is open: its magnitude becomes the open run. -/
theorem tokensAfter_text {x : Binary64} (h : x.isFinite = true) (rest : List Char) :
    tokensAfter [] (x.text ++ rest) =
      (if x.negative then [.operator .sub] else []) ++
        tokensAfter (Binary64.magnitudeText x.rank).reverse rest := by
  have hmagnitude := tokensAfter_append [] (fun c hc =>
    Binary64.isNumberChar_of_mem_magnitudeText (Binary64.rank_ne_of_isFinite h) hc) rest
  rw [List.append_nil] at hmagnitude
  rw [Binary64.text_of_isFinite h]
  split
  · rw [List.cons_append, tokensAfter, if_neg (by decide), if_neg (by decide), hmagnitude]
    rfl
  · rw [hmagnitude]
    rfl

theorem separated_tail {symbol : Symbol} {rest : List Symbol}
    (h : Separated ((symbol :: rest).map Symbol.role)) : Separated (rest.map Symbol.role) :=
  List.IsChain.tail h

/-- Where symbols are separated, none that begins an operand stands behind one that ends one. -/
theorem not_separated {symbol next : Symbol} {rest : List Symbol}
    (hsymbol : symbol.role.endsOperand = true) (hnext : next.role.beginsOperand = true) :
    ¬ Separated ((symbol :: next :: rest).map Symbol.role) := fun h =>
  (List.isChain_cons_cons.mp h).1 ⟨hsymbol, hnext⟩

theorem flatMap_flushLiteral (run : List Char) (symbols : List Symbol) :
    (flushLiteral run symbols).flatMap (Symbol.tokens number) =
      flushNumber run (symbols.flatMap (Symbol.tokens number)) := by
  unfold flushLiteral flushNumber
  split <;> rfl

theorem separated_of_flushLiteral {run : List Char} {symbols : List Symbol}
    (h : Separated ((flushLiteral run symbols).map Symbol.role)) :
    Separated (symbols.map Symbol.role) := by
  unfold flushLiteral at h
  split at h
  · exact h
  · exact separated_tail h

/-- The tokens of atoms whose addresses are replaced by numbers. A run that is open is a run of
the body itself, or the magnitude that has replaced the address before. -/
theorem tokensAfter_fill {atoms : List Atom}
    (hfinite : ∀ letters digits, .address letters digits ∈ atoms →
      (number letters digits).isFinite = true) :
    (∀ run, Separated ((symbolsAfter run atoms).map Symbol.role) →
      tokensAfter run (atoms.flatMap (Atom.fill number)) =
        (symbolsAfter run atoms).flatMap (Symbol.tokens number)) ∧
    ∀ letters digits magnitude, magnitude ≠ [] →
      Separated ((.address letters digits :: symbolsAfter [] atoms).map Symbol.role) →
        tokensAfter magnitude (atoms.flatMap (Atom.fill number)) =
          .number magnitude.reverse ::
            (symbolsAfter [] atoms).flatMap (Symbol.tokens number) := by
  induction atoms with
  | nil =>
      refine ⟨fun run _ => ?_, fun _ _ magnitude hne _ => ?_⟩
      · rw [symbolsAfter, flatMap_flushLiteral]
        rfl
      · exact if_neg hne
  | cons atom rest ih =>
      obtain ⟨hrun, haddress⟩ := ih fun letters digits h =>
        hfinite letters digits (List.mem_cons_of_mem _ h)
      cases atom with
      | char c =>
          rw [List.flatMap_cons, Atom.fill, List.singleton_append]
          by_cases hnumber : isNumberChar c = true
          · refine ⟨fun run hseparated => ?_, fun letters digits magnitude _ hseparated => ?_⟩
            · rw [symbolsAfter, if_pos hnumber] at hseparated ⊢
              rw [tokensAfter, if_pos hnumber]
              exact hrun _ hseparated
            · -- A literal directly behind an address would be an adjacent operand.
              obtain ⟨literal, symbols, hsymbols⟩ :=
                exists_symbolsAfter_eq_cons (List.cons_ne_nil c []) rest
              rw [symbolsAfter, if_pos hnumber, hsymbols] at hseparated
              exact absurd hseparated (not_separated rfl rfl)
          · by_cases hseparator : isSeparator c = true
            · simp only [symbolsAfter, if_neg hnumber, if_pos hseparator, flatMap_flushLiteral,
                tokensAfter_separator hnumber hseparator]
              refine ⟨fun run hseparated => ?_, fun _ _ magnitude hne hseparated => ?_⟩
              · rw [hrun _ (separated_of_flushLiteral hseparated)]
              · rw [hrun _ (separated_tail hseparated)]
                exact if_neg hne
            · simp only [symbolsAfter, if_neg hnumber, if_neg hseparator, flatMap_flushLiteral,
                tokensAfter_ofChar hnumber hseparator, List.flatMap_cons, Symbol.tokens,
                List.singleton_append]
              refine ⟨fun run hseparated => ?_, fun _ _ magnitude hne hseparated => ?_⟩
              · rw [hrun _ (separated_tail (separated_of_flushLiteral hseparated))]
              · rw [hrun _ (separated_tail (separated_tail hseparated))]
                exact if_neg hne
      | address letters digits =>
          have hvalue := hfinite letters digits List.mem_cons_self
          refine ⟨fun run hseparated => ?_, fun _ _ _ _ hseparated => ?_⟩
          · by_cases hopen : run = []
            · subst hopen
              have hrest := haddress letters digits (Binary64.magnitudeText
                (number letters digits).rank).reverse
                (by simpa using Binary64.magnitudeText_ne_nil _) hseparated
              rw [List.flatMap_cons, Atom.fill, tokensAfter_text hvalue, hrest,
                List.reverse_reverse]
              change _ = numberTokens (number letters digits) ++ _
              unfold numberTokens
              split <;> rfl
            · rw [symbolsAfter, flushLiteral_of_ne_nil hopen] at hseparated
              exact absurd hseparated (not_separated rfl rfl)
          · exact absurd hseparated (not_separated rfl rfl)

/-- The tokens of a body whose addresses are replaced by finite numbers. -/
theorem tokens_fill {atoms : List Atom}
    (hfinite : ∀ letters digits, .address letters digits ∈ atoms →
      (number letters digits).isFinite = true)
    (hseparated : Separated ((symbolsAfter [] atoms).map Symbol.role)) :
    tokens (atoms.flatMap (Atom.fill number)) =
      (symbolsAfter [] atoms).flatMap (Symbol.tokens number) :=
  (tokensAfter_fill hfinite).1 [] hseparated

end Filling

section Counting

variable (number : List Char → List Char → Binary64)

/-- A minus sign comes in with the number of the symbol. -/
def Symbol.bringsSign : Symbol → Bool
  | .token _ => false
  | .address letters digits => (number letters digits).negative

/-- How many minus signs come in with the numbers. -/
def signs (symbols : List Symbol) : Nat :=
  symbols.countP (Symbol.bringsSign number)

theorem surplus_numberTokens (x : Binary64) :
    surplus ((numberTokens x).map Token.role) = if x.negative then 0 else 1 := by
  unfold numberTokens
  split <;> rfl

/-- Every minus sign in front of a number is one operator more, and nothing else is changed. -/
theorem surplus_tokens_add_signs (symbols : List Symbol) :
    surplus ((symbols.flatMap (Symbol.tokens number)).map Token.role) + signs number symbols =
      surplus (symbols.map Symbol.role) := by
  induction symbols with
  | nil => rfl
  | cons symbol rest ih =>
      have hsplit : surplus (((symbol :: rest).flatMap (Symbol.tokens number)).map Token.role) =
          surplus ((symbol.tokens number).map Token.role) +
            surplus ((rest.flatMap (Symbol.tokens number)).map Token.role) := by
        rw [List.flatMap_cons, List.map_append, surplus_append]
      have hone : surplus ((symbol.tokens number).map Token.role) +
          (if symbol.bringsSign number then 1 else 0) = symbol.role.surplus := by
        cases symbol with
        | token part => simp [Symbol.tokens, Symbol.bringsSign, Symbol.role]
        | address letters digits =>
            rw [Symbol.tokens, surplus_numberTokens, Symbol.bringsSign]
            split <;> rfl
      rw [hsplit, List.map_cons, surplus_cons, ← ih, ← hone, signs, signs, List.countP_cons]
      push_cast
      omega

theorem balanced_tokens (symbols : List Symbol) (depth : Nat) :
    balanced depth ((symbols.flatMap (Symbol.tokens number)).map Token.role) =
      balanced depth (symbols.map Symbol.role) := by
  induction symbols generalizing depth with
  | nil => rfl
  | cons symbol rest ih =>
      cases symbol with
      | token part =>
          rw [List.flatMap_cons, Symbol.tokens, List.singleton_append, List.map_cons,
            List.map_cons, Symbol.role]
          cases hrole : part.role with
          | operand => exact ih depth
          | operator => exact ih depth
          | openParen => exact ih (depth + 1)
          | closeParen =>
              cases depth with
              | zero => rfl
              | succ depth => exact ih depth
          | foreign => exact ih depth
      | address letters digits =>
          rw [List.flatMap_cons, Symbol.tokens, numberTokens]
          split
          · exact ih depth
          · exact ih depth

end Counting

section Trees

variable {number : List Char → List Char → Binary64}

/-- Where no number is negative, an address becomes a single operand. -/
theorem map_role_tokens {symbols : List Symbol}
    (hpositive : ∀ letters digits, .address letters digits ∈ symbols →
      (number letters digits).negative = false) :
    (symbols.flatMap (Symbol.tokens number)).map Token.role = symbols.map Symbol.role := by
  induction symbols with
  | nil => rfl
  | cons symbol rest ih =>
      rw [List.flatMap_cons, List.map_append, List.map_cons,
        ih fun letters digits h => hpositive letters digits (List.mem_cons_of_mem _ h)]
      cases symbol with
      | token part => rfl
      | address letters digits =>
          rw [Symbol.tokens, numberTokens, hpositive letters digits List.mem_cons_self]
          rfl

/-- The body of a well-formed formula is that of a tree, if neither a minus sign nor a letter comes
in with the numbers that replace the addresses. -/
theorem exists_writes_fill {atoms : List Atom} (hwell : WellFormed (symbolsAfter [] atoms))
    (hnumber : ∀ letters digits, .address letters digits ∈ atoms →
      (number letters digits).isFinite = true ∧ (number letters digits).negative = false) :
    ∃ tree, Writes 0 tree (tokens (atoms.flatMap (Atom.fill number))) := by
  have hmem : ∀ letters digits, .address letters digits ∈ symbolsAfter [] atoms →
      (number letters digits).isFinite = true ∧ (number letters digits).negative = false :=
    fun letters digits h => hnumber letters digits (address_mem_of_mem_symbolsAfter h)
  rw [tokens_fill (fun letters digits h => (hnumber letters digits h).1)
    (separated_of_isInfix hwell.isInfix)]
  have hroles := map_role_tokens fun letters digits h => (hmem letters digits h).2
  obtain ⟨tree, htree⟩ := exists_writes_of_isInfix hwell.isInfix hroles fun run hrun => by
    obtain ⟨symbol, hsymbol, hrun⟩ := List.mem_flatMap.mp hrun
    cases symbol with
    | token part =>
        obtain rfl := List.mem_singleton.mp hrun
        exact hwell.numerals run hsymbol
    | address letters digits =>
        obtain ⟨hfinite, hpositive⟩ := hmem letters digits hsymbol
        rw [Symbol.tokens, numberTokens, hpositive] at hrun
        obtain rfl := Token.number.inj (List.mem_singleton.mp hrun)
        exact (Binary64.isPositional_magnitudeText
          (Binary64.rank_ne_of_isFinite hfinite)).isNumeral
  exact ⟨tree, writes_zero_of_writes htree⟩

end Trees

end FormulaSheet
