import FormulaSheet.Binary64.Literal
import FormulaSheet.Binary64.Shortest
import FormulaSheet.Expression.Token
import FormulaSheet.Proofs.Text.Run

/-!
# Which texts are numbers

A text is read as a number if it is a decimal or one of the words for infinities and for no number,
and no other text is. A run of digits and points is read only if it has at least one digit and at
most one point, and then it denotes what its digits denote, divided by a power of ten.

* `IsNumeral`: the numerals among such runs.
* `IsDecimal`, `IsWord`, `isSome_parse?_iff`: the texts that are read.
* `Denotes`, `parse?_of_denotes`: the sign and the exact value that a decimal text stands for, which
  is what is rounded when it is read.
* `parse?_of_splitSign`: for texts that begin with a digit or a point, words play no part.
* `isNumeral_of_parse?`, `isSome_parse?_of_isNumeral`: a run is read if and only if it is a numeral.
-/

namespace FormulaSheet

open Text Expression

namespace Expression

theorem isNumberChar_of_isDigit {c : Char} (h : c.isDigit = true) : isNumberChar c = true := by
  simp [isNumberChar, h]

/-- Digits and points stand close together, before all letters. -/
theorem toNat_of_isNumberChar {c : Char} (h : isNumberChar c = true) :
    46 ≤ c.toNat ∧ c.toNat ≤ 57 := by
  rw [isNumberChar, Bool.or_eq_true, decide_eq_true_eq, Char.isDigit_iff_toNat] at h
  rcases h with ⟨hlow, hhigh⟩ | rfl
  · exact ⟨Nat.le_trans (by decide) hlow, Nat.le_trans hhigh (by decide)⟩
  · decide

theorem isBlank_of_isNumberChar {c : Char} (h : isNumberChar c = true) : isBlank c = false := by
  have hrange := toNat_of_isNumberChar h
  simp only [isBlank, blankRanges, List.any_cons, List.any_nil, Bool.or_false, Bool.or_eq_false_iff,
    Bool.and_eq_false_iff, decide_eq_false_iff_not]
  omega

theorem toLower_of_isNumberChar {c : Char} (h : isNumberChar c = true) : c.toLower = c := by
  have hrange := toNat_of_isNumberChar h
  have hletter : ¬ (c.val ≥ 'A'.val ∧ c.val ≤ 'Z'.val) := by
    rintro ⟨hlow, -⟩
    have hle : 'A'.val.toNat ≤ c.val.toNat := hlow
    have hnat : c.val.toNat = c.toNat := rfl
    have hA : 'A'.val.toNat = 65 := rfl
    omega
  exact dif_neg hletter

end Expression

/-- At least one digit, with at most one point before, among or behind the digits. -/
def IsNumeral (run : List Char) : Prop :=
  ∃ whole fraction, (∀ c ∈ whole ++ fraction, c.isDigit = true) ∧ whole ++ fraction ≠ [] ∧
    (run = whole ++ fraction ∨ run = whole ++ '.' :: fraction)

theorem IsNumeral.ne_nil {run : List Char} (h : IsNumeral run) : run ≠ [] := by
  obtain ⟨whole, fraction, -, hne, rfl | rfl⟩ := h
  · exact hne
  · simp

def IsSign (cs : List Char) : Prop :=
  cs = [] ∨ cs = ['+'] ∨ cs = ['-']

/-- Nothing, or a letter with digits behind it and perhaps a sign between them. -/
def IsExponent (cs : List Char) : Prop :=
  cs = [] ∨ ∃ e sign digits, (e = 'e' ∨ e = 'E') ∧ IsSign sign ∧ digits ≠ [] ∧
    (∀ c ∈ digits, c.isDigit = true) ∧ cs = e :: (sign ++ digits)

/-- A numeral, perhaps with a sign and an exponent. -/
def IsDecimal (cs : List Char) : Prop :=
  ∃ sign numeral exponent, IsSign sign ∧ IsNumeral numeral ∧ IsExponent exponent ∧
    cs = sign ++ (numeral ++ exponent)

/-- A word for an infinity or for no number, perhaps with a sign. -/
def IsWord (cs : List Char) : Prop :=
  ∃ sign word, IsSign sign ∧
    word.map Char.toLower ∈ ["inf".toList, "infinity".toList, "nan".toList] ∧ cs = sign ++ word

namespace Binary64

section Runs

variable {run : List Char}

theorem ne_sign_of_isNumberChar {c : Char} (h : isNumberChar c = true) : c ≠ '+' ∧ c ≠ '-' := by
  constructor
  · rintro rfl
    exact absurd h (by decide)
  · rintro rfl
    exact absurd h (by decide)

theorem splitSign_of_head? {cs : List Char} (h : ∀ c ∈ cs.head?, c ≠ '+' ∧ c ≠ '-') :
    splitSign cs = (false, cs) := by
  unfold splitSign
  split
  · exact absurd rfl (h '+' rfl).1
  · exact absurd rfl (h '-' rfl).2
  · rfl

theorem splitSign_of_isNumberChar (h : ∀ c ∈ run, isNumberChar c = true) :
    splitSign run = (false, run) :=
  splitSign_of_head? fun c hc => ne_sign_of_isNumberChar (h c (List.mem_of_mem_head? hc))

/-- What begins with a digit or a point, with a sign or without, is no word. -/
theorem parse?_of_splitSign {cs body : List Char} {negative : Bool}
    (hsign : splitSign cs = (negative, body)) (h : ∀ c ∈ body.head?, isNumberChar c = true) :
    parse? cs = decimal? negative body := by
  have hword : ∀ word : List Char, (∃ c ∈ word.head?, isNumberChar c = false) →
      body.map Char.toLower ≠ word := by
    rintro word ⟨c, hc, hletter⟩ rfl
    rw [List.head?_map, Option.mem_def, Option.map_eq_some_iff] at hc
    obtain ⟨d, hd, rfl⟩ := hc
    rw [toLower_of_isNumberChar (h d hd), h d hd] at hletter
    cases hletter
  simp only [parse?, hsign]
  rw [if_neg (not_or.mpr ⟨hword _ ⟨'i', rfl, by decide⟩, hword _ ⟨'i', rfl, by decide⟩⟩),
    if_neg (hword _ ⟨'n', rfl, by decide⟩)]

theorem parse?_of_isNumberChar (h : ∀ c ∈ run, isNumberChar c = true) :
    parse? run = decimal? false run :=
  parse?_of_splitSign (splitSign_of_isNumberChar h) fun c hc => h c (List.mem_of_mem_head? hc)

theorem splitFraction_cases (cs : List Char) :
    (∃ rest, cs = '.' :: rest ∧
      splitFraction cs = (rest.takeWhile Char.isDigit, rest.dropWhile Char.isDigit)) ∨
    splitFraction cs = ([], cs) := by
  unfold splitFraction
  split
  · exact Or.inl ⟨_, rfl, rfl⟩
  · exact Or.inr rfl

theorem exists_sign (cs : List Char) : ∃ sign, IsSign sign ∧ cs = sign ++ (splitSign cs).2 := by
  unfold splitSign
  split
  · exact ⟨['+'], Or.inr (Or.inl rfl), rfl⟩
  · exact ⟨['-'], Or.inr (Or.inr rfl), rfl⟩
  · exact ⟨[], Or.inl rfl, rfl⟩

theorem isExponent_of_exponent? {cs : List Char} (h : (exponent? cs).isSome = true) :
    IsExponent cs := by
  cases cs with
  | nil => exact Or.inl rfl
  | cons c rest =>
      unfold exponent? at h
      dsimp only at h
      split at h
      · next hexponent =>
          obtain ⟨hletter, hne, hdigits⟩ := hexponent
          obtain ⟨sign, hsign, hrest⟩ := exists_sign rest
          exact Or.inr ⟨c, sign, _, hletter, hsign, hne, List.all_eq_true.mp hdigits,
            congrArg _ hrest⟩
      · cases h

/-- A text that is read without its sign is a numeral, with an exponent behind it or not. -/
theorem exists_numeral_of_decimal? {negative : Bool} {cs : List Char}
    (h : (decimal? negative cs).isSome = true) :
    ∃ numeral exponent, IsNumeral numeral ∧ IsExponent exponent ∧ cs = numeral ++ exponent := by
  have hsplit : cs.takeWhile Char.isDigit ++ cs.dropWhile Char.isDigit = cs :=
    List.takeWhile_append_dropWhile
  have hdigits : ∀ c ∈ cs.takeWhile Char.isDigit, c.isDigit = true := fun c hc =>
    List.mem_takeWhile_imp hc
  unfold decimal? at h
  generalize cs.takeWhile Char.isDigit = whole at h hsplit hdigits
  generalize cs.dropWhile Char.isDigit = rest at h hsplit
  rcases splitFraction_cases rest with ⟨behind, rfl, hfraction⟩ | hfraction
  · simp only [hfraction] at h
    by_cases hempty : whole = [] ∧ behind.takeWhile Char.isDigit = []
    · simp [hempty] at h
    · rw [if_neg hempty, Option.isSome_map] at h
      refine ⟨whole ++ '.' :: behind.takeWhile Char.isDigit, behind.dropWhile Char.isDigit,
        ⟨whole, behind.takeWhile Char.isDigit, fun c hc => ?_, ?_, Or.inr rfl⟩,
        isExponent_of_exponent? h, ?_⟩
      · rcases List.mem_append.mp hc with hc | hc
        · exact hdigits c hc
        · exact List.mem_takeWhile_imp hc
      · rwa [← List.append_eq_nil_iff] at hempty
      · simp [hsplit, List.takeWhile_append_dropWhile]
  · simp only [hfraction, and_true] at h
    by_cases hempty : whole = []
    · simp [hempty] at h
    · rw [if_neg hempty, Option.isSome_map] at h
      exact ⟨whole, rest, ⟨whole, [], by simpa using hdigits, by simpa using hempty,
        Or.inl (List.append_nil _).symm⟩, isExponent_of_exponent? h, hsplit.symm⟩

/-- Only decimals and the words for infinities and for no number are read. -/
theorem isDecimal_or_isWord_of_parse? {cs : List Char} (h : (parse? cs).isSome = true) :
    IsDecimal cs ∨ IsWord cs := by
  obtain ⟨sign, hsign, hcs⟩ := exists_sign cs
  unfold parse? at h
  dsimp only at h
  split at h
  · next hword =>
      refine Or.inr ⟨sign, _, hsign, ?_, hcs⟩
      rcases hword with hword | hword <;> simp [hword]
  · split at h
    · next hword => exact Or.inr ⟨sign, _, hsign, by simp [hword], hcs⟩
    · obtain ⟨numeral, exponent, hnumeral, hexponent, hbody⟩ := exists_numeral_of_decimal? h
      exact Or.inl ⟨sign, numeral, exponent, hsign, hnumeral, hexponent, hbody ▸ hcs⟩

/-- A run of digits and points that is read as a number is a numeral: an exponent would begin with
a letter. -/
theorem isNumeral_of_parse? (h : ∀ c ∈ run, isNumberChar c = true)
    (hparse : (parse? run).isSome = true) : IsNumeral run := by
  rw [parse?_of_isNumberChar h] at hparse
  obtain ⟨numeral, exponent, hnumeral, rfl | ⟨e, sign, digits, he, -, -, -, rfl⟩, rfl⟩ :=
    exists_numeral_of_decimal? hparse
  · rwa [List.append_nil]
  · have hnumber := h e (by simp)
    rcases he with rfl | rfl
    · exact absurd hnumber (by decide)
    · exact absurd hnumber (by decide)

/-- Digits, with a point among or behind them or without one, are read as one decimal, up to what
may be an exponent. -/
theorem decimal?_append (negative : Bool) {whole fraction tail rest : List Char}
    (hwhole : ∀ c ∈ whole, c.isDigit = true)
    (hfraction : ∀ c ∈ fraction, c.isDigit = true)
    (hne : whole ++ fraction ≠ [])
    (htail : tail = '.' :: fraction ∨ fraction = [] ∧ tail = [])
    (hrest : ∀ c ∈ rest.head?, c.isDigit = false ∧ c ≠ '.') :
    decimal? negative (whole ++ (tail ++ rest)) =
      (exponent? rest).map fun exponent =>
        ofDecimal negative (numeralValue (whole ++ fraction)) (exponent - fraction.length) := by
  have hstop : ∀ c ∈ rest.head?, c.isDigit = false := fun c hc => (hrest c hc).1
  have hpoint : ∀ c ∈ (tail ++ rest).head?, c.isDigit = false := by
    rcases htail with rfl | ⟨-, rfl⟩
    · exact fun c hc => Option.some.inj hc ▸ (by decide)
    · exact hstop
  have hsplit : splitFraction (tail ++ rest) = (fraction, rest) := by
    rcases htail with rfl | ⟨rfl, rfl⟩
    · rw [List.cons_append, splitFraction, takeWhile_run hfraction hstop,
        dropWhile_run hfraction hstop]
    · rcases splitFraction_cases rest with ⟨behind, rfl, -⟩ | hnone
      · exact absurd rfl (hrest '.' rfl).2
      · exact hnone
  rw [decimal?, takeWhile_run hwhole hpoint, dropWhile_run hwhole hpoint]
  simp only [hsplit]
  rw [if_neg fun h => hne (List.append_eq_nil_iff.mpr h)]

theorem isNumberChar_of_isNumeral (h : IsNumeral run) : ∀ c ∈ run, isNumberChar c = true := by
  obtain ⟨whole, fraction, hdigits, -, hrun⟩ := h
  intro c hc
  have hmem : c = '.' ∨ c ∈ whole ++ fraction := by
    rcases hrun with rfl | rfl
    · exact Or.inr hc
    · simp only [List.mem_append, List.mem_cons] at hc ⊢
      exact or_left_comm.mp hc
  rcases hmem with rfl | hmem
  · decide
  · exact isNumberChar_of_isDigit (hdigits c hmem)

theorem any_isNumberChar_of_isDecimal {cs : List Char} (h : IsDecimal cs) :
    cs.any isNumberChar = true := by
  obtain ⟨sign, numeral, exponent, -, hnumeral, -, rfl⟩ := h
  obtain ⟨c, hc⟩ := List.exists_mem_of_ne_nil _ hnumeral.ne_nil
  exact List.any_eq_true.mpr ⟨c, by simp [hc], isNumberChar_of_isNumeral hnumeral c hc⟩

end Runs

section Denotations

variable {cs sign exponent : List Char} {negative : Bool} {scale : Int} {d : Decimal}

/-- A sign, and whether it is a minus. -/
inductive DenotesSign : List Char → Bool → Prop
  | none : DenotesSign [] false
  | plus : DenotesSign ['+'] false
  | minus : DenotesSign ['-'] true

/-- An exponent, and the number that it denotes. -/
inductive DenotesExponent : List Char → Int → Prop
  | none : DenotesExponent [] 0
  | letter {e : Char} {sign digits : List Char} {negative : Bool} (he : e = 'e' ∨ e = 'E')
      (hsign : DenotesSign sign negative) (hne : digits ≠ [])
      (hdigits : ∀ c ∈ digits, c.isDigit = true) :
      DenotesExponent (e :: (sign ++ digits))
        (if negative then -(numeralValue digits : Int) else numeralValue digits)

/-- A decimal text, whether it has a minus sign, and its value without the sign: that of its digits,
shifted by the exponent and by the digits behind the point. -/
inductive Denotes : List Char → Bool → Decimal → Prop
  | decimal {sign whole tail fraction exponent : List Char} {negative : Bool} {scale : Int}
      (hsign : DenotesSign sign negative) (hwhole : ∀ c ∈ whole, c.isDigit = true)
      (hfraction : ∀ c ∈ fraction, c.isDigit = true) (hne : whole ++ fraction ≠ [])
      (htail : tail = '.' :: fraction ∨ fraction = [] ∧ tail = [])
      (hexponent : DenotesExponent exponent scale) :
      Denotes (sign ++ (whole ++ (tail ++ exponent))) negative
        ⟨numeralValue (whole ++ fraction), scale - fraction.length⟩

theorem exists_denotesSign (h : IsSign sign) : ∃ negative, DenotesSign sign negative := by
  rcases h with rfl | rfl | rfl
  · exact ⟨false, .none⟩
  · exact ⟨false, .plus⟩
  · exact ⟨true, .minus⟩

theorem exists_denotesExponent (h : IsExponent exponent) :
    ∃ scale, DenotesExponent exponent scale := by
  rcases h with rfl | ⟨e, sign, digits, he, hsign, hne, hdigits, rfl⟩
  · exact ⟨0, .none⟩
  · obtain ⟨negative, hsign⟩ := exists_denotesSign hsign
    exact ⟨_, .letter he hsign hne hdigits⟩

theorem exists_denotes (h : IsDecimal cs) : ∃ negative d, Denotes cs negative d := by
  obtain ⟨sign, numeral, exponent, hsign, ⟨whole, fraction, hdigits, hne, hnumeral⟩, hexponent,
    rfl⟩ := h
  obtain ⟨negative, hsign⟩ := exists_denotesSign hsign
  obtain ⟨scale, hexponent⟩ := exists_denotesExponent hexponent
  rcases hnumeral with rfl | rfl
  · exact ⟨negative, _, .decimal hsign hdigits (List.forall_mem_nil _) (by simpa using hne)
      (Or.inr ⟨rfl, rfl⟩) hexponent⟩
  · rw [List.append_assoc]
    exact ⟨negative, _, .decimal hsign (fun c hc => hdigits c (List.mem_append_left _ hc))
      (fun c hc => hdigits c (List.mem_append_right _ hc)) hne (Or.inl rfl) hexponent⟩

/-- The sign is split from what does not begin with another. -/
theorem splitSign_of_denotes (hsign : DenotesSign sign negative)
    (h : ∀ c ∈ cs.head?, c ≠ '+' ∧ c ≠ '-') : splitSign (sign ++ cs) = (negative, cs) := by
  cases hsign with
  | none => exact splitSign_of_head? h
  | plus => rfl
  | minus => rfl

theorem exponent?_of_denotes (h : DenotesExponent exponent scale) :
    exponent? exponent = some scale := by
  cases h with
  | none => rfl
  | letter he hsign hne hdigits =>
      have hsplit := splitSign_of_denotes hsign fun c hc =>
        ne_sign_of_isNumberChar (isNumberChar_of_isDigit (hdigits c (List.mem_of_mem_head? hc)))
      rw [exponent?, hsplit]
      exact if_pos ⟨he, hne, List.all_eq_true.mpr hdigits⟩

/-- An exponent begins with a letter. -/
theorem head?_of_denotesExponent (h : DenotesExponent exponent scale) :
    ∀ c ∈ exponent.head?, c.isDigit = false ∧ c ≠ '.' := by
  intro c hc
  cases h with
  | none => cases hc
  | letter he _ _ _ =>
      obtain rfl := Option.some.inj hc
      rcases he with rfl | rfl
      · decide
      · decide

/-- A decimal text is read by rounding the value that it denotes. -/
theorem parse?_of_denotes (h : Denotes cs negative d) :
    parse? cs = some (ofDecimal negative d.coefficient d.exponent) := by
  cases h with
  | @decimal sign whole tail fraction exponent _ scale hsign hwhole hfraction hne htail hexponent =>
      have hhead : ∀ c ∈ (whole ++ (tail ++ exponent)).head?, isNumberChar c = true := by
        intro c hc
        cases whole with
        | cons first whole =>
            obtain rfl : first = c := Option.some.inj hc
            exact isNumberChar_of_isDigit (hwhole first List.mem_cons_self)
        | nil =>
            rcases htail with rfl | ⟨rfl, rfl⟩
            · obtain rfl : '.' = c := Option.some.inj hc
              decide
            · exact absurd rfl hne
      rw [parse?_of_splitSign
        (splitSign_of_denotes hsign fun c hc => ne_sign_of_isNumberChar (hhead c hc)) hhead,
        decimal?_append negative hwhole hfraction hne htail (head?_of_denotesExponent hexponent),
        exponent?_of_denotes hexponent, Option.map_some]

/-- Every numeral is read as a number. -/
theorem isSome_parse?_of_isNumeral {run : List Char} (h : IsNumeral run) :
    (parse? run).isSome = true := by
  have hdecimal : IsDecimal run :=
    ⟨[], run, [], Or.inl rfl, h, Or.inl rfl, (List.append_nil run).symm⟩
  obtain ⟨negative, d, hdenotes⟩ := exists_denotes hdecimal
  rw [parse?_of_denotes hdenotes]
  rfl

/-- Letters stand at the front of the words. -/
theorem ne_sign_of_word {word : List Char}
    (h : word.map Char.toLower ∈ ["inf".toList, "infinity".toList, "nan".toList]) :
    ∀ c ∈ word.head?, c ≠ '+' ∧ c ≠ '-' := by
  intro c hc
  have hlower : c.toLower = 'i' ∨ c.toLower = 'n' := by
    have hhead : (word.map Char.toLower).head? = some c.toLower := by
      rw [List.head?_map, Option.mem_def.mp hc, Option.map_some]
    simp only [List.mem_cons, List.not_mem_nil, or_false] at h
    rcases h with h | h | h
    · exact Or.inl (Option.some.inj (hhead.symm.trans (congrArg List.head? h)))
    · exact Or.inl (Option.some.inj (hhead.symm.trans (congrArg List.head? h)))
    · exact Or.inr (Option.some.inj (hhead.symm.trans (congrArg List.head? h)))
  constructor
  · rintro rfl
    exact absurd hlower (by decide)
  · rintro rfl
    exact absurd hlower (by decide)

/-- No word is the text of a finite number. -/
theorem exists_parse?_of_isWord (h : IsWord cs) :
    ∃ x, parse? cs = some x ∧ x.isFinite = false := by
  obtain ⟨sign, word, hsign, hword, rfl⟩ := h
  obtain ⟨negative, hsign⟩ := exists_denotesSign hsign
  simp only [parse?, splitSign_of_denotes hsign (ne_sign_of_word hword)]
  split
  · exact ⟨infinity negative, rfl, decide_eq_false (Nat.lt_irrefl _)⟩
  · next hinfinite =>
      split
      · exact ⟨nan, rfl, by decide⟩
      · next hnan =>
          simp only [List.mem_cons, List.not_mem_nil, or_false] at hword
          rcases hword with hword | hword | hword
          · exact absurd (Or.inl hword) hinfinite
          · exact absurd (Or.inr hword) hinfinite
          · exact absurd hword hnan

/-- The texts that are read are the decimals and the words. -/
theorem isSome_parse?_iff : (parse? cs).isSome = true ↔ IsDecimal cs ∨ IsWord cs := by
  refine ⟨isDecimal_or_isWord_of_parse?, ?_⟩
  rintro (h | h)
  · obtain ⟨negative, d, hdenotes⟩ := exists_denotes h
    rw [parse?_of_denotes hdenotes]
    rfl
  · obtain ⟨x, hx, -⟩ := exists_parse?_of_isWord h
    rw [hx]
    rfl

/-- Only decimals are read as finite numbers. -/
theorem exists_denotes_of_parse? {x : Binary64} (h : parse? cs = some x)
    (hx : x.isFinite = true) : ∃ negative d, Denotes cs negative d := by
  rcases isDecimal_or_isWord_of_parse? (h ▸ rfl : (parse? cs).isSome = true) with h' | hword
  · exact exists_denotes h'
  · obtain ⟨y, hy, hinfinite⟩ := exists_parse?_of_isWord hword
    obtain rfl : y = x := Option.some.inj (hy.symm.trans h)
    rw [hx] at hinfinite
    cases hinfinite

end Denotations

end Binary64

theorem isNumeral_iff {run : List Char} :
    IsNumeral run ↔
      run.all Expression.isNumberChar = true ∧ (Binary64.parse? run).isSome = true := by
  rw [List.all_eq_true]
  constructor
  · intro h
    exact ⟨Binary64.isNumberChar_of_isNumeral h, Binary64.isSome_parse?_of_isNumeral h⟩
  · rintro ⟨hnumber, hparse⟩
    exact Binary64.isNumeral_of_parse? hnumber hparse

instance (run : List Char) : Decidable (IsNumeral run) :=
  decidable_of_iff _ isNumeral_iff.symm

end FormulaSheet
