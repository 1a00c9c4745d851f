import Mathlib
import FormulaSheet.Proofs.Binary64.RoundTrip
import FormulaSheet.Proofs.Expression.Rendering
import FormulaSheet.Proofs.Text.Run

/-!
# Numerals are exact, shortest and plain

What the text of a finite number promises to those who read it: it has one form only, without an
exponent and without zeros that say nothing; it is read back as the same bits; no decimal with fewer
significant digits is; and if there is no minus sign, an expression may hold it as a literal.

* `significantDigits`: the digits of a decimal that count.
* `IsShortest.significantDigits_le`: a shortest decimal has no more of them than any other in its
  rounding interval.
* `IsCanonical`: the form of the texts.
* `numeral_exact`: the promise, for the bits of a finite number.
-/

namespace FormulaSheet
namespace Binary64

open Text

/-- The digits of a decimal text in front of its exponent. -/
def mantissaDigits (cs : List Char) : List Char :=
  (cs.takeWhile fun c => c ≠ 'e' ∧ c ≠ 'E').filter Char.isDigit

/-- How many digits of a decimal text count: zeros at either end of them do not. -/
def significantDigits (cs : List Char) : Nat :=
  (((mantissaDigits cs).dropWhile (· = '0')).reverse.dropWhile (· = '0')).length

section Digits

variable {n : Nat} {digits : List Char}

theorem not_exponentLetter_of_isDigit {c : Char} (h : c.isDigit = true) : c ≠ 'e' ∧ c ≠ 'E' := by
  constructor
  · rintro rfl
    exact absurd h (by decide)
  · rintro rfl
    exact absurd h (by decide)

theorem mantissaDigits_of_digits (h : ∀ c ∈ digits, c.isDigit = true) :
    mantissaDigits digits = digits := by
  have hletters : ∀ c ∈ digits, decide (c ≠ 'e' ∧ c ≠ 'E') = true := fun c hc =>
    decide_eq_true (not_exponentLetter_of_isDigit (h c hc))
  rw [mantissaDigits, List.takeWhile_eq_self_iff.mpr hletters, List.filter_eq_self.mpr h]

theorem significantDigits_numeral (hn : n ≠ 0) :
    significantDigits (numeral n) = ((numeral n).reverse.dropWhile (· = '0')).length := by
  rw [significantDigits, mantissaDigits_of_digits fun _ => isDigit_of_mem_numeral,
    dropWhile_numeral hn]

theorem significantDigits_numeral_le (hn : n ≠ 0) :
    significantDigits (numeral n) ≤ (numeral n).length := by
  have hle := (List.dropWhile_sublist (· = '0') (l := (numeral n).reverse)).length_le
  rwa [List.length_reverse, ← significantDigits_numeral hn] at hle

theorem significantDigits_mul_pow (hn : n ≠ 0) (k : Nat) :
    significantDigits (numeral (n * 10 ^ k)) = significantDigits (numeral n) := by
  rw [significantDigits_numeral hn, significantDigits_numeral (by positivity), numeral_mul_pow hn,
    List.reverse_append, List.reverse_replicate, List.dropWhile_append_of_pos]
  intro c hc
  simpa using List.eq_of_mem_replicate hc

/-- A number is one of its significant digits only, times a power of ten. -/
theorem exists_significant (hn : n ≠ 0) :
    ∃ core zeros, n = core * 10 ^ zeros ∧
      (numeral core).length = significantDigits (numeral n) := by
  obtain ⟨zeros, hzeros⟩ := exists_trailing_zeros (numeral n)
  rw [significantDigits_numeral hn]
  generalize hcore : ((numeral n).reverse.dropWhile (· = '0')).reverse = digits at hzeros
  have hvalue : n = numeralValue digits * 10 ^ zeros := by
    have h := congrArg numeralValue hzeros
    rwa [numeralValue_numeral, numeralValue_append, numeralValue_replicate_zero,
      List.length_replicate, Nat.add_zero] at h
  have hne : numeralValue digits ≠ 0 := by
    intro hzero
    rw [hzero, Nat.zero_mul] at hvalue
    exact hn hvalue
  refine ⟨numeralValue digits, zeros, hvalue, ?_⟩
  have hnumeral := numeral_mul_pow hne zeros
  rw [← hvalue] at hnumeral
  have hsame := List.append_cancel_right (hnumeral.symm.trans hzeros)
  rw [hsame, ← hcore, List.length_reverse]

/-- The digits of a run that count are those of its value. -/
theorem significantDigits_numeralValue (h : ∀ c ∈ digits, c.isDigit = true) :
    significantDigits (numeral (numeralValue digits)) =
      ((digits.dropWhile (· = '0')).reverse.dropWhile (· = '0')).length := by
  by_cases hzero : numeralValue digits = 0
  · have hzeros : digits.dropWhile (· = '0') = [] := by
      simpa [List.dropWhile_eq_nil_iff] using (numeralValue_eq_zero_iff h).mp hzero
    rw [hzero, hzeros]
    decide
  · rw [significantDigits_numeral hzero, numeral_numeralValue h hzero]

end Digits

section Decimals

variable {rank : Nat} {d other : Decimal}

theorem Decimal.value_mul_pow (coefficient k : Nat) (exponent : Int) :
    Decimal.value ⟨coefficient * 10 ^ k, exponent⟩ =
      Decimal.value ⟨coefficient, exponent + k⟩ := by
  rw [Decimal.value, Decimal.value, zpow_add₀ (by norm_num), zpow_natCast]
  push_cast
  ring

/-- Decimals of the same value have the same significant digits. -/
theorem significantDigits_of_value_eq (h : d.value = other.value) :
    significantDigits (numeral d.coefficient) = significantDigits (numeral other.coefficient) := by
  wlog hle : d.exponent ≤ other.exponent generalizing d other
  · exact (this h.symm (by omega)).symm
  obtain ⟨k, hk⟩ := Int.le.dest hle
  have hvalue : d.value = Decimal.value ⟨other.coefficient * 10 ^ k, d.exponent⟩ := by
    rw [Decimal.value_mul_pow, hk, h]
  have hten : (10 : ℚ) ^ d.exponent ≠ 0 := zpow_ne_zero _ (by norm_num)
  have hcoefficient : d.coefficient = other.coefficient * 10 ^ k := by
    have hcast := mul_right_cancel₀ hten hvalue
    exact_mod_cast hcast
  rcases Nat.eq_zero_or_pos other.coefficient with hzero | hpos
  · rw [hcoefficient, hzero, Nat.zero_mul]
  · rw [hcoefficient, significantDigits_mul_pow hpos.ne']

theorem InInterval.coefficient_ne_zero (hrank : 0 < rank) (h : InInterval rank d.value) :
    d.coefficient ≠ 0 := by
  intro hzero
  have hlow := h.low
  rw [Decimal.value, hzero, Nat.cast_zero, zero_mul] at hlow
  linarith [magnitude_nonneg (rank - 1), magnitude_pos hrank]

/-- A rounding interval with a decimal of fewer digits would also have a power of ten on a grid
coarser than that of a shortest decimal. -/
theorem IsShortest.significantDigits_le (hrank : 0 < rank) (h : IsShortest rank d)
    (hother : InInterval rank other.value) :
    significantDigits (numeral d.coefficient) ≤
      significantDigits (numeral other.coefficient) := by
  have hd := h.inInterval.coefficient_ne_zero hrank
  obtain ⟨core, zeros, hcore, hlength⟩ :=
    exists_significant (hother.coefficient_ne_zero hrank)
  have hvalue : other.value = Decimal.value ⟨core, other.exponent + zeros⟩ := by
    rw [← Decimal.value_mul_pow, ← hcore]
  rw [hvalue] at hother
  generalize other.exponent + zeros = exponent at hother
  by_contra hmore
  have hshort : (numeral core).length < (numeral d.coefficient).length := by
    have := significantDigits_numeral_le hd
    omega
  have hexponent : exponent ≤ d.exponent := by
    by_contra hlarge
    obtain ⟨k, hk⟩ := Int.le.dest (show d.exponent + 1 ≤ exponent by omega)
    rw [← hk, ← Decimal.value_mul_pow] at hother
    exact h.coarsest _ hother
  have hone := length_numeral_pos core
  obtain ⟨k, hk⟩ := Nat.exists_eq_add_of_le (show 2 ≤ (numeral d.coefficient).length by omega)
  have hpower : Decimal.value ⟨10 ^ k, d.exponent + 1⟩ =
      10 ^ (((numeral d.coefficient).length : ℤ) - 1 + d.exponent) := by
    rw [Decimal.value, hk, Nat.cast_pow, Nat.cast_ofNat, ← zpow_natCast,
      ← zpow_add₀ (by norm_num)]
    congr 1
    push_cast
    ring
  have hlow : Decimal.value ⟨core, exponent⟩ ≤ Decimal.value ⟨10 ^ k, d.exponent + 1⟩ := by
    rw [hpower]
    refine (Decimal.value_lt _).le.trans (zpow_le_zpow_right₀ (by norm_num) ?_)
    simp only
    omega
  have hhigh : Decimal.value ⟨10 ^ k, d.exponent + 1⟩ ≤ d.value := by
    rw [hpower]
    exact Decimal.le_value hd
  exact h.coarsest _ (hother.between h.inInterval hlow hhigh)

end Decimals

section Texts

variable {x y : Binary64} {cs : List Char} {negative : Bool} {d : Decimal}

theorem filter_sign {sign : List Char} (h : DenotesSign sign negative) :
    sign.filter Char.isDigit = [] ∧ ∀ c ∈ sign, c ≠ 'e' ∧ c ≠ 'E' := by
  cases h with
  | none => exact ⟨rfl, List.forall_mem_nil _⟩
  | plus => exact ⟨rfl, List.forall_mem_singleton.mpr (by decide)⟩
  | minus => exact ⟨rfl, List.forall_mem_singleton.mpr (by decide)⟩

theorem filter_tail {tail fraction : List Char} (hfraction : ∀ c ∈ fraction, c.isDigit = true)
    (h : tail = '.' :: fraction ∨ fraction = [] ∧ tail = []) :
    tail.filter Char.isDigit = fraction ∧ ∀ c ∈ tail, c ≠ 'e' ∧ c ≠ 'E' := by
  rcases h with rfl | ⟨rfl, rfl⟩
  · refine ⟨?_, List.forall_mem_cons.mpr ⟨by decide, fun c hc =>
      not_exponentLetter_of_isDigit (hfraction c hc)⟩⟩
    rw [List.filter_cons_of_neg (by decide), List.filter_eq_self.mpr hfraction]
  · exact ⟨rfl, List.forall_mem_nil _⟩

/-- The digits of a decimal text are those in front of the point and behind it. -/
theorem significantDigits_of_denotes (h : Denotes cs negative d) :
    significantDigits cs = significantDigits (numeral d.coefficient) := by
  cases h with
  | @decimal sign whole tail fraction exponent _ scale hsign hwhole hfraction _ htail hexponent =>
      obtain ⟨hsignDigits, hsignLetters⟩ := filter_sign hsign
      obtain ⟨htailDigits, htailLetters⟩ := filter_tail hfraction htail
      have hletters : ∀ c ∈ sign ++ whole ++ tail, decide (c ≠ 'e' ∧ c ≠ 'E') = true := by
        intro c hc
        rw [decide_eq_true_eq]
        rcases List.mem_append.mp hc with hc | hc
        · rcases List.mem_append.mp hc with hc | hc
          · exact hsignLetters c hc
          · exact not_exponentLetter_of_isDigit (hwhole c hc)
        · exact htailLetters c hc
      have hexponentHead : ∀ c ∈ exponent.head?, decide (c ≠ 'e' ∧ c ≠ 'E') = false := by
        intro c hc
        cases hexponent with
        | none => cases hc
        | letter he _ _ _ =>
            obtain rfl := Option.some.inj hc
            rcases he with rfl | rfl
            · decide
            · decide
      have hdigits :
          mantissaDigits (sign ++ (whole ++ (tail ++ exponent))) = whole ++ fraction := by
        rw [mantissaDigits, ← List.append_assoc, ← List.append_assoc,
          takeWhile_run hletters hexponentHead, List.filter_append, List.filter_append,
          List.filter_eq_self.mpr hwhole, hsignDigits, htailDigits, List.nil_append]
      have hall : ∀ c ∈ whole ++ fraction, c.isDigit = true := fun c hc =>
        (List.mem_append.mp hc).elim (hwhole c) (hfraction c)
      rw [significantDigits_numeralValue hall, significantDigits, hdigits]

/-- No text that is read as a finite number has fewer significant digits than that of the
number. -/
theorem significantDigits_text_le (hx : x.isFinite = true) (h : parse? cs = some x) :
    significantDigits x.text ≤ significantDigits cs := by
  obtain ⟨negative, d, hdenotes⟩ := exists_denotes_of_parse? h hx
  have hnearest : IsNearest d.value x.rank := by
    rw [parse?_of_denotes hdenotes] at h
    exact (ofDecimal_eq_iff.mp (Option.some.inj h)).2
  rw [isNearest_iff (rank_lt_of_isFinite hx) d.value_nonneg] at hnearest
  rw [significantDigits_of_denotes (denotes_text hx), significantDigits_of_denotes hdenotes,
    significantDigits_of_value_eq (Decimal.value_read (written x.rank)), written]
  split
  · exact Nat.zero_le _
  · next hpositive =>
      have hrank : 0 < x.rank := Nat.pos_of_ne_zero hpositive
      exact (isShortest_shortest hrank (rank_lt_of_isFinite hx)).significantDigits_le hrank hnearest

/-- A whole number without leading zeros, behind a minus sign or not, and with a point and further
digits, of which the last is not zero, or without a point. -/
def IsCanonical (cs : List Char) : Prop :=
  ∃ sign whole fraction, (sign = [] ∨ sign = ['-']) ∧
    (whole = ['0'] ∨ IsRun Char.isDigit whole ∧ whole.head? ≠ some '0') ∧
    (fraction = [] ∨ ∃ digits last, (∀ c ∈ digits, c.isDigit = true) ∧ last.isDigit = true ∧
      last ≠ '0' ∧ fraction = '.' :: (digits ++ [last])) ∧
    cs = sign ++ (whole ++ fraction)

/-- The last digit behind the point is not zero. -/
theorem getLast?_fraction (d : Decimal) : ∀ c ∈ d.fraction.getLast?, c ≠ '0' := by
  obtain ⟨coefficient, exponent⟩ := d
  cases exponent with
  | ofNat places => exact fun c hc => by cases hc
  | negSucc n =>
      intro c hc
      change c ∈ (fractionDigits coefficient (n + 1)).getLast? at hc
      rw [fractionDigits, List.getLast?_reverse] at hc
      simpa using head?_dropWhile (· = '0') _ c hc

theorem isCanonical_append {sign : List Char} (hsign : sign = [] ∨ sign = ['-']) (d : Decimal) :
    IsCanonical (sign ++ d.text) := by
  refine ⟨sign, numeral d.whole, _, hsign, ?_, ?_, by rw [d.text_eq]⟩
  · by_cases hzero : d.whole = 0
    · left
      rw [hzero]
      rfl
    · exact Or.inr ⟨⟨numeral_ne_nil _, fun _ => isDigit_of_mem_numeral⟩, head?_numeral hzero⟩
  · split
    · exact Or.inl rfl
    · next hne =>
        right
        have hsplit := List.dropLast_concat_getLast hne
        refine ⟨d.fraction.dropLast, d.fraction.getLast hne, fun c hc =>
          d.isDigit_of_mem_fraction (List.dropLast_sublist _ |>.subset hc),
          d.isDigit_of_mem_fraction (List.getLast_mem hne), ?_, by rw [hsplit]⟩
        exact getLast?_fraction d _ (List.getLast?_eq_some_getLast hne)

/-- The text of a finite number is canonical. -/
theorem isCanonical_text (hx : x.isFinite = true) : IsCanonical x.text := by
  rw [text_of_isFinite hx, magnitudeText_eq (rank_ne_of_isFinite hx)]
  cases x.negative with
  | true => exact isCanonical_append (Or.inr rfl) _
  | false => exact isCanonical_append (Or.inl rfl) _

end Texts

section Bits

/-- The bits of a number: the sign in front of the rank. -/
def toBits (x : Binary64) : Nat :=
  (if x.negative then 2 ^ 63 else 0) + x.rank

theorem toBits_ofBits {bits : Nat} (h : bits < 2 ^ 64) : (ofBits bits).toBits = bits := by
  have hsplit := Nat.div_add_mod bits (2 ^ 63)
  have hsign : bits / 2 ^ 63 < 2 := Nat.div_lt_of_lt_mul (by omega)
  simp only [toBits, ofBits, Nat.pow_eq, decide_eq_true_eq]
  split
  · omega
  · omega

theorem ofBits_toBits (x : Binary64) : ofBits x.toBits = x := by
  obtain ⟨negative, rank, hrank⟩ := x
  rw [Nat.pow_eq] at hrank
  cases negative with
  | true =>
      have hsign : (2 ^ 63 + rank) / 2 ^ 63 % 2 = 1 := by omega
      have hrest : (2 ^ 63 + rank) % 2 ^ 63 = rank := by omega
      simp only [ofBits, toBits, Nat.pow_eq, if_true, hsign, hrest, decide_true]
  | false =>
      have hsign : (0 + rank) / 2 ^ 63 % 2 ≠ 1 := by omega
      have hrest : (0 + rank) % 2 ^ 63 = rank := by omega
      simp only [ofBits, toBits, Nat.pow_eq, Bool.false_eq_true, if_false, hsign, hrest,
        decide_false]

end Bits

section Literals

open Expression

/-- The text of a number without a minus sign is one literal of an expression, with the value of the
number. -/
theorem evaluate_text {x : Binary64} (hx : x.isFinite = true) (hsign : x.negative = false) :
    tokens x.text = [.number x.text] ∧ Expression.evaluate x.text = .ok x := by
  have htext : x.text = magnitudeText x.rank := by
    rw [text_of_isFinite hx, hsign]
    rfl
  have hnumeral : IsNumeral x.text := by
    rw [htext]
    exact (isPositional_magnitudeText (rank_ne_of_isFinite hx)).isNumeral
  have hnone : ∀ c ∈ ([] : List Char), isSeparator c = true := List.forall_mem_nil _
  have hspaced : Spaced isSeparator [.number x.text] ([] ++ (x.text ++ [])) :=
    .cons hnone ⟨hnumeral.ne_nil, isNumberChar_of_isNumeral hnumeral⟩ (fun _ => by simp)
      (.nil hnone)
  have htokens : tokens x.text = [.number x.text] := by
    simpa using tokens_of_spaced hspaced
  have hwrites : Writes 0 (.literal x.text) (tokens x.text) := htokens ▸ .literal hnumeral
  refine ⟨htokens, ?_⟩
  have hliteral : binary64.literal x.text = some x := parse?_text hx
  rw [Expression.evaluate, evaluateWith_of_writes hwrites, Tree.value, literalValue, hliteral]

end Literals

/-- The numeral of a finite number, given by its bits. Reading is correct rounding, so of the texts
that are read as the number none has fewer significant digits than its numeral. -/
theorem numeral_exact {bits : Nat} (hbits : bits < 2 ^ 64)
    (hfinite : bits / 2 ^ 52 % 2 ^ 11 ≠ 2047) :
    ∃ shown, (ofBits bits).numeral? = some shown ∧ IsCanonical shown.toList ∧
      (parse? shown.toList).map toBits = some bits ∧
      (∀ cs, (parse? cs).map toBits = some bits →
        significantDigits shown.toList ≤ significantDigits cs) ∧
      (∀ cs negative d x, Denotes cs negative d →
        (parse? cs = some x ↔ x.negative = negative ∧ IsNearest d.value x.rank)) ∧
      (bits < 2 ^ 63 → Expression.tokens shown.toList = [.number shown.toList] ∧
        (Expression.evaluate shown.toList).map toBits = .ok bits) := by
  have hx : (ofBits bits).isFinite = true := by
    have hrank : bits % 2 ^ 63 < 2047 * 2 ^ 52 := by omega
    exact decide_eq_true hrank
  have hbitsOf := toBits_ofBits hbits
  generalize ofBits bits = x at hx hbitsOf
  subst hbitsOf
  refine ⟨_, numeral?_eq_some_iff.mpr ⟨hx, rfl⟩, ?_⟩
  rw [String.toList_ofList]
  refine ⟨isCanonical_text hx, by rw [parse?_text hx, Option.map_some], fun cs hcs => ?_,
    fun cs negative d y hdenotes => ?_, fun hsign => ?_⟩
  · obtain ⟨y, hy, hbits⟩ := Option.map_eq_some_iff.mp hcs
    obtain rfl : y = x := by rw [← ofBits_toBits y, hbits, ofBits_toBits]
    exact significantDigits_text_le hx hy
  · rw [parse?_of_denotes hdenotes, Option.some.injEq, ofDecimal_eq_iff]
  · have hpositive : x.negative = false := by
      by_contra hnegative
      rw [toBits, if_pos (by simpa using hnegative)] at hsign
      omega
    obtain ⟨htokens, hvalue⟩ := evaluate_text hx hpositive
    exact ⟨htokens, by rw [hvalue]; rfl⟩

/-- The number next to three tenths needs seventeen digits; three tenths themselves are read as its
lower neighbour. -/
theorem numeral_exact_tenths :
    0x3fd3333333333334 < 2 ^ 64 ∧ 0x3fd3333333333334 / 2 ^ 52 % 2 ^ 11 ≠ 2047 ∧
      (ofBits 0x3fd3333333333334).numeral? = some "0.30000000000000004" ∧
      (∀ cs, (parse? cs).map toBits = some 0x3fd3333333333334 → 17 ≤ significantDigits cs) ∧
      (parse? "0.30000000000000004".toList).map toBits = some 0x3fd3333333333334 ∧
      (Denotes "3e-1".toList false ⟨3, -1⟩ ∧
        parse? "3e-1".toList = some (ofBits 0x3fd3333333333333) ∧
          IsNearest (Decimal.value ⟨3, -1⟩) 0x3fd3333333333333) ∧
      0x3fd3333333333334 < 2 ^ 63 ∧
      (Expression.evaluate "0.30000000000000004".toList).map toBits = .ok 0x3fd3333333333334 := by
  have hbits : 0x3fd3333333333334 < 2 ^ 64 := by norm_num
  have hfinite : 0x3fd3333333333334 / 2 ^ 52 % 2 ^ 11 ≠ 2047 := by norm_num
  have hpositive : 0x3fd3333333333334 < 2 ^ 63 := by norm_num
  have htext : (ofBits 0x3fd3333333333334).numeral? = some "0.30000000000000004" := by
    decide +kernel
  have hthree : Denotes "3e-1".toList false ⟨3, -1⟩ := by
    have hdigit : ∀ c ∈ ['3'], c.isDigit = true := by simp
    have hone : ∀ c ∈ ['1'], c.isDigit = true := by simp
    have hexponent : DenotesExponent "e-1".toList (-1) :=
      .letter (Or.inl rfl) .minus (List.cons_ne_nil _ _) hone
    exact .decimal .none hdigit (List.forall_mem_nil _) (by simp) (Or.inr ⟨rfl, rfl⟩) hexponent
  have hread : parse? "3e-1".toList = some (ofBits 0x3fd3333333333333) := by decide +kernel
  obtain ⟨shown, hshown, -, hparse, hshortest, hreading, hliteral⟩ := numeral_exact hbits hfinite
  obtain rfl : shown = "0.30000000000000004" := Option.some.inj (hshown.symm.trans htext)
  exact ⟨hbits, hfinite, htext, hshortest, hparse,
    ⟨hthree, hread, ((hreading _ _ _ _ hthree).mp hread).2⟩, hpositive, (hliteral hpositive).2⟩

end Binary64
end FormulaSheet
