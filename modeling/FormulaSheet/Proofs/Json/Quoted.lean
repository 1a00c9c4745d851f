import FormulaSheet.Json.Quoted

/-!
# Strings read back

The reader undoes the escapes of the writer, one character at a time: each written form brings it
back between characters, with that character added to those read before.

* `stepEscape_hexDigit`, `stepEscape_lastHexDigit`: the digits of an escape by four of them.
* `readStringAfter_escapeChar`: the written form of one character.
* `readString_quoted`: a whole string, behind its opening quote.
-/

namespace FormulaSheet
namespace Json

theorem hexValue?_hexDigit : ∀ n < 16, hexValue? (hexDigit n) = some n := by decide

theorem utf8Size_hexDigit : ∀ n < 16, (hexDigit n).utf8Size = 1 := by decide

section Digits

variable {n missing value : Nat} {lead : Option Nat}

theorem stepEscape_hexDigit (hn : n < 16) (hmissing : 1 < missing) :
    stepEscape (some (hexDigit n)) (.hex missing value true lead) =
      .ok (.hex (missing - 1) (value * 16 + n) true lead, none) := by
  have hcount : byteCount (some (hexDigit n)) = 1 := utf8Size_hexDigit n hn
  simp only [stepEscape, Option.bind_some, hexValue?_hexDigit n hn, hcount, if_pos hmissing,
    Option.getD_some, Option.isSome_some, Bool.and_self]

theorem stepEscape_lastHexDigit (hn : n < 16) :
    stepEscape (some (hexDigit n)) (.hex 1 value true lead) = endHex (value * 16 + n) lead := by
  have hcount : byteCount (some (hexDigit n)) = 1 := utf8Size_hexDigit n hn
  simp [stepEscape, hexValue?_hexDigit n hn, hcount]

end Digits

section Characters

variable {state next : StringState} {broken : Bool} {before : List Char} {rest : Input}

theorem readStringAfter_skip {c : Option Char} (hstate : state ≠ .plain)
    (h : stepEscape c state = .ok (next, none)) :
    readStringAfter state broken before (c :: rest) =
      readStringAfter next broken before rest := by
  rw [readStringAfter.eq_def]
  simp only [if_neg hstate, h]

theorem readStringAfter_add {c : Option Char} {d : Char} (hstate : state ≠ .plain)
    (h : stepEscape c state = .ok (next, some d)) :
    readStringAfter state broken before (c :: rest) =
      readStringAfter next broken (d :: before) rest := by
  rw [readStringAfter.eq_def]
  simp only [if_neg hstate, h]

theorem readStringAfter_backslash :
    readStringAfter .plain broken before (some '\\' :: rest) =
      readStringAfter .escape broken before rest := by
  rw [readStringAfter, if_pos rfl, if_neg (by decide), if_pos rfl]

theorem readStringAfter_shortEscape {c d : Char} (hu : c ≠ 'u') (h : shortEscape? c = some d) :
    readStringAfter .plain broken before (some '\\' :: some c :: rest) =
      readStringAfter .plain broken (d :: before) rest := by
  rw [readStringAfter_backslash]
  refine readStringAfter_add (by decide) ?_
  simp [stepEscape, hu, h]

theorem readStringAfter_hexDigit {n missing value : Nat} (hn : n < 16) (hmissing : 1 < missing) :
    readStringAfter (.hex missing value true none) broken before (some (hexDigit n) :: rest) =
      readStringAfter (.hex (missing - 1) (value * 16 + n) true none) broken before rest :=
  readStringAfter_skip nofun (stepEscape_hexDigit hn hmissing)

/-- A character below U+0020, by its four hexadecimal digits. -/
theorem readStringAfter_control {c : Char} (h : c.toNat < 0x20) :
    readStringAfter .plain broken before
        ((['\\', 'u', '0', '0', hexDigit (c.toNat / 16), hexDigit (c.toNat % 16)].map some) ++
          rest) =
      readStringAfter .plain broken (c :: before) rest := by
  have hhigh : c.toNat / 16 < 16 := by omega
  have hlow : c.toNat % 16 < 16 := Nat.mod_lt _ (by decide)
  have hzero : hexDigit 0 = '0' := rfl
  have hvalue : (((0 * 16 + 0) * 16 + 0) * 16 + c.toNat / 16) * 16 + c.toNat % 16 = c.toNat := by
    omega
  have hend : endHex c.toNat none = .ok (.plain, some c) := by
    rw [endHex, if_neg (by omega), if_neg (by omega), Char.ofNat_toNat]
  simp only [List.map_cons, List.map_nil, List.cons_append, List.nil_append]
  rw [readStringAfter_backslash, readStringAfter_skip (by decide) rfl, ← hzero,
    readStringAfter_hexDigit (by decide) (by decide),
    readStringAfter_hexDigit (by decide) (by decide), readStringAfter_hexDigit hhigh (by decide)]
  refine readStringAfter_add nofun ?_
  rw [stepEscape_lastHexDigit hlow, hvalue, hend]

/-- The written form of a character is read as that character. -/
theorem readStringAfter_escapeChar (c : Char) :
    readStringAfter .plain broken before ((escapeChar c).map some ++ rest) =
      readStringAfter .plain broken (c :: before) rest := by
  unfold escapeChar
  split
  · next h => subst h; exact readStringAfter_shortEscape (by decide) rfl
  split
  · next h => subst h; exact readStringAfter_shortEscape (by decide) rfl
  split
  · next h => subst h; exact readStringAfter_shortEscape (by decide) rfl
  split
  · next h => subst h; exact readStringAfter_shortEscape (by decide) rfl
  split
  · next h => subst h; exact readStringAfter_shortEscape (by decide) rfl
  split
  · next h => subst h; exact readStringAfter_shortEscape (by decide) rfl
  split
  · next h => subst h; exact readStringAfter_shortEscape (by decide) rfl
  split
  · next h => exact readStringAfter_control h
  · next hquote hbackslash _ _ _ _ _ hcontrol =>
      simp [readStringAfter, hquote, hbackslash, hcontrol]

end Characters

/-- A string is read back behind its opening quote. -/
theorem readString_quoted (text : List Char) (rest : Input) :
    readString ((text.flatMap escapeChar ++ ['"']).map some ++ rest) = .ok (text, rest) := by
  have hafter : ∀ before,
      readStringAfter .plain false before ((text.flatMap escapeChar ++ ['"']).map some ++ rest) =
        .ok (before.reverse ++ text, rest) := by
    induction text with
    | nil =>
        intro before
        simp [readStringAfter]
    | cons c cs ih =>
        intro before
        rw [List.flatMap_cons, List.append_assoc, List.map_append, List.append_assoc,
          readStringAfter_escapeChar, ih]
        simp
  exact hafter []

end Json
end FormulaSheet
