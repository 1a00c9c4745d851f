import Mathlib
import FormulaSheet.Proofs.Address.Column
import FormulaSheet.Proofs.Formula.Cut
import FormulaSheet.Proofs.Text.Numeral

/-!
# Addresses and their texts

A text names an address if it is a run of letters with a run of digits behind it, and both stand
for numbers from one on that fit into 64 bits. The digits may begin with zeros; apart from these,
an address has one text only. Cutting a text at its first digit, as a token of a formula is cut,
finds the same letters and digits as reading letters to their end.

* `Names`: the letters and digits of an address.
* `ofParts?_eq_some_iff`, `parse?_eq_some_iff`: exactly these are read.
* `parse?_eq_ofParts?`: a text may be cut at its first digit.
* `text_of_names`, `text_injective`: the text of an address.
* `texts_exact`: all of it, for columns and for addresses.
-/

namespace FormulaSheet
namespace Address

open Text

/-- Letters and digits of an address: both are runs and stand for its column and its row, which
fit into 64 bits; the row is not zero, and letters never stand for zero. -/
structure Names (letters digits : List Char) (address : Address) : Prop where
  letterRun : IsRun Char.isUpper letters
  digitRun : IsRun Char.isDigit digits
  column : lettersValue letters = address.column
  row : numeralValue digits = address.row
  column_lt : address.column < wordLimit
  row_lt : address.row < wordLimit
  row_pos : 0 < address.row

section Reading

variable {letters digits cs : List Char} {address : Address}

/-- No letters name column zero. -/
theorem Names.column_pos (h : Names letters digits address) : 0 < address.column :=
  h.column ▸ lettersValue_pos h.letterRun.ne_nil

theorem word64?_eq_some_iff {n : Nat} :
    word64? digits = some n ↔
      IsRun Char.isDigit digits ∧ numeralValue digits = n ∧ n < wordLimit := by
  rw [word64?, Option.ite_none_right_eq_some, Option.some_inj, List.all_eq_true]
  constructor
  · rintro ⟨⟨hne, hdigits, hlt⟩, rfl⟩
    exact ⟨⟨hne, hdigits⟩, rfl, hlt⟩
  · rintro ⟨hdigits, rfl, hlt⟩
    exact ⟨⟨hdigits.ne_nil, hdigits.mem, hlt⟩, rfl⟩

theorem ofParts?_eq_some_iff : ofParts? letters digits = some address ↔
    Names letters digits address := by
  constructor
  · intro h
    obtain ⟨column, hcolumn, h⟩ := Option.bind_eq_some_iff.mp h
    obtain ⟨row, hrow, h⟩ := Option.bind_eq_some_iff.mp h
    obtain ⟨hletters, hcolumn, hcolumnLt⟩ := columnOfLetters?_eq_some_iff.mp hcolumn
    obtain ⟨hdigits, hrow, hrowLt⟩ := word64?_eq_some_iff.mp hrow
    obtain ⟨hpos, h⟩ := Option.ite_none_left_eq_some.mp h
    obtain rfl := Option.some.inj h
    exact ⟨hletters, hdigits, hcolumn, hrow, hcolumnLt, hrowLt, Nat.pos_of_ne_zero hpos⟩
  · intro h
    have hcolumn := columnOfLetters?_eq_some_iff.mpr ⟨h.letterRun, h.column, h.column_lt⟩
    have hrow := word64?_eq_some_iff.mpr ⟨h.digitRun, h.row, h.row_lt⟩
    refine Option.bind_eq_some_iff.mpr ⟨_, hcolumn, Option.bind_eq_some_iff.mpr ⟨_, hrow, ?_⟩⟩
    exact if_neg (Nat.ne_of_gt h.row_pos)

/-- Letters end where the digits begin. -/
theorem takeWhile_isUpper (hletters : ∀ c ∈ letters, c.isUpper = true)
    (hdigits : ∀ c ∈ digits, c.isDigit = true) :
    (letters ++ digits).takeWhile Char.isUpper = letters ∧
      (letters ++ digits).dropWhile Char.isUpper = digits := by
  have hhead : ∀ c ∈ digits.head?, c.isUpper = false :=
    fun c hc => isUpper_of_isDigit (hdigits c (List.mem_of_mem_head? hc))
  exact ⟨takeWhile_run hletters hhead, dropWhile_run hletters hhead⟩

/-- Digits begin where the letters end. -/
theorem takeWhile_not_isDigit (hletters : ∀ c ∈ letters, c.isUpper = true)
    (hdigits : ∀ c ∈ digits, c.isDigit = true) :
    (letters ++ digits).takeWhile (!·.isDigit) = letters ∧
      (letters ++ digits).dropWhile (!·.isDigit) = digits := by
  have hrun : ∀ c ∈ letters, (!c.isDigit) = true := by
    intro c hc
    have hupper := hletters c hc
    by_contra hdigit
    rw [isUpper_of_isDigit (by simpa using hdigit)] at hupper
    cases hupper
  have hhead : ∀ c ∈ digits.head?, (!c.isDigit) = false :=
    fun c hc => by simp [hdigits c (List.mem_of_mem_head? hc)]
  exact ⟨takeWhile_run hrun hhead, dropWhile_run hrun hhead⟩

theorem parse?_eq_some_iff :
    parse? cs = some address ↔
      ∃ letters digits, cs = letters ++ digits ∧ Names letters digits address := by
  rw [parse?, ofParts?_eq_some_iff]
  constructor
  · exact fun h => ⟨_, _, List.takeWhile_append_dropWhile.symm, h⟩
  · rintro ⟨letters, digits, rfl, h⟩
    obtain ⟨htake, hdrop⟩ := takeWhile_isUpper h.letterRun.mem h.digitRun.mem
    rwa [htake, hdrop]

/-- Where a text is cut at its first digit, the letters and digits of an address are found. -/
theorem parse?_eq_ofParts? (cs : List Char) :
    parse? cs = ofParts? (cs.takeWhile (!·.isDigit)) (cs.dropWhile (!·.isDigit)) := by
  ext address
  rw [parse?_eq_some_iff, ofParts?_eq_some_iff]
  constructor
  · rintro ⟨letters, digits, rfl, h⟩
    obtain ⟨htake, hdrop⟩ := takeWhile_not_isDigit h.letterRun.mem h.digitRun.mem
    rwa [htake, hdrop]
  · exact fun h => ⟨_, _, List.takeWhile_append_dropWhile.symm, h⟩

end Reading

section Writing

variable {letters digits : List Char} {address : Address}

/-- The letters and digits of an address are written again without zeros in front of the row. -/
theorem text_of_names (h : Names letters digits address) :
    address.text = letters ++ digits.dropWhile (· = '0') := by
  have hrow : numeralValue digits ≠ 0 := by
    rw [h.row]
    exact Nat.ne_of_gt h.row_pos
  rw [text, ← h.column, ← h.row, columnLetters_lettersValue h.letterRun.mem,
    numeral_numeralValue h.digitRun.mem hrow]

theorem names_text (hcolumn : 0 < address.column) (hcolumnLt : address.column < wordLimit)
    (hrow : 0 < address.row) (hrowLt : address.row < wordLimit) :
    Names (columnLetters address.column) (numeral address.row) address where
  letterRun := isRun_columnLetters hcolumn
  digitRun := ⟨numeral_ne_nil _, fun _ => isDigit_of_mem_numeral⟩
  column := lettersValue_columnLetters _
  row := numeralValue_numeral _
  column_lt := hcolumnLt
  row_lt := hrowLt
  row_pos := hrow

/-- Different addresses have different texts, also those of column zero or row zero, which no text
names. -/
theorem text_injective : Function.Injective text := by
  intro address other h
  have hsplit : ∀ address : Address, address.text.takeWhile Char.isUpper =
      columnLetters address.column ∧ address.text.dropWhile Char.isUpper = numeral address.row :=
    fun address => takeWhile_isUpper (fun _ => isUpper_of_mem_columnLetters)
      fun _ => isDigit_of_mem_numeral
  obtain ⟨hletters, hdigits⟩ := hsplit address
  rw [h, (hsplit other).1] at hletters
  rw [h, (hsplit other).2] at hdigits
  have hcolumn : address.column = other.column := by
    rw [← lettersValue_columnLetters address.column, ← hletters, lettersValue_columnLetters]
  have hrow : address.row = other.row := by
    rw [← numeralValue_numeral address.row, ← hdigits, numeralValue_numeral]
  obtain ⟨column, row⟩ := address
  exact congrArg₂ mk hcolumn hrow

end Writing

/-- Columns and letters: a run of letters is read as its value in bijective base 26 exactly if that
fits into 64 bits, and writing the columns from one on and reading runs of letters are inverse.

Addresses: exactly the texts are read that are such letters and digits of a row from one on that
fits into 64 bits, wherever a text is cut into the two. What is written for an address is read as
that address; what was read is written without the leading zeros of its row; and no two addresses
are written alike. -/
theorem texts_exact :
    ((∀ letters column, columnOfLetters? letters = some column ↔
        IsRun Char.isUpper letters ∧ lettersValue letters = column ∧ column < wordLimit) ∧
      (∀ column, 0 < column → column < wordLimit →
        columnOfLetters? (columnLetters column) = some column) ∧
      ∀ letters column, columnOfLetters? letters = some column →
        0 < column ∧ columnLetters column = letters) ∧
    (∀ letters digits address,
      ofParts? letters digits = some address ↔ Names letters digits address) ∧
    (∀ cs address, parse? cs = some address ↔
      ∃ letters digits, cs = letters ++ digits ∧ Names letters digits address) ∧
    (∀ cs, parse? cs = ofParts? (cs.takeWhile (!·.isDigit)) (cs.dropWhile (!·.isDigit))) ∧
    (∀ body letters digits, .token letters digits ∈ Piece.split body →
      (letters ++ digits).takeWhile (!·.isDigit) = letters ∧
        (letters ++ digits).dropWhile (!·.isDigit) = digits) ∧
    (∀ address : Address, 0 < address.column → address.column < wordLimit → 0 < address.row →
      address.row < wordLimit → parse? address.text = some address) ∧
    (∀ cs address, parse? cs = some address → address.text =
      cs.takeWhile Char.isUpper ++ (cs.dropWhile Char.isUpper).dropWhile (· = '0')) ∧
    Function.Injective text := by
  refine ⟨⟨fun _ _ => columnOfLetters?_eq_some_iff, fun column hpos hlt => ?_,
    fun letters column h => ?_⟩, fun _ _ _ => ofParts?_eq_some_iff, fun _ _ => parse?_eq_some_iff,
    parse?_eq_ofParts?, fun body letters digits h => ?_,
    fun address hcolumn hcolumnLt hrow hrowLt => ?_, fun cs address h => ?_, text_injective⟩
  · exact columnOfLetters?_eq_some_iff.mpr
      ⟨isRun_columnLetters hpos, lettersValue_columnLetters column, hlt⟩
  · obtain ⟨hletters, rfl, -⟩ := columnOfLetters?_eq_some_iff.mp h
    exact ⟨lettersValue_pos hletters.ne_nil, columnLetters_lettersValue hletters.mem⟩
  · obtain ⟨hletters, hdigits⟩ := Cut.isRun_of_token_mem_split h
    exact takeWhile_not_isDigit hletters.mem hdigits.mem
  · exact parse?_eq_some_iff.mpr ⟨_, _, rfl, names_text hcolumn hcolumnLt hrow hrowLt⟩
  · rw [parse?, ofParts?_eq_some_iff] at h
    exact text_of_names h

/-- The last column of 64 bits, with zeros in front of its row, and the first column beyond it. -/
theorem texts_exact_last :
    (parse? "GKGWBYLWRXTLPO0070".toList = some ⟨18446744073709551615, 70⟩ ∧
      (⟨18446744073709551615, 70⟩ : Address).text = "GKGWBYLWRXTLPO70".toList) ∧
    parse? "GKGWBYLWRXTLPO70".toList = some ⟨18446744073709551615, 70⟩ ∧
    columnOfLetters? "GKGWBYLWRXTLPP".toList = none := by
  obtain ⟨⟨hread, -, -⟩, -, -, -, -, hparse, htext, -⟩ := texts_exact
  have hlast : parse? "GKGWBYLWRXTLPO0070".toList = some ⟨18446744073709551615, 70⟩ := by
    decide +kernel
  have hshown : (⟨18446744073709551615, 70⟩ : Address).text = "GKGWBYLWRXTLPO70".toList :=
    htext _ _ hlast
  refine ⟨⟨hlast, hshown⟩, ?_, ?_⟩
  · rw [← hshown]
    exact hparse _ (by decide) (by decide) (by decide) (by decide)
  · rw [Option.eq_none_iff_forall_ne_some]
    intro column hcolumn
    obtain ⟨-, hvalue, hlt⟩ := (hread _ _).mp hcolumn
    have hbeyond : lettersValue "GKGWBYLWRXTLPP".toList = wordLimit := by decide +kernel
    omega

end Address
end FormulaSheet
