import FormulaSheet.Text.Numeral

/-!
# Cell addresses

An address such as `AA10` names a cell by its column and its row. Columns count `A` … `Z`, `AA`,
`AB` …, that is in bijective base 26, from one; the digits are the row. Both must fit into 64
bits.

* `columnOfLetters?`, `columnLetters`: columns and their letters.
* `Address.parse?`, `Address.text`: addresses and their texts.
-/

namespace FormulaSheet

open Text

/-- A column and a row. Texts name only those that are at least one. -/
structure Address where
  column : Nat
  row : Nat
  deriving DecidableEq

namespace Address

/-- The value of one column letter, from one. -/
def letterValue (c : Char) : Nat :=
  c.toNat - 'A'.toNat + 1

/-- One more column letter behind letters of a known value, if the result fits into 64 bits. -/
def extendColumn? (column : Nat) (c : Char) : Option Nat :=
  if c.isUpper = true ∧ column * 26 + letterValue c < wordLimit then
    some (column * 26 + letterValue c)
  else
    none

def columnOfLetters? : List Char → Option Nat
  | [] => none
  | letters => letters.foldlM extendColumn? 0

/-- The letters of a column, in front of those given; column zero has none. -/
def columnLettersBefore (column : Nat) (letters : List Char) : List Char :=
  if column = 0 then letters
  else
    columnLettersBefore ((column - 1) / 26)
      (Char.ofNat ('A'.toNat + (column - 1) % 26) :: letters)
termination_by column
decreasing_by omega

/-- The letters of a column; column zero has none. -/
def columnLetters (column : Nat) : List Char :=
  columnLettersBefore column []

/-- The address of a run of letters and a run of digits, if both denote numbers that are at
least one and fit into 64 bits. -/
def ofParts? (letters digits : List Char) : Option Address := do
  let column ← columnOfLetters? letters
  let row ← word64? digits
  if row = 0 then none else some ⟨column, row⟩

/-- The address that a text names: upper case letters, then digits. -/
def parse? (cs : List Char) : Option Address :=
  ofParts? (cs.takeWhile Char.isUpper) (cs.dropWhile Char.isUpper)

/-- The text of an address: the letters of its column, then its row. -/
def text (address : Address) : List Char :=
  columnLetters address.column ++ numeral address.row

end Address

end FormulaSheet
