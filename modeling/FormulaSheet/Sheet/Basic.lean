import FormulaSheet.Sheet.Row

/-!
# Sheets

A sheet is a list of rows, counted from zero. Row zero often holds headings, and no address names
it, but it is a row like the others.
-/

namespace FormulaSheet

/-- A list of rows. -/
structure Sheet where
  rows : List Row := []
  deriving DecidableEq

namespace Sheet

def length (sheet : Sheet) : Nat :=
  sheet.rows.length

def row? (sheet : Sheet) (row : Nat) : Option Row :=
  sheet.rows[row]?

def get? (sheet : Sheet) (row column : Nat) : Option String :=
  (sheet.row? row).bind fun cells => cells.get? column

/-- The sheet with a text in a cell, and with as many more rows as that takes. -/
def set (sheet : Sheet) (row column : Nat) (text : String) : Sheet where
  rows :=
    (sheet.rows ++ List.replicate (row + 1 - sheet.length) Row.empty).modify row
      fun cells => cells.insert column text

def pushRow (sheet : Sheet) (row : Row) : Sheet where
  rows := sheet.rows ++ [row]

def mapText (f : String → String) (sheet : Sheet) : Sheet where
  rows := sheet.rows.map (Row.mapText f)

end Sheet

end FormulaSheet
