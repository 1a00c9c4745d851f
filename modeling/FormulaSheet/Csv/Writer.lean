import FormulaSheet.Sheet.Basic
import FormulaSheet.Text.Blank

/-!
# Writing comma separated values

Each row becomes one line with a field for every column from one to its last; columns without a
text become empty fields. A field is quoted if it would not be read back as it stands. Column
zero has no place in a line. A line may be of any length: limits of memory and of the stack are
left out, here as everywhere.
-/

namespace FormulaSheet
namespace Csv

open Text

/-- The characters that only a quoted field can hold. -/
def isSpecial (c : Char) : Bool :=
  c = ',' || c = '"' || c = '\n' || c = '\r'

/-- The text can only be written in quotes. -/
def needsQuotes (text : String) : Bool :=
  text.toList.any isSpecial || hasBlankEnd text

def doubleQuotes (cs : List Char) : List Char :=
  cs.flatMap fun c => if c = '"' then ['"', '"'] else [c]

def fieldText (text : String) : String :=
  if needsQuotes text then String.ofList ('"' :: (doubleQuotes text.toList ++ ['"'])) else text

def fieldsFrom (column : Nat) : List Cell → List String
  | [] => []
  | cell :: rest =>
      List.replicate (cell.1 - column) "" ++ fieldText cell.2 :: fieldsFrom (cell.1 + 1) rest

/-- The line of a row, with its line feed. -/
def lineOfRow (row : Row) : String :=
  String.intercalate "," (fieldsFrom 1 (row.cells.filter fun cell => cell.1 ≠ 0)) ++ "\n"

def write (sheet : Sheet) : String :=
  String.join (sheet.rows.map lineOfRow)

def rowsWithColumnZero (sheet : Sheet) : List Nat :=
  (sheet.rows.zipIdx.filter fun (row, _) => (row.get? 0).isSome).map Prod.snd

end Csv
end FormulaSheet
