import FormulaSheet.Json.Quoted
import FormulaSheet.Sheet.Basic

/-!
# Writing sheets as JSON

A sheet becomes an array of objects, each from the column numbers of a row to its texts, in the
order of the columns, and a line feed at the end. The text has no white space, or, if it is to be
pretty, one line for each bracket and member, indented by two blanks for each level.
-/

namespace FormulaSheet
namespace Json

open Text

/-- A new line at a level, in a pretty text. -/
def lineBreak (pretty : Bool) (level : Nat) : List Char :=
  if pretty then '\n' :: List.replicate (2 * level) ' ' else []

/-- Items between brackets, at a level; brackets around nothing stay together. -/
def enclosed (pretty : Bool) (level : Nat) (opening closing : Char) :
    List (List Char) → List Char
  | [] => [opening, closing]
  | items =>
      opening :: (lineBreak pretty (level + 1) ++
        List.intercalate (',' :: lineBreak pretty (level + 1)) items ++
          lineBreak pretty level ++ [closing])

def memberText (pretty : Bool) (cell : Cell) : List Char :=
  '"' :: (numeral cell.1 ++ '"' :: ':' :: (if pretty then [' '] else [])) ++
    quoted cell.2.toList

def rowText (pretty : Bool) (row : Row) : List Char :=
  enclosed pretty 1 '{' '}' (row.cells.map (memberText pretty))

def write (pretty : Bool) (sheet : Sheet) : String :=
  String.ofList (enclosed pretty 0 '[' ']' (sheet.rows.map (rowText pretty)) ++ ['\n'])

end Json
end FormulaSheet
