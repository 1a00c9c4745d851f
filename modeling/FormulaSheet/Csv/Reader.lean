import FormulaSheet.Sheet.Basic
import FormulaSheet.Text.Blank

/-!
# Reading comma separated values

A text is cut into records, and a record into fields, by one pass over its characters. Fields
are trimmed unless they are quoted; inside quotes everything counts, and a quote is written
twice. A record ends at a line feed outside quotes. A carriage return before it is white space
at the end of a field, so it needs no rule of its own. The text may end with a record's line
feed or without.

Record `i` is row `i` of the sheet, and field `j` of a record, counted from one, its column `j`;
an empty field leaves its column empty.
-/

namespace FormulaSheet
namespace Csv

open Text

/-- A quoted field that begins in the record on this line is never closed. -/
structure Unterminated where
  line : Nat
  deriving DecidableEq

/-- How the current field stands to quotes. -/
inductive Quoting
  /-- No quote has opened the field. -/
  | unquoted
  /-- A quote is open. -/
  | inside
  /-- A quote has just been met inside quotes: it closes them unless another follows. -/
  | afterQuote
  /-- The quotes are closed. -/
  | closed
  deriving DecidableEq

/-- What has been read so far. Lists hold the latest part first. -/
structure Scan where
  records : List (List String) := []
  fields : List String := []
  current : String := ""
  quoting : Quoting := .unquoted
  /-- The line of the next character, from one. -/
  line : Nat := 1
  /-- The line on which the current record begins; none between two records. -/
  start : Option Nat := none

namespace Scan

def field (s : Scan) : String :=
  match s.quoting with
  | .unquoted => trimmed s.current
  | _ => s.current

def endField (s : Scan) : Scan :=
  { s with fields := s.field :: s.fields, current := "", quoting := .unquoted }

def endRecord (s : Scan) : Scan :=
  { s with
    records := (s.field :: s.fields).reverse :: s.records
    fields := []
    current := ""
    quoting := .unquoted
    start := none }

def push (s : Scan) (c : Char) : Scan :=
  { s with current := s.current.push c }

/-- A character outside quotes. A quote opens quotes if nothing but white space comes before it
in the field; white space behind quotes is dropped. -/
def outside (s : Scan) (c : Char) : Scan :=
  if c = '"' ∧ s.current.toList.all isBlank = true then
    { s with current := "", quoting := .inside }
  else if c = ',' then s.endField
  else if c = '\n' then s.endRecord
  else if s.quoting = .closed ∧ isBlank c = true then s
  else s.push c

/-- Count the line of a character, and begin a record with it if none is begun. -/
def advance (s : Scan) (c : Char) : Scan :=
  { s with
    start := some (s.start.getD s.line)
    line := if c = '\n' then s.line + 1 else s.line }

def accept (s : Scan) (c : Char) : Scan :=
  match s.quoting with
  | .unquoted => s.outside c
  | .closed => s.outside c
  | .inside => if c = '"' then { s with quoting := .afterQuote } else s.push c
  | .afterQuote =>
      if c = '"' then { s.push c with quoting := .inside }
      else outside { s with quoting := .closed } c

def step (s : Scan) (c : Char) : Scan :=
  (s.advance c).accept c

def finish (s : Scan) : Except Unterminated (List (List String)) :=
  if s.quoting = .inside then .error ⟨s.start.getD s.line⟩
  else
    match s.start with
    | none => .ok s.records.reverse
    | some _ => .ok s.endRecord.records.reverse

end Scan

/-- The records of a text, each the list of its fields. -/
def records (content : String) : Except Unterminated (List (List String)) :=
  (content.foldl Scan.step {}).finish

/-- The cells of fields that begin at a column, without the empty ones. -/
def fieldCells (column : Nat) : List String → List Cell
  | [] => []
  | field :: rest =>
      if field = "" then fieldCells (column + 1) rest
      else (column, field) :: fieldCells (column + 1) rest

theorem le_of_mem_fieldCells {column : Nat} {fields : List String} {cell : Cell}
    (h : cell ∈ fieldCells column fields) : column ≤ cell.1 := by
  induction fields generalizing column with
  | nil => simp [fieldCells] at h
  | cons field rest ih =>
      unfold fieldCells at h
      split at h
      · have := ih h
        omega
      · rcases List.mem_cons.1 h with rfl | h
        · exact Nat.le_refl _
        · have := ih h
          omega

theorem sorted_fieldCells (column : Nat) (fields : List String) :
    (fieldCells column fields).Pairwise (fun a b => a.1 < b.1) := by
  induction fields generalizing column with
  | nil => exact List.Pairwise.nil
  | cons field rest ih =>
      unfold fieldCells
      split
      · exact ih _
      · exact List.pairwise_cons.2 ⟨fun cell h => le_of_mem_fieldCells h, ih _⟩

def rowOfRecord (fields : List String) : Row where
  cells := fieldCells 1 fields
  sorted := sorted_fieldCells 1 fields

def read (content : String) : Except Unterminated Sheet :=
  (records content).map fun records => ⟨records.map rowOfRecord⟩

end Csv
end FormulaSheet
