import FormulaSheet.Formula.Evaluation
import FormulaSheet.Storage.Format

/-!
# Documents

A document is a sheet with the limits that its evaluation has and the path that it was opened
from. Opening checks, in this order, the extension of the path, that the file is there, its size
and its content; saving checks the extension and that the file can be created.
-/

namespace FormulaSheet

/-- The size of the largest file that is read as a sheet, in bytes. -/
def maxSheetBytes : Nat := 64 * Nat.pow 2 20

/-- Counts from one evaluation. -/
structure EvalSummary where
  formulas : Nat
  errors : Nat
  deriving DecidableEq

/-- A sheet and how it is evaluated. -/
structure Document where
  sheet : Sheet
  path : Option String := none
  options : EvalOptions := {}

namespace Document

def evaluated (document : Document) : Sheet :=
  document.sheet.evaluate document.options

/-- The formulas that have no value. -/
def diagnostics (document : Document) : List Diagnostic :=
  document.sheet.diagnose document.options

/-- How many formulas there are, and how many of them have no value. -/
def summary (document : Document) : EvalSummary where
  formulas := document.sheet.formulaCount
  errors := document.diagnostics.length

def readFile (store : Store) (path : String) : Except StorageError Content := do
  let size ← (store.size path).mapError .file
  if maxSheetBytes < size then .error (.fileTooLarge path size maxSheetBytes)
  else (store.read path).mapError .file

/-- A source that cannot be read is a fault of the format that reads it. -/
def asSourceOf (format : SheetFormat) (error : StorageError) : StorageError :=
  match format, error with
  | .json, .file .isADirectory => .jsonSource .isADirectory
  | _, error => error

/-- The document at a path, in the format of its extension. -/
def openFile (store : Store) (path : String) : Except StorageError Document := do
  let format ← SheetFormat.ofPath path
  let content ← (readFile store path).mapError (asSourceOf format)
  let sheet ← format.read content
  .ok { sheet := sheet, path := some path }

/-- The store with the evaluated sheet written at a path, in the format of its extension. -/
def saveEvaluated (document : Document) (store : Store) (path : String) (pretty : Bool) :
    Except StorageError Store := do
  let format ← SheetFormat.ofPath path
  (store.write path (.ofText (format.write pretty document.evaluated))).mapError .file

end Document

end FormulaSheet
