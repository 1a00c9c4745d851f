import FormulaSheet.Csv.Reader
import FormulaSheet.Csv.Writer
import FormulaSheet.Files.Path
import FormulaSheet.Files.Store
import FormulaSheet.Json.Reader
import FormulaSheet.Json.Writer
import FormulaSheet.Storage.Error

/-!
# Formats of sheets

A sheet is stored as JSON or as comma separated values. The format is chosen by its name or by
the extension of a path, in any case of the letters `A` to `Z`.
-/

namespace FormulaSheet

/-- The formats in which sheets are stored. -/
inductive SheetFormat
  | json
  | csv
  deriving DecidableEq

namespace SheetFormat

def ofName (name : String) : Except StorageError SheetFormat :=
  let lower := name.map Char.toLower
  if lower = "json" then .ok .json
  else if lower = "csv" then .ok .csv
  else .error (.unknownFormat lower)

def ofPath (path : String) : Except StorageError SheetFormat :=
  match Path.extension? path with
  | some extension => ofName extension
  | none => .error (.noExtension path)

def read (format : SheetFormat) (content : Content) : Except StorageError Sheet :=
  match format with
  | .json => (Json.readBytes content.toBytes).mapError .json
  | .csv =>
      match content.text? with
      | .error fault => .error (.file fault)
      | .ok text =>
          (Csv.read text).mapError fun unterminated => .unterminatedField unterminated.line

/-- The text of a sheet in a format; only JSON can be pretty. -/
def write (format : SheetFormat) (pretty : Bool) (sheet : Sheet) : String :=
  match format with
  | .json => Json.write pretty sheet
  | .csv => Csv.write sheet

end SheetFormat

end FormulaSheet
