import FormulaSheet.Files.Error
import FormulaSheet.Json.Number
import FormulaSheet.Settings.Basic

/-!
# Why a sheet or a settings document cannot be loaded or saved
-/

namespace FormulaSheet

/-- Why loading, saving or configuring fails. -/
inductive StorageError
  /-- A file cannot be used, or a text is not in UTF-8. -/
  | file (fault : FileFault)
  /-- A text is not a sheet in JSON. -/
  | json (fault : Json.Fault)
  /-- The source of a sheet in JSON cannot be read. -/
  | jsonSource (fault : FileFault)
  /-- A quoted field of the record that begins on this line is not closed. -/
  | unterminatedField (line : Nat)
  /-- A settings document is refused. -/
  | settings (path : String) (fault : SettingsFault)
  /-- A format has another name or a path another extension than those that are known. -/
  | unknownFormat (name : String)
  /-- A path has no extension that could name a format. -/
  | noExtension (path : String)
  /-- A file is larger than is read. -/
  | fileTooLarge (path : String) (size limit : Nat)
  deriving DecidableEq

namespace StorageError

def message : StorageError → String
  | .file fault => "IO error: " ++ fault.message
  | .json fault => "JSON error: " ++ fault.message
  | .jsonSource fault => "JSON error: " ++ fault.message
  | .unterminatedField line =>
      "Parse error at line " ++ toString line ++ ": unterminated quoted field"
  | .settings path fault => "Invalid config " ++ path ++ ": " ++ fault.message
  | .unknownFormat name => "Unsupported sheet format: " ++ name
  | .noExtension path => "Unsupported sheet format: " ++ path ++ " has no extension"
  | .fileTooLarge path size limit =>
      "Refusing to read " ++ path ++ ": file too large (" ++ toString size ++ " bytes, max " ++
        toString limit ++ ")"

/-- The wording of what lies behind an error, where that is a problem of its own. -/
def causeMessage? : StorageError → Option String
  | .file fault => some fault.message
  | .json fault => some fault.message
  | .jsonSource fault => some fault.message
  | _ => none

/-- The wording of an error followed by that of what lies behind it. -/
def chainMessage (error : StorageError) : String :=
  match error.causeMessage? with
  | some cause => error.message ++ ": " ++ cause
  | none => error.message

end StorageError

end FormulaSheet
