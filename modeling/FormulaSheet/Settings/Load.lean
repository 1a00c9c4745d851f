import FormulaSheet.Files.Store
import FormulaSheet.Settings.Basic
import FormulaSheet.Storage.Error

/-!
# Loading settings

Settings come from the document at a given path, or else from the user's settings file. Loading
never fails: a document that cannot be used is reported in a warning, and the default settings
take its place. Only a settings file that nobody named may be missing without a warning.
-/

namespace FormulaSheet

/-- The directories in which a user's settings are looked for. Every user has a directory of
their own: a system that names none, so that there is no path of a user's settings, is left
out. -/
structure UserDirectories where
  /-- The user's own directory. -/
  home : String
  /-- The directory for settings, which counts only if its path is absolute. -/
  config : Option String := none

/-- The size of the largest file that is read as settings, in bytes. -/
def maxSettingsBytes : Nat := Nat.pow 2 20

namespace Settings

def userPath (directories : UserDirectories) : String :=
  let config :=
    (directories.config.filter Path.isAbsolute).getD (Path.below directories.home ".config")
  Path.below config "sheetcalc/config.toml"

def readFile (store : Store) (path : String) : Except StorageError Settings := do
  let size ← (store.size path).mapError .file
  if maxSettingsBytes < size then .error (.fileTooLarge path size maxSettingsBytes)
  else do
    let content ← (store.read path).mapError .file
    let text ← content.text?.mapError .file
    (parse text).mapError (.settings path)

/-- Why settings were not taken from a document. -/
inductive Warning
  /-- There is no file at the path that was given. -/
  | notFound (path : String)
  /-- The file at the path cannot be used. -/
  | ignored (path : String) (error : StorageError)
  deriving DecidableEq

def Warning.message : Warning → String
  | .notFound path => "Config file not found: " ++ path
  | .ignored path error => "Ignoring " ++ path ++ ": " ++ error.message

/-- The settings of the document at the given path, or else of the user's settings file, and the
warnings. -/
def load (store : Store) (directories : UserDirectories) (given : Option String) :
    Settings × List Warning :=
  let path := given.getD (userPath directories)
  if store.exists? path then
    match readFile store path with
    | .ok settings => (settings, [])
    | .error error => ({}, [.ignored path error])
  else
    ({}, if given.isSome then [.notFound path] else [])

end Settings

end FormulaSheet
