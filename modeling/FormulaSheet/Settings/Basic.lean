import FormulaSheet.Formula.Resolution
import FormulaSheet.Toml.Reader

/-!
# Settings

A settings document has two tables, `eval` with the limit `max_depth` on nested formulas, and
`output` with the switch `pretty`. It is taken whole or not at all: a table or key that is not
known, a value of another kind, a repeated key and a limit of zero refuse it. Each table may be
given by a header, by dotted keys, as an inline table, or as an array whose first item is the
value of its key.
-/

namespace FormulaSheet

/-- The settings that a document can change. -/
structure Settings where
  maxDepth : Option Nat := none
  pretty : Bool := false
  deriving DecidableEq

/-- Why a settings document is refused. -/
inductive SettingsFault
  /-- The text is not well formed or does not fit the tables. -/
  | unfit
  /-- The limit on nested formulas is zero. -/
  | zeroDepth
  deriving DecidableEq

def SettingsFault.message : SettingsFault → String
  | .unfit => "not a settings document"
  | .zeroDepth => "eval.max_depth must be at least 1"

namespace Settings

def evalOptions (settings : Settings) : EvalOptions :=
  { maxDepth := settings.maxDepth }

def evalName : List Char := "eval".toList

def maxDepthName : List Char := "max_depth".toList

def outputName : List Char := "output".toList

def prettyName : List Char := "pretty".toList

def maxDepth? : Toml.Value → Option Nat
  | .integer value => if 0 ≤ value then some value.toNat else none
  | _ => none

def pretty? : Toml.Value → Option Bool
  | .boolean value => some value
  | _ => none

/-- The settings with one key changed, if it is known and the value fits it. -/
def assignKey? (settings : Settings) (path : Toml.Path) (value : Toml.Value) : Option Settings :=
  if path = [evalName, maxDepthName] then
    (maxDepth? value).map fun limit => { settings with maxDepth := some limit }
  else if path = [outputName, prettyName] then
    (pretty? value).map fun pretty => { settings with pretty := pretty }
  else none

/-- The settings with the keys of an inline table changed, each below the name of the table. -/
def assignEntries? (table : List Char) : Settings → List (Toml.Path × Toml.Value) →
    Option Settings
  | settings, [] => some settings
  | settings, (path, value) :: rest => do
      assignEntries? table (← settings.assignKey? (table :: path) value) rest

/-- The settings with a whole table given by an array: the first item is the value of its key.
Only the output table may be given without one. -/
def assignItems? (settings : Settings) (table : List Char) : List Toml.Value → Option Settings
  | [] => if table = outputName then some settings else none
  | value :: _ =>
      settings.assignKey? [table, if table = evalName then maxDepthName else prettyName] value

def assign? (settings : Settings) (path : Toml.Path) (value : Toml.Value) : Option Settings :=
  if path = [evalName] ∨ path = [outputName] then
    match value with
    | .table entries => assignEntries? (path.headD []) settings entries
    | .array items => settings.assignItems? (path.headD []) items
    | _ => none
  else settings.assignKey? path value

/-- The settings of statements, behind the table of the latest header and the paths that are
defined so far. A header names one of the two tables, and nothing in it is defined before. -/
def ofStatements? (table : Toml.Path) (defined : List Toml.Path) :
    Settings → List Toml.Statement → Option Settings
  | settings, [] => some settings
  | settings, .header path :: rest =>
      if (path = [evalName] ∨ path = [outputName]) ∧ defined.all (Toml.Path.compatible path) then
        ofStatements? path (path :: defined) settings rest
      else none
  | _, .arrayHeader _ :: _ => none
  | settings, .assignment key value :: rest => do
      let path := table ++ key
      let others := defined.filter (· ≠ table)
      if others.all (Toml.Path.compatible path) then
        ofStatements? table (path :: defined) (← settings.assign? path value) rest
      else none

def parse (content : String) : Except SettingsFault Settings :=
  match (Toml.read? content.toList).bind (ofStatements? [] [] {}) with
  | none => .error .unfit
  | some settings => if settings.maxDepth = some 0 then .error .zeroDepth else .ok settings

end Settings

end FormulaSheet
