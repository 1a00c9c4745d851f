import FormulaSheet.Formula.Resolution

/-!
# Evaluation of sheets

A formula is evaluated with no other formula in flight. `Sheet.evaluate` puts the numeral of its
value, or `#ERROR`, in place of each formula; `Sheet.diagnose` lists the formulas that have no
numeral, with the reason.
-/

namespace FormulaSheet

/-- What stands in place of a formula that has no value. -/
def errorMarker : String := "#ERROR"

def formulaOutcome (sheet : Sheet) (options : EvalOptions) (formula : String) :
    Outcome Binary64 :=
  evaluate sheet options formula.toList []

def evaluateFormula (sheet : Sheet) (options : EvalOptions) (formula : String) :
    Except EvalError Binary64 :=
  (formulaOutcome sheet options formula).result

def evaluateCell (sheet : Sheet) (options : EvalOptions) (formula : String) :
    Except EvalError String :=
  match evaluateFormula sheet options formula with
  | .error error => .error error
  | .ok number =>
      match number.numeral? with
      | some text => .ok text
      | none => .error (.invalidExpression .notFinite)

def shownText (sheet : Sheet) (options : EvalOptions) (text : String) : String :=
  if isFormula text then
    match evaluateCell sheet options text with
    | .ok shown => shown
    | .error _ => errorMarker
  else
    text

/-- A formula that has no value, with its address and the reason. -/
structure Diagnostic where
  cell : Address
  formula : String
  error : EvalError
  deriving DecidableEq

namespace Sheet

def evaluate (sheet : Sheet) (options : EvalOptions) : Sheet :=
  sheet.mapText (shownText sheet options)

def formulaCells (sheet : Sheet) : List (Address × String) :=
  (sheet.rows.zipIdx.map fun (row, index) =>
    (row.cells.filter fun cell => isFormula cell.2).map fun cell =>
      (⟨cell.1, index⟩, cell.2)).flatten

/-- The formulas that have no value, in the order of rows and columns. -/
def diagnose (sheet : Sheet) (options : EvalOptions) : List Diagnostic :=
  sheet.formulaCells.filterMap fun (address, formula) =>
    match evaluateCell sheet options formula with
    | .ok _ => none
    | .error error => some ⟨address, formula, error⟩

/-- What happens while the formulas are evaluated, in the order of rows and columns. -/
def history (sheet : Sheet) (options : EvalOptions) : List Event :=
  sheet.formulaCells.flatMap fun (_, formula) =>
    (formulaOutcome sheet options formula).history

end Sheet

end FormulaSheet
