import FormulaSheet.Address
import FormulaSheet.Binary64.Shortest
import FormulaSheet.Expression.Evaluation
import FormulaSheet.Formula.Piece
import FormulaSheet.Sheet.Basic
import FormulaSheet.Text.Blank

/-!
# Resolution of formulas

To evaluate a formula, each address token in it is replaced by the number that its cell reads as,
and the numeric expression that results is evaluated. A cell that holds a formula is evaluated
in the same way first. A cell that reads as no number counts as zero, and so does a formula that
fails, unless its error is structural: a circular reference, or a chain of references that is
deeper than a given limit, fails every formula on the chain.

Cycles are found by the texts of the formulas *in flight*, those whose references are being
resolved. `Resolving` is a computation that works on that set, may fail, and records a history;
the set goes from one step to the next, so that nothing but the steps themselves keeps it in
order.

* `resolve`: the numeric expression of a formula.
* `evaluate`: the number of a formula.

Both are defined from open forms, `resolveWith` and `evaluateWith`, which are given the way to
evaluate the formulas of referenced cells. Closing them takes one level for each formula in
flight; a sheet with `n` formula cells never has more than `n + 1` in flight, so `n + 2` levels
are as good as any larger number.
-/

namespace FormulaSheet

open Text

/-- A limit on the number of formulas that may be in flight. -/
structure EvalOptions where
  maxDepth : Option Nat := none
  deriving DecidableEq

def formulaMarker : Char := '='

def isFormulaText (cs : List Char) : Bool :=
  (trimStart cs).head? = some formulaMarker

/-- The text of a cell is a formula. A text that does not begin with a blank is judged by its
first character alone. -/
def isFormula (text : String) : Bool :=
  if isBlank text.front then isFormulaText text.toList else text.front = formulaMarker

def Sheet.formulaCount (sheet : Sheet) : Nat :=
  (sheet.rows.map fun row => row.cells.countP fun cell => isFormula cell.2).foldr (· + ·) 0

/-- Why a reference counts as zero. -/
inductive Degradation
  | undecodable
  | rowOutOfBounds (row rows : Nat)
  | columnMissing (column row : Nat)
  | formulaFailed (error : EvalError)
  | notANumber (text : List Char)
  deriving DecidableEq

/-- What happens in the course of a resolution. -/
inductive Event
  /-- A formula has come in flight; these are the texts that now are. -/
  | entered (inFlight : List (List Char))
  /-- A reference counts as zero. -/
  | degraded (token : List Char) (cause : Degradation)
  /-- A formula has been rewritten into a numeric expression. -/
  | rewritten (formula expression : List Char)
  deriving DecidableEq

/-- What a computation leaves behind. -/
structure Outcome (α : Type) where
  result : Except EvalError α
  /-- The texts of the formulas in flight, the latest first. -/
  inFlight : List (List Char)
  history : List Event

def Resolving (α : Type) : Type :=
  List (List Char) → Outcome α

namespace Resolving

variable {α β : Type}

def value (a : α) : Resolving α :=
  fun inFlight => ⟨.ok a, inFlight, []⟩

/-- Give a result that may be an error, and change nothing. -/
def ofExcept (result : Except EvalError α) : Resolving α :=
  fun inFlight => ⟨result, inFlight, []⟩

/-- Fail, and change nothing. -/
def fail (error : EvalError) : Resolving α :=
  ofExcept (.error error)

/-- Go on with the value of a computation; an error ends both. -/
def andThen (x : Resolving α) (f : α → Resolving β) : Resolving β := fun inFlight =>
  let first := x inFlight
  match first.result with
  | .error error => ⟨.error error, first.inFlight, first.history⟩
  | .ok a =>
      let second := f a first.inFlight
      ⟨second.result, second.inFlight, first.history ++ second.history⟩

instance : Monad Resolving where
  pure := value
  bind := andThen

def report (event : Event) : Resolving Unit :=
  fun inFlight => ⟨.ok (), inFlight, [event]⟩

/-- The outcome of a computation as a value, so that an error does not end what follows. -/
def attempt (x : Resolving α) : Resolving (Except EvalError α) := fun inFlight =>
  let outcome := x inFlight
  ⟨.ok outcome.result, outcome.inFlight, outcome.history⟩

/-- Count a formula as in flight while a computation lasts, however that ends. -/
def within (formula : List Char) (x : Resolving α) : Resolving α := fun inFlight =>
  let outcome := x (formula :: inFlight)
  ⟨outcome.result, outcome.inFlight.erase formula,
    .entered (formula :: inFlight) :: outcome.history⟩

end Resolving

open Resolving

/-- The text for a reference that counts as zero. -/
def zeroText : List Char := ['0']

/-- A reference that counts as zero, for a cause that is recorded. -/
def degrade (token : List Char) (cause : Degradation) : Resolving (List Char) := do
  report (.degraded token cause)
  value zeroText

/-- The text that replaces an address token, given the text of its cell. -/
def cellValue (nested : List Char → Resolving Binary64) (token cell : List Char) :
    Resolving (List Char) := do
  if cell = [] then
    value zeroText
  else if cell.head? = some formulaMarker then
    match ← attempt (nested cell) with
    | .ok number => value number.text
    | .error error =>
        if error.isStructural then fail error else degrade token (.formulaFailed error)
  else
    match Binary64.parse? cell with
    | some number => value number.text
    | none => degrade token (.notANumber cell)

def referenceValue (sheet : Sheet) (nested : List Char → Resolving Binary64)
    (letters digits : List Char) : Resolving (List Char) :=
  let token := letters ++ digits
  match Address.ofParts? letters digits with
  | none => degrade token .undecodable
  | some address =>
      match sheet.row? address.row with
      | none => degrade token (.rowOutOfBounds address.row sheet.length)
      | some row =>
          match row.get? address.column with
          | none => degrade token (.columnMissing address.column address.row)
          | some text => cellValue nested token (trim text.toList)

/-- The text of pieces with each address token replaced, from left to right. -/
def substitute (sheet : Sheet) (nested : List Char → Resolving Binary64) :
    List Piece → Resolving (List Char)
  | [] => value []
  | .gap text :: rest => do
      let replaced ← substitute sheet nested rest
      value (text ++ replaced)
  | .token letters digits :: rest => do
      let number ← referenceValue sheet nested letters digits
      let replaced ← substitute sheet nested rest
      value (number ++ replaced)

/-- The limit on the formulas in flight that is reached, if one is. -/
def EvalOptions.exceeded? (options : EvalOptions) (inFlight : List (List Char)) : Option Nat :=
  options.maxDepth.filter fun limit => decide (limit ≤ inFlight.length)

/-- The numeric expression of a formula, given how to evaluate those of referenced cells. -/
def resolveWith (sheet : Sheet) (options : EvalOptions)
    (nested : List Char → Resolving Binary64) (formula : List Char) :
    Resolving (List Char) := fun inFlight =>
  let text := trim formula
  match text with
  | [] => fail .emptyCell inFlight
  | marker :: body =>
      if marker ≠ formulaMarker then fail .notAFormula inFlight
      else if text ∈ inFlight then fail .circularReference inFlight
      else
        match options.exceeded? inFlight with
        | some limit => fail (.maxDepthExceeded limit) inFlight
        | none =>
            (do
              let expression ← within text (substitute sheet nested (Piece.split body))
              report (.rewritten text expression)
              value expression : Resolving (List Char)) inFlight

/-- The number of a formula, given how to evaluate those of referenced cells. -/
def evaluateWith (sheet : Sheet) (options : EvalOptions)
    (nested : List Char → Resolving Binary64) (formula : List Char) : Resolving Binary64 := do
  let expression ← resolveWith sheet options nested formula
  ofExcept (Expression.evaluate expression)

/-- The number of a formula, with references followed through so many levels of formulas and
then evaluated as `last` tells. -/
def evaluateWithin (sheet : Sheet) (options : EvalOptions)
    (last : List Char → Resolving Binary64) : Nat → List Char → Resolving Binary64
  | 0 => last
  | levels + 1 => evaluateWith sheet options (evaluateWithin sheet options last levels)

def Sheet.levels (sheet : Sheet) : Nat :=
  sheet.formulaCount + 2

def evaluate (sheet : Sheet) (options : EvalOptions) (formula : List Char) :
    Resolving Binary64 :=
  evaluateWithin sheet options (fun _ => fail .circularReference) sheet.levels formula

/-- The numeric expression of a formula, without its marker. -/
def resolve (sheet : Sheet) (options : EvalOptions) (formula : List Char) :
    Resolving (List Char) :=
  resolveWith sheet options (evaluate sheet options) formula

/-- Why a reference counts as zero, in words. -/
def Degradation.message : Degradation → String
  | .undecodable => "address does not decode to a cell, using 0"
  | .rowOutOfBounds row rows =>
      "row " ++ toString row ++ " out of bounds (" ++ toString rows ++ " rows), using 0"
  | .columnMissing column row =>
      "column " ++ toString column ++ " not present in row " ++ toString row ++ ", using 0"
  | .formulaFailed error => "referenced formula failed (" ++ error.message ++ "), using 0"
  | .notANumber text => "'" ++ String.ofList text ++ "' is not a number, using 0"

end FormulaSheet
