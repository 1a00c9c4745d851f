import FormulaSheet.CommandLine.Options
import FormulaSheet.Document.Basic
import FormulaSheet.Log
import FormulaSheet.Settings.Load

/-!
# One run of the program

A run takes the arguments, standard input and the files, and gives an exit code, what it writes
to the two standard streams, and the files afterwards. It loads the settings, then the sheet,
and either evaluates one formula or writes the evaluated sheet; on request it explains the
formulas that have no value, and fails if there are any.

Messages to standard error come in the order of the steps that cause them; a log record among
them is written if its level was asked for.

Standard input can always be read to its end and the two standard streams can always be written,
and no file is out of reach for want of permission: failures of these kinds are left out.
-/

namespace FormulaSheet

def programVersion : String := "sheetcalc 0.1.0"

/-- The options in short. A full help text would also list the argument and the defaults. -/
def programHelp : String :=
  "Evaluate spreadsheet formulas in a JSON or CSV sheet\n\n" ++
  "Usage: sheetcalc [OPTIONS] [INPUT]\n\n" ++
  "Options:\n" ++
  "  -o, --output <OUTPUT>        Write the evaluated sheet here instead of stdout\n" ++
  "  -f, --format <FORMAT>        Format used for stdin/stdout (json or csv)\n" ++
  "      --pretty                 Pretty-print JSON output\n" ++
  "      --max-depth <MAX_DEPTH>  Fail formulas whose reference chain is deeper than this\n" ++
  "      --config <CONFIG>        Config file\n" ++
  "  -e, --expr <FORMULA>         Evaluate a single formula and print the number\n" ++
  "      --explain                Explain every cell that evaluated to #ERROR on stderr\n" ++
  "      --strict                 Exit with status 2 if any cell evaluated to #ERROR\n" ++
  "  -v, --verbose...             Increase log verbosity\n" ++
  "  -q, --quiet                  Only log errors\n" ++
  "  -h, --help                   Print help\n" ++
  "  -V, --version                Print version\n"

/-- What a run finds around it. -/
structure Surroundings where
  stdin : Content
  store : Store
  directories : UserDirectories

/-- What a run leaves behind. -/
structure Report where
  exitCode : Nat
  stdout : String
  stderr : String
  store : Store

/-- Why a run fails. -/
inductive Failure
  | opening (path : String) (error : StorageError)
  | parsingStdin (error : StorageError)
  | writing (path : String) (error : StorageError)
  | evaluating (formula : String) (error : EvalError)
  | notFinite (formula : String)
  deriving DecidableEq

def Failure.message : Failure → String
  | .opening path error => "Failed to open '" ++ path ++ "': " ++ error.chainMessage
  | .parsingStdin error => "Failed to parse stdin: " ++ error.chainMessage
  | .writing path error => "Failed to write '" ++ path ++ "': " ++ error.chainMessage
  | .evaluating formula error => "Failed to evaluate '" ++ formula ++ "': " ++ error.message
  | .notFinite formula => "'" ++ formula ++ "' evaluated to a non-finite number"

/-- A message to standard error. -/
inductive Notice
  | log (record : LogRecord)
  | line (text : String)

def Notice.text (logger : Logger) : Notice → String
  | .log record => logger.log record
  | .line text => text ++ "\n"

/-- The record of an event of a resolution, if it has one. -/
def Event.notice? : Event → Option Notice
  | .entered _ => none
  | .degraded token cause =>
      some (.log ⟨.debug, "sheetcalc_engine::engine::resolve",
        String.ofList token ++ ": " ++ cause.message⟩)
  | .rewritten formula expression =>
      some (.log ⟨.trace, "sheetcalc_engine::engine::resolve",
        String.ofList formula ++ " => " ++ String.ofList expression⟩)

def historyNotices (history : List Event) : List Notice :=
  history.filterMap Event.notice?

def programNotice (level : Level) (text : String) : Notice :=
  .log ⟨level, "sheetcalc", text⟩

def loadedNotice (document : Document) (path : String) : Notice :=
  .log ⟨.debug, "sheetcalc_core::document::io",
    "loaded " ++ toString document.sheet.length ++ " rows from " ++ path⟩

def evaluationNotices (document : Document) : List Notice :=
  historyNotices (document.sheet.history document.options) ++
    [.log ⟨.info, "sheetcalc_core::document::state",
      "evaluated " ++ toString document.sheet.length ++ " rows (" ++
        toString document.sheet.formulaCount ++ " formulas)"⟩]

def writingNotices (format : SheetFormat) (document : Document) : List Notice :=
  match format with
  | .json => []
  | .csv =>
      (Csv.rowsWithColumnZero document.sheet).map fun row =>
        .log ⟨.warn, "sheetcalc_core::storage::csv",
          "row " ++ toString row ++ ": column 0 has no CSV position, dropping it"⟩

/-- The messages and the result of a step. -/
structure Stage (α : Type) where
  notices : List Notice := []
  result : Except Failure α

def CommandOptions.streamFormat (options : CommandOptions) : SheetFormat :=
  options.format.getD .json

def loadDocument (options : CommandOptions) (surroundings : Surroundings) : Stage Document :=
  match options.input.filter (· ≠ "-") with
  | some path =>
      match Document.openFile surroundings.store path with
      | .ok document => { notices := [loadedNotice document path], result := .ok document }
      | .error error => { result := .error (.opening path error) }
  | none =>
      match options.streamFormat.read surroundings.stdin with
      | .ok sheet => { result := .ok { sheet := sheet } }
      | .error error => { result := .error (.parsingStdin error) }

/-- The sheet that a formula of the command line is evaluated on: none named is an empty one. -/
def loadSheet (options : CommandOptions) (surroundings : Surroundings) : Stage Sheet :=
  if options.input.isNone then { result := .ok {} }
  else
    let loaded := loadDocument options surroundings
    { notices := loaded.notices, result := loaded.result.map Document.sheet }

/-- A formula of the command line; its marker may be left out. -/
def completeFormula (formula : String) : String :=
  let text := Text.trim formula.toList
  String.ofList (if text.head? = some formulaMarker then text else formulaMarker :: text)

def formulaLine (sheet : Sheet) (options : EvalOptions) (formula : String) :
    Except Failure String :=
  match evaluateFormula sheet options formula with
  | .error error => .error (.evaluating formula error)
  | .ok number =>
      match number.numeral? with
      | some text => .ok (text ++ "\n")
      | none => .error (.notFinite formula)

/-- The line that explains why a formula has no value. -/
def explanation (diagnostic : Diagnostic) : Notice :=
  .line (String.ofList diagnostic.cell.text ++ ": " ++ diagnostic.error.message ++ " (" ++
    Text.trimmed diagnostic.formula ++ ")")

/-- What a run has written so far. -/
structure Progress where
  stdout : String := ""
  store : Store
  notices : List Notice := []

def Progress.fail (progress : Progress) (failure : Failure) : Nat × Progress :=
  (1, { progress with
    notices := progress.notices ++ [.line ("Error: " ++ failure.message)] })

def Progress.say (progress : Progress) (notices : List Notice) : Progress :=
  { progress with notices := progress.notices ++ notices }

def runFormula (options : CommandOptions) (limits : EvalOptions) (surroundings : Surroundings)
    (progress : Progress) (given : String) : Nat × Progress :=
  let loaded := loadSheet options surroundings
  let progress := progress.say loaded.notices
  match loaded.result with
  | .error failure => progress.fail failure
  | .ok sheet =>
      let formula := completeFormula given
      let progress := progress.say (historyNotices (formulaOutcome sheet limits formula).history)
      match formulaLine sheet limits formula with
      | .error failure => progress.fail failure
      | .ok line => (0, { progress with stdout := progress.stdout ++ line })

def writeDocument (options : CommandOptions) (pretty : Bool) (document : Document)
    (progress : Progress) : Except Failure Progress :=
  match options.output with
  | some path =>
      match document.saveEvaluated progress.store path pretty, SheetFormat.ofPath path with
      | .error error, _ => .error (.writing path error)
      | _, .error error => .error (.writing path error)
      | .ok store, .ok format =>
          .ok { (progress.say (evaluationNotices document ++ writingNotices format document ++
            [programNotice .info ("wrote " ++ path)])) with store := store }
  | none =>
      let format := options.streamFormat
      .ok { (progress.say (evaluationNotices document ++ writingNotices format document)) with
        stdout := progress.stdout ++ format.write pretty document.evaluated }

/-- Explain the formulas that have no value, if that was asked for. -/
def explainDocument (options : CommandOptions) (document : Document) : List Notice :=
  if options.explain then
    historyNotices (document.sheet.history document.options) ++
      document.diagnostics.map explanation
  else []

/-- The exit code for a document that was written: two in strict mode if some formula has no
value. -/
def CommandOptions.exitCode (options : CommandOptions) (summary : EvalSummary) : Nat :=
  if options.strict = true ∧ summary.errors ≠ 0 then 2 else 0

/-- The messages about the number of formulas that have no value. -/
def summaryNotices (document : Document) : List Notice :=
  historyNotices (document.sheet.history document.options) ++
    if document.summary.errors = 0 then []
    else [programNotice .info
      (toString document.summary.errors ++ " of " ++ toString document.summary.formulas ++
        " formula(s) evaluated to " ++ errorMarker)]

def runSheet (options : CommandOptions) (limits : EvalOptions) (pretty : Bool)
    (surroundings : Surroundings) (progress : Progress) : Nat × Progress :=
  let loaded := loadDocument options surroundings
  let progress := progress.say loaded.notices
  match loaded.result with
  | .error failure => progress.fail failure
  | .ok document =>
      let document := { document with options := limits }
      match writeDocument options pretty document progress with
      | .error failure => progress.fail failure
      | .ok progress =>
          (options.exitCode document.summary,
            progress.say (explainDocument options document ++ summaryNotices document))

/-- The limits on evaluation: those of the command line before those of the settings. -/
def CommandOptions.limits (options : CommandOptions) (settings : Settings) : EvalOptions :=
  if options.maxDepth.isSome then { settings.evalOptions with maxDepth := options.maxDepth }
  else settings.evalOptions

/-- The output is pretty if the command line or the settings want it so. -/
def CommandOptions.prettyWith (options : CommandOptions) (settings : Settings) : Bool :=
  options.pretty || settings.pretty

def runEvaluation (options : CommandOptions) (surroundings : Surroundings) : Report :=
  let (settings, warnings) :=
    Settings.load surroundings.store surroundings.directories options.config
  let limits := options.limits settings
  let progress : Progress :=
    { store := surroundings.store
      notices := warnings.map fun warning => programNotice .warn warning.message }
  let (exitCode, progress) :=
    match options.formula with
    | some formula => runFormula options limits surroundings progress formula
    | none => runSheet options limits (options.prettyWith settings) surroundings progress
  let logger := Logger.init {} (Level.ofVerbosity options.verbose options.quiet)
  { exitCode := exitCode
    stdout := progress.stdout
    stderr := String.join (progress.notices.map (Notice.text logger))
    store := progress.store }

/-- The answer to a command line that asks for no evaluation: the version, help, or how it is
misused. The files stay as they are. -/
def answerRequest (request : Except UsageFault CommandRequest) (store : Store) : Report :=
  match request with
  | .error fault =>
      { exitCode := 2, stdout := "", stderr := "error: " ++ fault.message ++ "\n", store := store }
  | .ok .version =>
      { exitCode := 0, stdout := programVersion ++ "\n", stderr := "", store := store }
  | .ok _ => { exitCode := 0, stdout := programHelp, stderr := "", store := store }

def run (arguments : List String) (surroundings : Surroundings) : Report :=
  match CommandRequest.ofArguments arguments with
  | .ok (.evaluate options) => runEvaluation options surroundings
  | request => answerRequest request surroundings.store

end FormulaSheet
