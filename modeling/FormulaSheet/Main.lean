import FormulaSheet.CommandLine.Session

/-!
# The program

The outer layer of the program: it brings the files that a run may use into a store, lets
`FormulaSheet.run` do the work, and carries out what that has written.
-/

namespace FormulaSheet

def absolutePath (place : Place) : String :=
  "/" ++ String.intercalate "/" place

def isDirectory (path : String) : IO Bool := do
  try
    let real ← IO.FS.realPath path
    real.isDir
  catch _ => pure false

def readFile? (path : String) : IO (Option ByteArray) := do
  try
    let data ← IO.FS.readBinFile path
    pure (some data)
  catch _ => pure none

/-- The store with the directory or file at a place, if there is one. -/
def addPlace (store : Store) (place : Place) : IO Store := do
  if ← isDirectory (absolutePath place) then
    pure { store with directories := place :: store.directories }
  else
    match ← readFile? (absolutePath place) with
    | some data => pure (store.put place (.bytes data))
    | none => pure store

def addPath (store : Store) (path : String) : IO Store :=
  (store.waypoints path).foldlM addPlace store

def usedPaths (options : CommandOptions) (directories : UserDirectories) : List String :=
  options.config.getD (Settings.userPath directories) ::
    (options.input.toList ++ options.output.toList)

/-- All bytes of a stream behind those that are read already. -/
partial def readAll (stream : IO.FS.Stream) (before : ByteArray) : IO ByteArray := do
  let data ← stream.read 65536
  if data.isEmpty then pure before else readAll stream (before ++ data)

/-- Standard input, unless the run has no use for it. -/
def readStdin (options : CommandOptions) : IO Content := do
  if options.input = some "-" ∨ (options.input = none ∧ options.formula = none) then
    let data ← readAll (← IO.getStdin) ByteArray.empty
    pure (.bytes data)
  else
    pure (.zeros 0)

/-- Write the output file if the run has changed it. -/
def writeOutput (options : CommandOptions) (before after : Store) : IO Unit := do
  if let some path := options.output then
    if let .ok content := after.read path then
      unless (before.read path).toOption = some content do
        IO.FS.writeBinFile path content.toBytes

/-- Write the two standard streams of a report, and give its exit code. -/
def present (report : Report) : IO UInt32 := do
  IO.print report.stdout
  IO.eprint report.stderr
  pure (UInt32.ofNat report.exitCode)

def carryOut (options : CommandOptions) : IO UInt32 := do
  let current ← IO.currentDir
  let home ← IO.getEnv "HOME"
  let config ← IO.getEnv "XDG_CONFIG_HOME"
  let directories : UserDirectories := { home := home.getD "/", config := config }
  let store ← (usedPaths options directories).foldlM addPath
    { workingDirectory := Path.names current.toString }
  let stdin ← readStdin options
  let report := runEvaluation options
    { stdin := stdin, store := store, directories := directories }
  writeOutput options store report.store
  present report

end FormulaSheet

def main (arguments : List String) : IO UInt32 :=
  match FormulaSheet.CommandRequest.ofArguments arguments with
  | .ok (.evaluate options) => FormulaSheet.carryOut options
  | request => FormulaSheet.present (FormulaSheet.answerRequest request {})
