import FormulaSheet.Storage.Format
import FormulaSheet.Text.Numeral

/-!
# Command-line options

Arguments are read from left to right. A short option is a letter behind a dash, and several
letters can share one; a long option is a name behind two dashes. Some options take a value: the
rest of a short option, what follows `=` in a long one, or the next argument, which then may not
look like an option. Two dashes alone end the options; any other argument is the input path. The
requests for the version and for help are answered as soon as they are met.

Every option but the one for more messages can be given once. `CommandRequest.ofArguments` gives
what was asked for, or the first misuse.
-/

namespace FormulaSheet

/-- What the command line asks of an evaluation. -/
structure CommandOptions where
  /-- The path of the sheet; a single dash or none stands for standard input. -/
  input : Option String := none
  output : Option String := none
  format : Option SheetFormat := none
  pretty : Bool := false
  maxDepth : Option Nat := none
  config : Option String := none
  /-- A formula to evaluate in place of the sheet. -/
  formula : Option String := none
  explain : Bool := false
  strict : Bool := false
  verbose : Nat := 0
  quiet : Bool := false

/-- What the command line asks for. -/
inductive CommandRequest
  | evaluate (options : CommandOptions)
  | version
  | help

/-- How the command line is misused. -/
inductive UsageFault
  | unexpectedArgument (argument : String)
  | missingValue (option : String)
  | unexpectedValue (option : String)
  | repeated (option : String)
  | invalidValue (option value : String)
  | conflict (option other : String)
  deriving DecidableEq

/-- The wording of a fault in short, without the hints and the usage line of a full report. -/
def UsageFault.message : UsageFault → String
  | .unexpectedArgument argument => "unexpected argument '" ++ argument ++ "'"
  | .missingValue option => "a value is required for '" ++ option ++ "'"
  | .unexpectedValue option => "the argument '" ++ option ++ "' takes no value"
  | .repeated option => "the argument '" ++ option ++ "' cannot be used multiple times"
  | .invalidValue option value => "invalid value '" ++ value ++ "' for '" ++ option ++ "'"
  | .conflict option other =>
      "the argument '" ++ option ++ "' cannot be used with '" ++ other ++ "'"

/-- The options that take a value. -/
inductive ValueOption
  | output
  | format
  | maxDepth
  | config
  | formula
  deriving DecidableEq

/-- The options that take none. -/
inductive FlagOption
  | pretty
  | explain
  | strict
  | verbose
  | quiet
  | version
  | help
  deriving DecidableEq

/-- Any option. -/
inductive CommandOption
  | value (option : ValueOption)
  | flag (option : FlagOption)

def ValueOption.name : ValueOption → String
  | .output => "output"
  | .format => "format"
  | .maxDepth => "max-depth"
  | .config => "config"
  | .formula => "expr"

def FlagOption.name : FlagOption → String
  | .pretty => "pretty"
  | .explain => "explain"
  | .strict => "strict"
  | .verbose => "verbose"
  | .quiet => "quiet"
  | .version => "version"
  | .help => "help"

namespace CommandOption

def all : List CommandOption :=
  [.value .output, .value .format, .value .maxDepth, .value .config, .value .formula,
    .flag .pretty, .flag .explain, .flag .strict, .flag .verbose, .flag .quiet, .flag .version,
    .flag .help]

def name : CommandOption → String
  | .value option => option.name
  | .flag option => option.name

def ofName? (long : String) : Option CommandOption :=
  all.find? fun option => option.name = long

def ofLetter? : Char → Option CommandOption
  | 'o' => some (.value .output)
  | 'f' => some (.value .format)
  | 'e' => some (.value .formula)
  | 'v' => some (.flag .verbose)
  | 'q' => some (.flag .quiet)
  | 'V' => some (.flag .version)
  | 'h' => some (.flag .help)
  | _ => none

end CommandOption

/-- A limit on nested formulas: a number of 64 bits that is not zero, perhaps with a plus. -/
def depthOfText? (text : String) : Option Nat :=
  let digits :=
    match text.toList with
    | '+' :: digits => digits
    | digits => digits
  (Text.word64? digits).filter (· ≠ 0)

/-- What reading an option leads to: more options, or an answer at once. -/
inductive OptionStep
  | options (options : CommandOptions)
  | answer (request : CommandRequest)

namespace CommandOptions

def once {α : Type} (option : ValueOption) (given : Option α) (value : String)
    (read : String → Option α) : Except UsageFault (Option α) :=
  match given, read value with
  | some _, _ => .error (.repeated ("--" ++ option.name))
  | none, none => .error (.invalidValue ("--" ++ option.name) value)
  | none, some read => .ok (some read)

def path? (value : String) : Option String :=
  if value.isEmpty then none else some value

def assign (options : CommandOptions) (option : ValueOption) (value : String) :
    Except UsageFault CommandOptions :=
  match option with
  | .output => (once option options.output value path?).map ({ options with output := · })
  | .format =>
      (once option options.format value fun name => (SheetFormat.ofName name).toOption).map
        ({ options with format := · })
  | .maxDepth =>
      (once option options.maxDepth value depthOfText?).map ({ options with maxDepth := · })
  | .config => (once option options.config value path?).map ({ options with config := · })
  | .formula => (once option options.formula value some).map ({ options with formula := · })

def switch (option : FlagOption) (given : Bool) (options : CommandOptions) :
    Except UsageFault OptionStep :=
  if given then .error (.repeated ("--" ++ option.name)) else .ok (.options options)

/-- Set an option that takes no value. -/
def set (options : CommandOptions) (option : FlagOption) : Except UsageFault OptionStep :=
  match option with
  | .pretty => switch option options.pretty { options with pretty := true }
  | .explain => switch option options.explain { options with explain := true }
  | .strict => switch option options.strict { options with strict := true }
  | .quiet => switch option options.quiet { options with quiet := true }
  | .verbose => .ok (.options { options with verbose := options.verbose + 1 })
  | .version => .ok (.answer .version)
  | .help => .ok (.answer .help)

/-- Take an argument that is no option: the input path. -/
def takeInput (options : CommandOptions) (argument : String) :
    Except UsageFault CommandOptions :=
  match options.input, path? argument with
  | some _, _ => .error (.unexpectedArgument argument)
  | none, none => .error (.invalidValue "input" argument)
  | none, some path => .ok { options with input := some path }

/-- Take arguments of which none is an option. -/
def takeInputs (options : CommandOptions) : List String → Except UsageFault CommandOptions
  | [] => .ok options
  | argument :: rest => do takeInputs (← options.takeInput argument) rest

def check (options : CommandOptions) : Except UsageFault CommandRequest :=
  if options.quiet = true ∧ options.verbose ≠ 0 then .error (.conflict "--quiet" "--verbose")
  else .ok (.evaluate options)

end CommandOptions

/-- Where the reader stands behind an argument that is an option. -/
inductive ArgumentEnd
  /-- The argument is complete. -/
  | complete (step : OptionStep)
  /-- The next argument is the value of an option. -/
  | awaits (option : ValueOption) (options : CommandOptions)

/-- The value behind the letter of an option, without the equals sign that may come first. -/
def attachedValue : List Char → String
  | '=' :: cs => String.ofList cs
  | cs => String.ofList cs

def readLetters (options : CommandOptions) : List Char → Except UsageFault ArgumentEnd
  | [] => .ok (.complete (.options options))
  | c :: rest =>
      match CommandOption.ofLetter? c with
      | none => .error (.unexpectedArgument (String.ofList ['-', c]))
      | some (.value option) =>
          if rest = [] then .ok (.awaits option options)
          else do .ok (.complete (.options (← options.assign option (attachedValue rest))))
      | some (.flag option) => do
          match ← options.set option with
          | .answer request => .ok (.complete (.answer request))
          | .options options => readLetters options rest

/-- Read the name of an argument behind its two dashes, and the value behind an equals sign. -/
def readLong (options : CommandOptions) (body : List Char) : Except UsageFault ArgumentEnd :=
  let long := String.ofList (body.takeWhile (· ≠ '='))
  let value? : Option String :=
    match body.dropWhile (· ≠ '=') with
    | _ :: value => some (String.ofList value)
    | [] => none
  match CommandOption.ofName? long, value? with
  | none, _ => .error (.unexpectedArgument ("--" ++ long))
  | some (.value option), none => .ok (.awaits option options)
  | some (.value option), some value => do
      .ok (.complete (.options (← options.assign option value)))
  | some (.flag option), none => do .ok (.complete (← options.set option))
  | some (.flag _), some _ => .error (.unexpectedValue ("--" ++ long))

/-- The argument is an option: it begins with a dash and is more than that. -/
def looksLikeOption (argument : String) : Bool :=
  match argument.toList with
  | '-' :: _ :: _ => true
  | _ => false

def readOption (options : CommandOptions) (argument : String) :
    Except UsageFault ArgumentEnd :=
  match argument.toList with
  | '-' :: '-' :: body => readLong options body
  | _ :: letters => readLetters options letters
  | [] => .ok (.complete (.options options))

namespace CommandRequest

/-- What arguments ask for behind options that were read before them. -/
def ofArgumentsAfter (options : CommandOptions) : List String → Except UsageFault CommandRequest
  | [] => options.check
  | argument :: rest => do
      if argument = "--" then (← options.takeInputs rest).check
      else if looksLikeOption argument then
        match ← readOption options argument with
        | .complete (.answer request) => .ok request
        | .complete (.options options) => ofArgumentsAfter options rest
        | .awaits option options =>
            match rest with
            | [] => .error (.missingValue ("--" ++ option.name))
            | value :: rest =>
                if looksLikeOption value then .error (.missingValue ("--" ++ option.name))
                else do ofArgumentsAfter (← options.assign option value) rest
      else ofArgumentsAfter (← options.takeInput argument) rest

def ofArguments (arguments : List String) : Except UsageFault CommandRequest :=
  ofArgumentsAfter {} arguments

end CommandRequest

end FormulaSheet
