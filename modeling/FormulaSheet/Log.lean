/-!
# Log

Records have a level, a target that tells where they come from, and a text. A logger lets the
records up to its level through; how much that is, is chosen by the number of times that more
was asked for, or by asking for errors alone.

* `Level.ofVerbosity`: the level that was asked for.
* `Logger`: a logger that is installed once and whose level can change.
-/

namespace FormulaSheet

/-- How important a record is, the most important first. -/
inductive Level
  | error
  | warn
  | info
  | debug
  | trace
  deriving DecidableEq

namespace Level

/-- The place of a level among the levels; more important ones have smaller numbers. -/
def rank : Level → Nat
  | .error => 1
  | .warn => 2
  | .info => 3
  | .debug => 4
  | .trace => 5

def tag : Level → String
  | .error => "error"
  | .warn => "warning"
  | .info => "info"
  | .debug => "debug"
  | .trace => "trace"

/-- The level for a number of requests for more, or for errors alone. -/
def ofVerbosity (verbose : Nat) (quiet : Bool) : Level :=
  if quiet then .error
  else
    match verbose with
    | 0 => .warn
    | 1 => .info
    | 2 => .debug
    | _ => .trace

end Level

/-- One message. -/
structure LogRecord where
  level : Level
  target : String
  text : String
  deriving DecidableEq

def LogRecord.line (record : LogRecord) : String :=
  "[" ++ record.level.tag ++ "] " ++ record.target ++ ": " ++ record.text ++ "\n"

/-- Records of this level are among those that are wanted up to a greatest level; without a
greatest level none are. -/
def Level.isWithin (level : Level) (greatest : Option Level) : Bool :=
  greatest.any fun greatest => level.rank ≤ greatest.rank

/-- A logger as the program sees it. -/
structure Logger where
  /-- Records go to the logger, not to nothing. -/
  installed : Bool := false
  /-- The greatest level that is let through; none at first. -/
  greatest : Option Level := none

namespace Logger

/-- Install the logger, if that has not been done, and set its level. -/
def init (_ : Logger) (level : Level) : Logger where
  installed := true
  greatest := some level

def isEnabled (logger : Logger) (level : Level) : Bool :=
  logger.installed && level.isWithin logger.greatest

def write (logger : Logger) (record : LogRecord) : String :=
  if logger.isEnabled record.level then record.line else ""

/-- What is written for a record that is only handed on if its level is wanted. -/
def log (logger : Logger) (record : LogRecord) : String :=
  if record.level.isWithin logger.greatest then logger.write record else ""

end Logger

end FormulaSheet
