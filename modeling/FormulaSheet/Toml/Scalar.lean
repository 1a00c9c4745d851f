import FormulaSheet.Binary64.Literal
import FormulaSheet.Text.Numeral

/-!
# Scalars of TOML

White space, comments, quoted texts, numbers, dates and times. Each reader takes what it can from
the front of a text and gives it with the text that follows, or nothing if the front of the text
is not of its kind.
-/

namespace FormulaSheet
namespace Toml

open Text

def isInlineSpace (c : Char) : Bool :=
  c = ' ' || c = '\t'

def skipInlineSpace (cs : List Char) : List Char :=
  cs.dropWhile isInlineSpace

def lineBreak? : List Char → Option (List Char)
  | '\n' :: cs => some cs
  | '\r' :: '\n' :: cs => some cs
  | _ => none

/-- A character that comments and texts hold as it stands: no control character but the tab. -/
def isTextChar (c : Char) : Bool :=
  c = '\t' || (0x20 ≤ c.toNat && c.toNat ≠ 0x7F)

/-- The text after a comment, if there is one. -/
def skipComment : List Char → List Char
  | '#' :: cs => cs.dropWhile isTextChar
  | cs => cs

/-- The text after the rest of a line that holds no more than white space and a comment. -/
def lineEnd? (cs : List Char) : Option (List Char) :=
  match skipComment (skipInlineSpace cs) with
  | [] => some []
  | rest => lineBreak? rest

/-- The text from the first place that is no white space, comment or line break. -/
def skipLines : Nat → List Char → List Char
  | 0, cs => cs
  | turns + 1, cs =>
      let rest := skipComment (skipInlineSpace cs)
      match lineBreak? rest with
      | some rest => skipLines turns rest
      | none => rest

/-! ## Texts -/

def hexValue? (c : Char) : Option Nat :=
  if c.isDigit then some (digitValue c)
  else if 'a' ≤ c.toLower ∧ c.toLower ≤ 'f' then some (c.toLower.toNat - 'a'.toNat + 10)
  else none

/-- The character of a code point in so many hexadecimal digits, and the text after them. -/
def codePoint? (digits : Nat) (cs : List Char) : Option (Char × List Char) := do
  let front := cs.take digits
  if front.length < digits then none
  let values ← front.mapM hexValue?
  let value := values.foldl (fun value digit => 16 * value + digit) 0
  if Nat.isValidChar value then some (Char.ofNat value, cs.drop digits) else none

/-- The character of an escape behind its backslash, and the text after it. -/
def escape? : List Char → Option (Char × List Char)
  | 'b' :: cs => some ('\x08', cs)
  | 't' :: cs => some ('\t', cs)
  | 'n' :: cs => some ('\n', cs)
  | 'f' :: cs => some ('\x0c', cs)
  | 'r' :: cs => some ('\r', cs)
  | '"' :: cs => some ('"', cs)
  | '\\' :: cs => some ('\\', cs)
  | 'u' :: cs => codePoint? 4 cs
  | 'U' :: cs => codePoint? 8 cs
  | _ => none

/-- A text with escapes behind its opening quote and characters given last first, in so many
turns. -/
def basicText? : Nat → List Char → List Char → Option (List Char × List Char)
  | 0, _, _ => none
  | _, _, [] => none
  | turns + 1, before, c :: cs =>
      if c = '"' then some (before.reverse, cs)
      else if c = '\\' then do
        let (escaped, rest) ← escape? cs
        basicText? turns (escaped :: before) rest
      else if isTextChar c then basicText? turns (c :: before) cs
      else none

def literalText? (cs : List Char) : Option (List Char × List Char) :=
  match cs.dropWhile fun c => isTextChar c && c ≠ '\'' with
  | '\'' :: rest => some (cs.takeWhile fun c => isTextChar c && c ≠ '\'', rest)
  | _ => none

/-- The text after the closing quotes of a text of several lines, at a run of quotes that may
close it: three of them do, and one or two more belong to the text. -/
def closingQuotes? (quote : Char) (cs : List Char) : Option (List Char) :=
  let run := (cs.takeWhile (· = quote)).length
  if run < 3 then none else some (cs.drop (min run 5))

/-- The text after a text of several lines, behind its opening quotes, in so many turns. A
backslash at the end of a line joins it with the next that is not blank. -/
def multilineText? (quote : Char) : Nat → List Char → Option (List Char)
  | 0, _ => none
  | turns + 1, cs =>
      match closingQuotes? quote cs, cs with
      | some rest, _ => some rest
      | none, [] => none
      | none, c :: rest =>
          if c = '\\' ∧ quote = '"' then
            match escape? rest, lineBreak? (skipInlineSpace rest) with
            | some (_, rest), _ => multilineText? quote turns rest
            | none, some rest => multilineText? quote turns rest
            | none, none => none
          else
            match lineBreak? cs with
            | some rest => multilineText? quote turns rest
            | none => if isTextChar c then multilineText? quote turns rest else none

def quotedText? (cs : List Char) : Option (List Char) :=
  match cs with
  | '"' :: '"' :: '"' :: rest => multilineText? '"' (cs.length + 1) rest
  | '\'' :: '\'' :: '\'' :: rest => multilineText? '\'' (cs.length + 1) rest
  | '"' :: rest => (basicText? (cs.length + 1) [] rest).map Prod.snd
  | '\'' :: rest => (literalText? rest).map Prod.snd
  | _ => none

/-! ## Numbers -/

/-- Underscores stand between digits only; told is whether a digit comes before. -/
def underscoresFit (digitBefore : Bool) : List Char → Bool
  | [] => digitBefore
  | c :: cs => if c = '_' then digitBefore && underscoresFit false cs else underscoresFit true cs

/-- A run of digits in which single underscores may stand between two digits: the digits without
the underscores, and the text after the run. -/
def digitRun? (isDigit : Char → Bool) (cs : List Char) : Option (List Char × List Char) :=
  let run := cs.takeWhile fun c => isDigit c || c = '_'
  if underscoresFit false run then
    some (run.filter (· ≠ '_'), cs.dropWhile fun c => isDigit c || c = '_')
  else none

def integerInRange (value : Int) : Bool :=
  -(Int.pow 2 63) ≤ value && value < Int.pow 2 63

def valueInBase (base : Nat) (digits : List Char) : Nat :=
  digits.foldl (fun value c => base * value + (hexValue? c).getD 0) 0

/-- An integer in base sixteen, eight or two behind its mark. -/
def basedInteger? (base : Nat) (cs : List Char) : Option (Int × List Char) := do
  let (digits, rest) ← digitRun? (fun c => (hexValue? c).any (· < base)) cs
  let value : Int := valueInBase base digits
  if integerInRange value then some (value, rest) else none

/-- The whole digits of a number in base ten: a zero alone, or a run that begins with another
digit. -/
def wholeDigits? : List Char → Option (List Char × List Char)
  | '0' :: cs => some (['0'], cs)
  | cs => digitRun? Char.isDigit cs

def integer? (cs : List Char) : Option (Int × List Char) :=
  match cs with
  | '0' :: 'x' :: rest => basedInteger? 16 rest
  | '0' :: 'o' :: rest => basedInteger? 8 rest
  | '0' :: 'b' :: rest => basedInteger? 2 rest
  | _ => do
      let (negative, body) := Binary64.splitSign cs
      let (digits, rest) ← wholeDigits? body
      let value : Int := if negative then -(numeralValue digits : Int) else numeralValue digits
      if integerInRange value then some (value, rest) else none

/-- The digits behind a point, with the point. -/
def floatFraction? : List Char → Option (List Char × List Char)
  | '.' :: cs => (digitRun? Char.isDigit cs).map fun (digits, rest) => ('.' :: digits, rest)
  | _ => none

/-- An exponent, with its mark. -/
def floatExponent? : List Char → Option (List Char × List Char)
  | c :: cs =>
      if c = 'e' ∨ c = 'E' then
        let (negative, body) := Binary64.splitSign cs
        (digitRun? Char.isDigit body).map fun (digits, rest) =>
          ('e' :: (if negative then ['-'] else []) ++ digits, rest)
      else none
  | [] => none

/-- The text after a number with a fraction, an exponent or both, or after `inf` or `nan`. A
number that is too large is none. -/
def float? (cs : List Char) : Option (List Char) :=
  let (negative, body) := Binary64.splitSign cs
  match body with
  | 'i' :: 'n' :: 'f' :: rest => some rest
  | 'n' :: 'a' :: 'n' :: rest => some rest
  | _ => do
      let (whole, afterWhole) ← wholeDigits? body
      let (digits, rest) ←
        match floatFraction? afterWhole with
        | some (fraction, afterFraction) =>
            match floatExponent? afterFraction with
            | some (exponent, rest) => some (whole ++ fraction ++ exponent, rest)
            | none => some (whole ++ fraction, afterFraction)
        | none =>
            (floatExponent? afterWhole).map fun (exponent, rest) => (whole ++ exponent, rest)
      let value ← Binary64.decimal? negative digits
      if value = Binary64.infinity false then none else some rest

/-! ## Dates and times -/

/-- A number of exactly so many digits in a range, and the text after it. -/
def fixedDigits? (digits low high : Nat) (cs : List Char) : Option (Nat × List Char) :=
  let front := cs.take digits
  if front.length = digits ∧ front.all Char.isDigit = true ∧ low ≤ numeralValue front ∧
      numeralValue front ≤ high then
    some (numeralValue front, cs.drop digits)
  else none

def skipChar? (c : Char) : List Char → Option (List Char)
  | d :: cs => if d = c then some cs else none
  | [] => none

def lastDay (year month : Nat) : Nat :=
  if month = 2 then
    if year % 4 = 0 ∧ (year % 100 ≠ 0 ∨ year % 400 = 0) then 29 else 28
  else if month = 4 ∨ month = 6 ∨ month = 9 ∨ month = 11 then 30
  else 31

def date? (cs : List Char) : Option (List Char) := do
  let (year, cs) ← fixedDigits? 4 0 9999 cs
  let (month, cs) ← fixedDigits? 2 1 12 (← skipChar? '-' cs)
  let (_, cs) ← fixedDigits? 2 1 (lastDay year month) (← skipChar? '-' cs)
  some cs

/-- The text after the decimal places of a second, if there are any. -/
def skipSecondPlaces : List Char → List Char
  | '.' :: c :: cs => if c.isDigit then cs.dropWhile Char.isDigit else '.' :: c :: cs
  | cs => cs

def time? (cs : List Char) : Option (List Char) := do
  let (_, cs) ← fixedDigits? 2 0 23 cs
  let (_, cs) ← fixedDigits? 2 0 59 (← skipChar? ':' cs)
  let (_, cs) ← fixedDigits? 2 0 60 (← skipChar? ':' cs)
  some (skipSecondPlaces cs)

def offset? : List Char → Option (List Char)
  | c :: cs =>
      if c = 'Z' ∨ c = 'z' then some cs
      else if c = '+' ∨ c = '-' then do
        let (_, cs) ← fixedDigits? 2 0 23 cs
        let (_, cs) ← fixedDigits? 2 0 59 (← skipChar? ':' cs)
        some cs
      else none
  | [] => none

/-- The text after a date, a time, or both with or without an offset. -/
def dateTime? (cs : List Char) : Option (List Char) :=
  match date? cs with
  | none => time? cs
  | some (c :: rest) =>
      if c = 'T' ∨ c = 't' ∨ c = ' ' then
        match time? rest with
        | some rest => some ((offset? rest).getD rest)
        | none => some (c :: rest)
      else some (c :: rest)
  | some [] => some []

end Toml
end FormulaSheet
