import FormulaSheet.Text.Blank

/-!
# Tokens of a numeric expression

A numeric expression consists of numbers, the four binary operators, parentheses and white
space. The text as a whole may hold any white space (`isExpressionText`), but only space, tab,
line feed, form feed and carriage return separate tokens; a character of another kind becomes a
`stray` token, which stands for the first byte of its encoding.
-/

namespace FormulaSheet
namespace Expression

open Text

/-- The four binary operators. -/
inductive Operator
  | add
  | sub
  | mul
  | div
  deriving DecidableEq

/-- Multiplication and division bind more tightly than addition and subtraction. -/
def Operator.precedence : Operator → Nat
  | .add => 1
  | .sub => 1
  | .mul => 2
  | .div => 2

def Operator.symbol : Operator → Char
  | .add => '+'
  | .sub => '-'
  | .mul => '*'
  | .div => '/'

def Operator.ofChar? : Char → Option Operator
  | '+' => some .add
  | '-' => some .sub
  | '*' => some .mul
  | '/' => some .div
  | _ => none

/-- The smallest parts of an expression. -/
inductive Token
  /-- A run of digits and points, which need not denote a number. -/
  | number (literal : List Char)
  | operator (op : Operator)
  | openParen
  | closeParen
  /-- A character without a place in an expression, shown as the first byte of its encoding. -/
  | stray (c : Char)
  deriving DecidableEq

def isNumberChar (c : Char) : Bool :=
  c.isDigit || c = '.'

def isSeparator (c : Char) : Bool :=
  c = ' ' || c = '\t' || c = '\n' || c = '\x0c' || c = '\r'

def isExpressionChar (c : Char) : Bool :=
  isNumberChar c || (Operator.ofChar? c).isSome || c = '(' || c = ')' || isBlank c

/-- A text that may be an expression: it is not empty and holds no foreign character. -/
def isExpressionText (cs : List Char) : Bool :=
  !cs.isEmpty && cs.all isExpressionChar

/-- The first byte of the encoding of a character, itself read as a character. -/
def leadByte (c : Char) : Char :=
  if c.toNat < 0x80 then c
  else if c.toNat < 0x800 then Char.ofNat (0xC0 + c.toNat / 0x40)
  else if c.toNat < 0x10000 then Char.ofNat (0xE0 + c.toNat / 0x1000)
  else Char.ofNat (0xF0 + c.toNat / 0x40000)

def Token.ofChar (c : Char) : Token :=
  if c = '(' then .openParen
  else if c = ')' then .closeParen
  else
    match Operator.ofChar? c with
    | some op => .operator op
    | none => .stray (leadByte c)

/-- The number token of a run, given last character first; an empty run makes no token. -/
def flushNumber (run : List Char) (tokens : List Token) : List Token :=
  if run = [] then tokens else .number run.reverse :: tokens

/-- The tokens of a text that follows a run of number characters, given last character first. -/
def tokensAfter (run : List Char) : List Char → List Token
  | [] => flushNumber run []
  | c :: cs =>
      if isNumberChar c then tokensAfter (c :: run) cs
      else if isSeparator c then flushNumber run (tokensAfter [] cs)
      else flushNumber run (Token.ofChar c :: tokensAfter [] cs)

/-- The tokens of a text, in order. -/
def tokens (cs : List Char) : List Token :=
  tokensAfter [] cs

end Expression
end FormulaSheet
