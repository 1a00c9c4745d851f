/-!
# Addresses in a formula

The body of a formula is cut into address tokens and the characters between them. An address
token is a longest run of upper case letters that is followed by a digit, together with the
longest run of digits after it; letters that no digit follows belong to the gap.
-/

namespace FormulaSheet

/-- A part of the body of a formula. -/
inductive Piece
  /-- Characters that belong to no address token. -/
  | gap (text : List Char)
  /-- An address token: a run of letters and a run of digits. -/
  | token (letters digits : List Char)
  deriving DecidableEq

namespace Piece

/-- The piece that ends behind runs of letters and digits, each given last character first: a
token if there are digits, else a gap, and nothing if there are no letters either. -/
def flush (letters digits : List Char) (rest : List Piece) : List Piece :=
  if letters = [] then rest
  else if digits = [] then .gap letters.reverse :: rest
  else .token letters.reverse digits.reverse :: rest

/-- The pieces of a text that follows runs of letters and digits, each given last character
first. Digits are only collected behind letters. -/
def splitAfter (letters digits : List Char) : List Char → List Piece
  | [] => flush letters digits []
  | c :: cs =>
      if c.isUpper = true ∧ digits = [] then splitAfter (c :: letters) [] cs
      else if c.isDigit = true ∧ letters ≠ [] then splitAfter letters (c :: digits) cs
      else if c.isUpper = true then flush letters digits (splitAfter [c] [] cs)
      else flush letters digits (.gap [c] :: splitAfter [] [] cs)

/-- The pieces of a text, in order. -/
def split (cs : List Char) : List Piece :=
  splitAfter [] [] cs

end Piece

end FormulaSheet
