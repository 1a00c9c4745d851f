import FormulaSheet.Json.Quoted
import FormulaSheet.Sheet.Basic
import FormulaSheet.Text.Encoded

/-!
# Reading sheets from JSON

A sheet is an array of rows; a row is an object from column numbers, as strings, to texts, or
`null` for a row without texts. The last of several members for one column counts.

The loops over rows and members are given as many turns as the text has places, which is more
than they can take, since each turn reads at least one.
-/

namespace FormulaSheet
namespace Json

open Text

/-- The fault of a value where one of its kind does not belong. An array or object is refused at
its opening bracket; any other value is read first, and may be malformed itself. -/
def refuseValue : Input → Fault
  | [] => .unexpectedEnd
  | c :: rest =>
      let after {α : Type} : Except Fault α → Fault
        | .error fault => fault
        | .ok _ => .wrongValue
      if c = some 'n' then after (skipWord "ull".toList rest)
      else if c = some 't' then after (skipWord "rue".toList rest)
      else if c = some 'f' then after (skipWord "alse".toList rest)
      else if c = some '-' ∨ isDigit c = true then after (readNumber (c :: rest))
      else if c = some '"' then after (readString rest)
      else if c = some '[' ∨ c = some '{' then .wrongValue
      else .malformed

def readKey (input : Input) : Except Fault (Nat × Input) :=
  match input with
  | [] => .error .malformed
  | c :: _ =>
      if c = some '-' ∨ isDigit c = true then
        match readNumber input with
        | .error fault => .error fault
        | .ok (none, _) => .error .wrongValue
        | .ok (some column, some '"' :: rest) => .ok (column, rest)
        | .ok (some _, _) => .error .malformed
      else
        .error .malformed

def skipColon (input : Input) : Except Fault Input :=
  match skipGaps input with
  | [] => .error .unexpectedEnd
  | some ':' :: rest => .ok rest
  | _ => .error .malformed

def readText (input : Input) : Except Fault (String × Input) :=
  match skipGaps input with
  | some '"' :: rest => (readString rest).map fun (text, rest) => (String.ofList text, rest)
  | value => .error (refuseValue value)

def readMember (input : Input) : Except Fault (Cell × Input) := do
  let (column, afterKey) ← readKey input
  let (text, rest) ← readText (← skipColon afterKey)
  .ok ((column, text), rest)

/-- The place of the next member, behind the opening quote of its key; none at the end of the
object. Every member but the first follows a comma. -/
def nextMember (first : Bool) (input : Input) : Except Fault (Bool × Input) :=
  match skipGaps input with
  | [] => .error .unexpectedEnd
  | c :: rest =>
      if c = some '}' then .ok (false, rest)
      else if first then
        if c = some '"' then .ok (true, rest) else .error .malformed
      else if c = some ',' then
        match skipGaps rest with
        | [] => .error .unexpectedEnd
        | some '"' :: rest => .ok (true, rest)
        | _ => .error .malformed
      else .error .malformed

/-- The rest of an object behind members that make up a row, in so many turns. -/
def readMembers : Nat → Bool → Row → Input → Except Fault (Row × Input)
  | 0, _, _, _ => .error .unexpectedEnd
  | turns + 1, first, row, input => do
      match ← nextMember first input with
      | (false, rest) => .ok (row, rest)
      | (true, rest) =>
          let (cell, rest) ← readMember rest
          readMembers turns false (row.insert cell.1 cell.2) rest

/-- A row, in so many turns. -/
def readRow (turns : Nat) (input : Input) : Except Fault (Row × Input) :=
  match skipGaps input with
  | some 'n' :: rest => (skipWord "ull".toList rest).map fun rest => (Row.empty, rest)
  | some '{' :: rest => readMembers turns true Row.empty rest
  | value => .error (refuseValue value)

/-- The place of the next row; none at the end of the array. Every row but the first follows a
comma. -/
def nextRow (first : Bool) (input : Input) : Except Fault (Bool × Input) :=
  match skipGaps input with
  | [] => .error .unexpectedEnd
  | c :: rest =>
      if c = some ']' then .ok (false, rest)
      else if first then .ok (true, c :: rest)
      else if c = some ',' then
        match skipGaps rest with
        | [] => .error .unexpectedEnd
        | some ']' :: _ => .error .malformed
        | value => .ok (true, value)
      else .error .malformed

/-- The rest of an array behind rows given last first, in so many turns. -/
def readRows : Nat → Bool → List Row → Input → Except Fault (List Row × Input)
  | 0, _, _, _ => .error .unexpectedEnd
  | turns + 1, first, before, input => do
      match ← nextRow first input with
      | (false, rest) => .ok (before.reverse, rest)
      | (true, rest) =>
          let (row, rest) ← readRow turns rest
          readRows turns false (row :: before) rest

/-- The sheet of a text, which may have white space around it and nothing else. -/
def read (input : Input) : Except Fault Sheet := do
  match skipGaps input with
  | some '[' :: rest =>
      let (rows, rest) ← readRows (rest.length + 1) true [] rest
      if skipGaps rest = [] then .ok ⟨rows⟩ else .error .malformed
  | value => .error (refuseValue value)

/-- A text that is not empty and whose first byte begins neither white space nor a value is
malformed, whatever comes after. -/
def isRefusedAtOnce (data : ByteArray) : Bool :=
  (data.data[0]?).any fun byte =>
    !(" \t\n\r[\x7b\"-0123456789tfn".toList.any fun c => c.toNat = byte.toNat)

def readBytes (data : ByteArray) : Except Fault Sheet :=
  if isRefusedAtOnce data then .error .malformed else read (decode data)

end Json
end FormulaSheet
