import FormulaSheet.Json.Number

/-!
# JSON strings

A string is written between quotes. The writer escapes the quote, the backslash and the
characters below U+0020, with the short form where there is one. The reader knows every escape,
and joins the two halves of a character that is written as a pair of surrogates.
-/

namespace FormulaSheet
namespace Json

def hexDigit (n : Nat) : Char :=
  Nat.digitChar n

def escapeChar (c : Char) : List Char :=
  if c = '"' then ['\\', '"']
  else if c = '\\' then ['\\', '\\']
  else if c = '\x08' then ['\\', 'b']
  else if c = '\t' then ['\\', 't']
  else if c = '\n' then ['\\', 'n']
  else if c = '\x0c' then ['\\', 'f']
  else if c = '\r' then ['\\', 'r']
  else if c.toNat < 0x20 then
    ['\\', 'u', '0', '0', hexDigit (c.toNat / 16), hexDigit (c.toNat % 16)]
  else [c]

def quoted (text : List Char) : List Char :=
  '"' :: (text.flatMap escapeChar ++ ['"'])

/-- Where the reader is inside a string. -/
inductive StringState
  /-- Between characters. -/
  | plain
  /-- Behind a backslash. -/
  | escape
  /-- In an escape by four hexadecimal digits: how many bytes are still to come, the value so far
  if all were digits, and the leading surrogate that comes before, if there is one. -/
  | hex (missing value : Nat) (valid : Bool) (lead : Option Nat)
  /-- Behind a leading surrogate, where a backslash has to follow. -/
  | lead (surrogate : Nat)
  /-- Behind a leading surrogate and a backslash, where `u` has to follow. -/
  | leadEscape (surrogate : Nat)
  deriving DecidableEq

def hexValue? (c : Char) : Option Nat :=
  if c.isDigit then some (c.toNat - '0'.toNat)
  else if 'a' ≤ c ∧ c ≤ 'f' then some (c.toNat - 'a'.toNat + 10)
  else if 'A' ≤ c ∧ c ≤ 'F' then some (c.toNat - 'A'.toNat + 10)
  else none

def shortEscape? : Char → Option Char
  | '"' => some '"'
  | '\\' => some '\\'
  | '/' => some '/'
  | 'b' => some '\x08'
  | 'f' => some '\x0c'
  | 'n' => some '\n'
  | 'r' => some '\r'
  | 't' => some '\t'
  | _ => none

def byteCount (c : Option Char) : Nat :=
  (c.map Char.utf8Size).getD 1

/-- The state and the character, if one is complete, behind four hexadecimal digits. -/
def endHex (value : Nat) : Option Nat → Except Fault (StringState × Option Char)
  | none =>
      if 0xDC00 ≤ value ∧ value ≤ 0xDFFF then .error .malformed
      else if 0xD800 ≤ value ∧ value ≤ 0xDBFF then .ok (.lead value, none)
      else .ok (.plain, some (Char.ofNat value))
  | some lead =>
      if 0xDC00 ≤ value ∧ value ≤ 0xDFFF then
        .ok (.plain,
          some (Char.ofNat (0x10000 + (lead - 0xD800) * 0x400 + (value - 0xDC00))))
      else .error .malformed

/-- The state and the character, if one is complete, behind one place inside an escape. -/
def stepEscape (c : Option Char) : StringState → Except Fault (StringState × Option Char)
  | .plain => .ok (.plain, c)
  | .escape =>
      if c = some 'u' then .ok (.hex 4 0 true none, none)
      else
        match c.bind shortEscape? with
        | some escaped => .ok (.plain, some escaped)
        | none => .error .malformed
  | .hex missing value valid lead =>
      let digit := c.bind hexValue?
      let value := value * 16 + digit.getD 0
      let valid := valid && digit.isSome
      if byteCount c < missing then .ok (.hex (missing - byteCount c) value valid lead, none)
      else if valid then endHex value lead
      else .error .malformed
  | .lead surrogate =>
      if c = some '\\' then .ok (.leadEscape surrogate, none) else .error .malformed
  | .leadEscape surrogate =>
      if c = some 'u' then .ok (.hex 4 0 true (some surrogate), none) else .error .malformed

/-- A string behind its opening quote and characters given last first. A byte that belongs to no
character makes the string malformed, but only where it is closed. -/
def readStringAfter (state : StringState) (broken : Bool) (before : List Char) :
    Input → Except Fault (List Char × Input)
  | [] => .error .unexpectedEnd
  | c :: rest =>
      if state = .plain then
        if c = some '"' then
          if broken then .error .malformed else .ok (before.reverse, rest)
        else if c = some '\\' then readStringAfter .escape broken before rest
        else
          match c with
          | none => readStringAfter .plain true before rest
          | some d =>
              if d.toNat < 0x20 then .error .malformed
              else readStringAfter .plain broken (d :: before) rest
      else
        match stepEscape c state with
        | .error fault => .error fault
        | .ok (next, none) => readStringAfter next broken before rest
        | .ok (next, some d) => readStringAfter next broken (d :: before) rest

def readString (input : Input) : Except Fault (List Char × Input) :=
  readStringAfter .plain false [] input

end Json
end FormulaSheet
