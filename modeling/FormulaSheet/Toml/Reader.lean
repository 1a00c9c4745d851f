import FormulaSheet.Toml.Scalar
import FormulaSheet.Toml.Value

/-!
# Reading TOML documents

A document is read statement by statement; it is refused as a whole if any part is not well
formed. Arrays and inline tables may be nested to less than `nestingLimit` levels.

Loops are given as many turns as could be needed for the length of the text.
-/

namespace FormulaSheet
namespace Toml

/-- Arrays and inline tables are nested to fewer levels than this. -/
def nestingLimit : Nat := 80

def isBareChar (c : Char) : Bool :=
  c.isAlphanum || c = '_' || c = '-'

def name? (cs : List Char) : Option (List Char × List Char) :=
  match cs with
  | '"' :: rest => basicText? (cs.length + 1) [] rest
  | '\'' :: rest => literalText? rest
  | _ =>
      if cs.takeWhile isBareChar = [] then none
      else some (cs.takeWhile isBareChar, cs.dropWhile isBareChar)

/-- A dotted key with white space around its names, in so many turns. -/
def path? : Nat → List Char → Option (Path × List Char)
  | 0, _ => none
  | turns + 1, cs => do
      let (name, rest) ← name? (skipInlineSpace cs)
      match skipInlineSpace rest with
      | '.' :: rest => do
          let (names, rest) ← path? turns rest
          some (name :: names, rest)
      | rest => some ([name], rest)

/-- A key, and the text behind its equals sign. -/
def key? (cs : List Char) : Option (Path × List Char) := do
  let (path, rest) ← path? (cs.length + 1) cs
  if path.length < nestingLimit then some (path, skipInlineSpace (← skipChar? '=' rest)) else none

def word? (word cs : List Char) : Option (List Char) :=
  if word.isPrefixOf cs then some (cs.drop word.length) else none

/-- A number, date or time. -/
def quantity? (cs : List Char) : Option (Value × List Char) :=
  match dateTime? cs with
  | some rest => some (.other, rest)
  | none =>
      match float? cs with
      | some rest => some (.other, rest)
      | none => (integer? cs).map fun (value, rest) => (.integer value, rest)

/-- A value that holds no other values. -/
def scalar? (cs : List Char) : Option (Value × List Char) :=
  match cs with
  | [] => none
  | c :: _ =>
      if c = '"' ∨ c = '\'' then (quotedText? cs).map fun rest => (.other, rest)
      else if c = 't' then (word? "true".toList cs).map fun rest => (.boolean true, rest)
      else if c = 'f' then (word? "false".toList cs).map fun rest => (.boolean false, rest)
      else quantity? cs

mutual

/-- A value at a level of nesting, in so many turns. -/
def value? : Nat → Nat → List Char → Option (Value × List Char)
  | 0, _, _ => none
  | turns + 1, level, cs =>
      match cs with
      | '[' :: rest =>
          if level + 1 < nestingLimit then do
            let (items, rest) ← items? turns (level + 1) [] rest
            some (.array items, rest)
          else none
      | '{' :: rest =>
          if level + 1 < nestingLimit then do
            let (entries, rest) ←
              match skipInlineSpace rest with
              | '}' :: rest => some ([], rest)
              | rest => entries? turns (level + 1) [] rest
            if compatiblePaths (entries.map Prod.fst) then some (.table entries, rest) else none
          else none
      | _ => scalar? cs

/-- The items of an array behind items given last first; a comma may follow the last one. -/
def items? : Nat → Nat → List Value → List Char → Option (List Value × List Char)
  | 0, _, _, _ => none
  | turns + 1, level, before, cs =>
      match skipLines turns cs with
      | ']' :: rest => some (before.reverse, rest)
      | cs => do
          let (item, rest) ← value? turns level cs
          match skipLines turns rest with
          | ']' :: rest => some ((item :: before).reverse, rest)
          | ',' :: rest => items? turns level (item :: before) rest
          | _ => none

/-- The entries of an inline table behind entries given last first; it lies in one line. -/
def entries? : Nat → Nat → List (Path × Value) → List Char →
    Option (List (Path × Value) × List Char)
  | 0, _, _, _ => none
  | turns + 1, level, before, cs => do
      let (path, rest) ← key? cs
      let (value, rest) ← value? turns level rest
      match skipInlineSpace rest with
      | '}' :: rest => some (((path, value) :: before).reverse, rest)
      | ',' :: rest => entries? turns level ((path, value) :: before) rest
      | _ => none

end

def header? (cs : List Char) : Option (Statement × List Char) :=
  match cs with
  | '[' :: rest => do
      let (path, rest) ← path? (rest.length + 1) rest
      some (.arrayHeader path, ← lineEnd? (← skipChar? ']' (← skipChar? ']' rest)))
  | _ => do
      let (path, rest) ← path? (cs.length + 1) cs
      some (.header path, ← lineEnd? (← skipChar? ']' rest))

def assignment? (cs : List Char) : Option (Statement × List Char) := do
  let (path, rest) ← key? cs
  let (value, rest) ← value? (2 * rest.length + 2) 0 rest
  some (.assignment path value, ← lineEnd? rest)

/-- The statements of a text behind statements given last first, in so many turns. -/
def statements? : Nat → List Statement → List Char → Option (List Statement)
  | 0, _, _ => none
  | turns + 1, before, cs =>
      match skipInlineSpace cs with
      | [] => some before.reverse
      | c :: rest =>
          if c = '#' ∨ c = '\n' ∨ c = '\r' then do
            statements? turns before (← lineEnd? (c :: rest))
          else do
            let (statement, rest) ← if c = '[' then header? rest else assignment? (c :: rest)
            statements? turns (statement :: before) rest

def skipByteOrderMark : List Char → List Char
  | '\uFEFF' :: cs => cs
  | cs => cs

def read? (cs : List Char) : Option (List Statement) :=
  statements? (cs.length + 1) [] (skipByteOrderMark cs)

end Toml
end FormulaSheet
