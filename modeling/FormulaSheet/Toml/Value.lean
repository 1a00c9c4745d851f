/-!
# TOML documents

A document is a sequence of statements: headers, which name the table that the following
assignments belong to, and assignments of values to keys. A key may be dotted, and is then a path
of names. Of the values that no setting takes (texts, numbers with a fraction, dates and times)
only their presence is kept.
-/

namespace FormulaSheet
namespace Toml

/-- The names of a dotted key, outermost first. -/
abbrev Path : Type := List (List Char)

/-- A value of a document. -/
inductive Value
  | integer (value : Int)
  | boolean (value : Bool)
  /-- A text, a number with a fraction, a date or a time. -/
  | other
  | array (items : List Value)
  /-- An inline table: the values of its keys in the order of writing. -/
  | table (entries : List (Path × Value))

/-- A statement of a document. -/
inductive Statement
  /-- The following assignments belong to this table. -/
  | header (path : Path)
  /-- The following assignments belong to a new table in this array of tables. -/
  | arrayHeader (path : Path)
  | assignment (path : Path) (value : Value)

/-- Two keys can stand in one table: neither path leads to or through the other's value. -/
def Path.compatible (a b : Path) : Bool :=
  !(a.isPrefixOf b || b.isPrefixOf a)

/-- No two of the keys define the same value, and none extends a value that another defines. -/
def compatiblePaths : List Path → Bool
  | [] => true
  | path :: rest => rest.all (Path.compatible path) && compatiblePaths rest

end Toml
end FormulaSheet
