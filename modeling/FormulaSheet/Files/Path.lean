/-!
# Paths

A path is a text in which slashes separate names; several slashes count as one. The name `.`
leads to where a path is already, and `..` to the directory above. A slash at the end asks for a
directory. The extension of a path is what follows the last point of its last name, unless that
point is the first character.
-/

namespace FormulaSheet
namespace Path

def selfName : String := "."

def parentName : String := ".."

/-- The longest name that a directory can hold, in bytes. -/
def maxNameBytes : Nat := 255

/-- The longest path that leads anywhere, in bytes. -/
def maxBytes : Nat := 4095

/-- What stands between the slashes of a text; `name` holds the characters since the last slash,
last first. -/
def namesAfter (name : List Char) : List Char → List String
  | [] => [String.ofList name.reverse]
  | c :: cs =>
      if c = '/' then String.ofList name.reverse :: namesAfter [] cs
      else namesAfter (c :: name) cs

/-- The names in a path, in order. -/
def names (path : String) : List String :=
  (namesAfter [] path.toList).filter fun name => name ≠ ""

def isAbsolute (path : String) : Bool :=
  path.toList.head? = some '/'

def endsWithSlash (path : String) : Bool :=
  path.toList.getLast? = some '/'

/-- The last name of a path, where `.` does not count, if it does not lead above. -/
def fileName? (path : String) : Option String :=
  ((names path).filter (· ≠ selfName)).getLast?.filter (· ≠ parentName)

/-- The part of a name behind its last point, if there is a point that is not its first
character. -/
def extensionOfName? (name : String) : Option String :=
  let reversed := name.toList.reverse
  match reversed.dropWhile (· ≠ '.') with
  | _ :: _ :: _ => some (String.ofList (reversed.takeWhile (· ≠ '.')).reverse)
  | _ => none

def extension? (path : String) : Option String :=
  (fileName? path).bind extensionOfName?

def below (directory : String) (relative : String) : String :=
  if directory.toList.getLast? = some '/' then directory ++ relative
  else directory ++ "/" ++ relative

end Path
end FormulaSheet
