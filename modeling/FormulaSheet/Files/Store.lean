import FormulaSheet.Files.Error
import FormulaSheet.Files.Path

/-!
# Files

A store holds the content of files by their places. A place is the list of names that leads to
it from the root; every shorter list of names that leads towards a file, a listed directory or
the working directory is a directory. Paths are looked up from the working directory.

* `Store.locate`: the place of a path, if all that comes before its last name is a directory.
* `Store.size`, `Store.read`, `Store.write`: the operations on files.
-/

namespace FormulaSheet

abbrev Place : Type := List String

/-- What a file holds: some bytes, or so many bytes that are zero. -/
inductive Content
  | bytes (data : ByteArray)
  | zeros (count : Nat)

instance : DecidableEq Content
  | .bytes a, .bytes b =>
      match ByteArray.instDecidableEq a b with
      | isTrue h => isTrue (congrArg Content.bytes h)
      | isFalse h => isFalse fun heq => h (Content.bytes.inj heq)
  | .zeros m, .zeros n =>
      match Nat.decEq m n with
      | isTrue h => isTrue (congrArg Content.zeros h)
      | isFalse h => isFalse fun heq => h (Content.zeros.inj heq)
  | .bytes _, .zeros _ => isFalse nofun
  | .zeros _, .bytes _ => isFalse nofun

namespace Content

def size : Content → Nat
  | .bytes data => data.size
  | .zeros count => count

def pushZeros : Nat → ByteArray → ByteArray
  | 0, data => data
  | count + 1, data => pushZeros count (data.push 0)

def toBytes : Content → ByteArray
  | .bytes data => data
  | .zeros count => pushZeros count (ByteArray.emptyWithCapacity count)

def ofText (text : String) : Content :=
  .bytes text.toUTF8

def text? (content : Content) : Except FileFault String :=
  match String.fromUTF8? content.toBytes with
  | some text => .ok text
  | none => .error .notUtf8

end Content

/-- The files there are, and the place from which paths are looked up. -/
structure Store where
  workingDirectory : Place := []
  /-- Directories that are there although no file need be in them. -/
  directories : List Place := []
  files : List (Place × Content) := []

namespace Store

/-- What there is at a place. -/
inductive Kind
  | file (content : Content)
  | directory
  | missing

def anchors (store : Store) : List Place :=
  store.workingDirectory :: (store.directories ++ store.files.map Prod.fst)

def kindAt (store : Store) (place : Place) : Kind :=
  match store.files.lookup place with
  | some content => .file content
  | none => if store.anchors.any place.isPrefixOf then .directory else .missing

def requireDirectory (store : Store) (place : Place) : Except FileFault Unit :=
  match store.kindAt place with
  | .directory => .ok ()
  | .file _ => .error .notADirectory
  | .missing => .error .notFound

def placeIn (directory : Place) (name : String) : Place :=
  if name = Path.selfName then directory
  else if name = Path.parentName then directory.dropLast
  else directory ++ [name]

/-- The place that names lead to from another. Each name is looked up in a directory, which has to
be there, and has to be one that a directory can hold. -/
def walk (store : Store) (place : Place) : List String → Except FileFault Place
  | [] => .ok place
  | name :: rest => do
      store.requireDirectory place
      if Path.maxNameBytes < name.utf8ByteSize then .error .nameTooLong
      else store.walk (placeIn place name) rest

def requirePath (path : String) : Except FileFault Unit :=
  if path.toList.contains '\x00' then .error .nulInName
  else if path.isEmpty then .error .notFound
  else if Path.maxBytes < path.utf8ByteSize then .error .nameTooLong
  else .ok ()

def start (store : Store) (path : String) : Place :=
  if Path.isAbsolute path then [] else store.workingDirectory

def locate (store : Store) (path : String) : Except FileFault Place := do
  requirePath path
  store.walk (store.start path) (Path.names path)

/-- The places on the way from a place along names, whatever is there. -/
def placesAlong (place : Place) : List String → List Place
  | [] => [place]
  | name :: rest => place :: placesAlong (placeIn place name) rest

/-- The places on the way of a path, whatever is there. -/
def waypoints (store : Store) (path : String) : List Place :=
  placesAlong (store.start path) (Path.names path)

/-- What there is at a path. A slash at the end does not lead to a file. -/
def find (store : Store) (path : String) : Except FileFault Kind := do
  match store.kindAt (← store.locate path) with
  | .missing => .error .notFound
  | .directory => .ok .directory
  | .file content =>
      if Path.endsWithSlash path then .error .notADirectory else .ok (.file content)

def exists? (store : Store) (path : String) : Bool :=
  (store.find path).toBool

/-- The size of what there is at a path. A directory counts as small. -/
def size (store : Store) (path : String) : Except FileFault Nat := do
  match ← store.find path with
  | .file content => .ok content.size
  | _ => .ok 0

def read (store : Store) (path : String) : Except FileFault Content := do
  match ← store.find path with
  | .file content => .ok content
  | _ => .error .isADirectory

/-- The place at which a file can be written for a path. A slash at the end asks for a directory
before the last name is looked up. -/
def target (store : Store) (path : String) : Except FileFault Place := do
  if Path.endsWithSlash path then
    requirePath path
    store.requireDirectory (← store.walk (store.start path) (Path.names path).dropLast)
    .error .isADirectory
  else
    let place ← store.locate path
    match store.kindAt place with
    | .directory => .error .isADirectory
    | _ => .ok place

def put (store : Store) (place : Place) (content : Content) : Store :=
  { store with files := (place, content) :: store.files.filter (·.1 ≠ place) }

def write (store : Store) (path : String) (content : Content) : Except FileFault Store := do
  .ok (store.put (← store.target path) content)

end Store

end FormulaSheet
