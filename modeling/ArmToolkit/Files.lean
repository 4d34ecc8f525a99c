import ArmToolkit.Failure
import ArmToolkit.Text.Ascii

/-!
# `Files` — a tree of files

## Contents
- **The tree.** `FileTree` holds the contents of files, and the directories they are in. A place in it is a list of
  names.
- **Paths.** `FileTree.resolve` finds the place that a path names, and `FileTree.writable` one that can be written. A
  NUL ends the path. A single point stays where it is, and two points go up.
- **Files.** `read?`, `write?`, `delete?` and `isFile`.
-/

namespace ArmToolkit

open Text (untilNul)

/-! ## The tree -/

/-- A place in the tree: the names from the working directory on, or from a slash on, which stands for the root. Two
    points in front stand for the directories that the working directory is in. -/
abbrev Place := List String

/-- The place of the root. -/
def rootPlace : Place := ["/"]

/-- The name that goes up. -/
def upName : String := ".."

/-- The directory that a place is in; the root is in itself. -/
def above (p : Place) : Place :=
  if p == rootPlace then p
  else if p.all (· == upName) then p ++ [upName]
  else p.dropLast

/-- **A tree of files.** The working directory, those around it and the root are directories. -/
structure FileTree where
  files : List (Place × String) := []
  directories : List Place := []
  deriving DecidableEq

/-- Why a file cannot be used. -/
inductive FileError
  | notFound | notADirectory | isADirectory | nameTooLong
  deriving DecidableEq

/-- The number that the system gives an error. -/
def FileError.number : FileError → Int
  | notFound => 2
  | notADirectory => 20
  | isADirectory => 21
  | nameTooLong => 36

/-- The failure that an error is. -/
def FileError.failure (e : FileError) : Failure := .ofSystem "" e.number

namespace FileTree

/-- The contents of the file at a place. -/
def file? (t : FileTree) (p : Place) : Option String := t.files.lookup p

/-- Whether a place is a directory. The directories around the working directory are. -/
def isDirectory (t : FileTree) (p : Place) : Bool :=
  p == rootPlace || p.all (· == upName) || t.directories.contains p

/-! ## Paths -/

/-- The longest name of a file, in bytes. -/
def maxName : Nat := 255

/-- The longest path, in bytes. -/
def maxPath : Nat := 4095

/-- The name that stays in a directory. -/
def hereName : String := "."

/-- The names in a path. -/
def names (path : String) : List String := (path.splitOn "/").filter (· != "")

/-- Where a path starts. -/
def start (path : String) : Place := if path.startsWith "/" then rootPlace else []

/-- Whether a path asks for a directory by a slash at its end. -/
def asksForDirectory (path : String) : Bool := path.endsWith "/"

/-- The place that a name stands for in a directory. -/
def placeIn (dir : Place) (name : String) : Except FileError Place :=
  if name == hereName then .ok dir
  else if name == upName then .ok (above dir)
  else if maxName < name.utf8ByteSize then .error .nameTooLong
  else .ok (dir ++ [name])

/-- Goes into a directory that has to be there. -/
def enter (t : FileTree) (dir : Place) (name : String) : Except FileError Place :=
  match placeIn dir name with
  | .error e => .error e
  | .ok place =>
    if t.isDirectory place then .ok place
    else if (t.file? place).isSome then .error .notADirectory
    else .error .notFound

/-- The directory and the last name of a path without NUL, if it has names. All names but the last have to be those of
    directories. -/
def ends (t : FileTree) (path : String) : Except FileError (Place × Option String) :=
  if path.isEmpty then .error .notFound
  else if maxPath < path.utf8ByteSize then .error .nameTooLong
  else
    match (names path).dropLast.foldlM t.enter (start path) with
    | .error e => .error e
    | .ok dir => .ok (dir, (names path).getLast?)

/-- The place that a path without NUL names. A path with a slash at its end names directories alone. -/
def locate (t : FileTree) (path : String) : Except FileError Place :=
  match t.ends path with
  | .error e => .error e
  | .ok (dir, none) => .ok dir
  | .ok (dir, some name) => if asksForDirectory path then t.enter dir name else placeIn dir name

/-- **The place that a path names.** -/
def resolve (t : FileTree) (path : String) : Except FileError Place := t.locate (untilNul path)

/-- The place of a file that can be written, for a path without NUL. A slash at its end is refused before the last name
    is looked at. -/
def locateWritable (t : FileTree) (path : String) : Except FileError Place :=
  match t.ends path with
  | .error e => .error e
  | .ok (_, none) => .error .isADirectory
  | .ok (dir, some name) =>
    if asksForDirectory path then .error .isADirectory
    else
      match placeIn dir name with
      | .error e => .error e
      | .ok place => if t.isDirectory place then .error .isADirectory else .ok place

/-- **The place of a file that can be written.** -/
def writable (t : FileTree) (path : String) : Except FileError Place := t.locateWritable (untilNul path)

/-! ## Files -/

/-- **The contents of a file.** A directory can be opened like one, and fails when it is read. -/
def read? (t : FileTree) (path : String) : Except Failure String :=
  match t.resolve path with
  | .error e => .error e.failure
  | .ok place =>
    match t.file? place with
    | some text => .ok text
    | none =>
      .error (if t.isDirectory place then .ofSystem "fread() failed: " FileError.isADirectory.number
        else FileError.notFound.failure)

/-- The tree with a file at a place. -/
def put (t : FileTree) (place : Place) (text : String) : FileTree :=
  { t with files := (place, text) :: t.files.filter fun p => p.1 != place }

/-- **Writes a file**, in place of what it held. -/
def write? (t : FileTree) (path text : String) : Except FileError FileTree :=
  (t.writable path).map fun place => t.put place text

/-- The files with a text added to the end of one. -/
def appendTo (place : Place) (text : String) : List (Place × String) → List (Place × String)
  | [] => [(place, text)]
  | (p, old) :: files => if p == place then (p, old ++ text) :: files else (p, old) :: appendTo place text files

/-- **Adds to the end of the file at a place**, and makes the file if there is none. -/
def append (t : FileTree) (place : Place) (text : String) : FileTree :=
  { t with files := appendTo place text t.files }

/-- Whether a path names a file. -/
def isFile (t : FileTree) (path : String) : Bool := (t.read? path).toOption.isSome

/-- **Deletes a file.** -/
def delete? (t : FileTree) (path : String) : Except Failure FileTree :=
  match t.resolve path with
  | .ok place =>
    if (t.file? place).isSome then .ok { t with files := t.files.filter fun p => p.1 != place }
    else .error (.ofText "File does not exist.")
  | .error _ => .error (.ofText "File does not exist.")

/-- The tree with a file and the directories that it is in. -/
def addFile (t : FileTree) (path text : String) : FileTree :=
  let path := untilNul path
  let place := start path ++ (names path).filter (· != hereName)
  let around := (List.range (place.length - 1)).map fun i => place.take (i + 1)
  { t.put place text with directories := t.directories ++ around.filter fun d => !t.directories.contains d }

end FileTree

end ArmToolkit
