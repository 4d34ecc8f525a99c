/-!
# `Path` — texts that name files

The parts of a path are separated by slashes.

## Contents
- `combine` joins two paths; the result has no two slashes in a row and none at its end.
- `directory`, `fileName`, `title` and `extension` take a path apart.
-/

namespace ArmToolkit.Path

/-- The text with every run of slashes made one; `after` tells whether a slash stands in front. -/
def collapse (after : Bool) : List Char → List Char
  | [] => []
  | c :: cs =>
    if c = '/' then (if after then collapse true cs else '/' :: collapse true cs) else c :: collapse false cs

/-- The text without the slashes at its end. -/
def dropSlashes (cs : List Char) : List Char := (cs.reverse.dropWhile (· == '/')).reverse

/-- `combine` on characters. -/
def combineChars (base next : List Char) : List Char :=
  dropSlashes (dropSlashes (collapse false base) ++ '/' :: collapse true next)

/-- **Two paths joined by a slash.** -/
def combine (base next : String) : String := String.ofList (combineChars base.toList next.toList)

/-- Whether a path starts at the root. -/
def isAbsolute (path : String) : Bool := path.toList.head? == some '/'

/-- A text cut at the last occurrence of a character: what is before it, if it occurs, and what is behind it. -/
def cutLast (d : Char) (cs : List Char) : Option (List Char) × List Char :=
  match cs.reverse.span (· != d) with
  | (back, []) => (none, back.reverse)
  | (back, _ :: front) => (some front.reverse, back.reverse)

/-- What is before the last slash; nothing without a slash. -/
def directory (path : String) : String := String.ofList ((cutLast '/' path.toList).1.getD [])

/-- **What is behind the last slash.** -/
def fileName (path : String) : String := String.ofList (cutLast '/' path.toList).2

/-- The file name without its extension. -/
def title (path : String) : String :=
  match cutLast '.' (fileName path).toList with
  | (some front, _) => String.ofList front
  | (none, whole) => String.ofList whole

/-- What is behind the last point of the file name; nothing without a point. -/
def extension (path : String) : String :=
  match cutLast '.' (fileName path).toList with
  | (some _, back) => String.ofList back
  | (none, _) => ""

end ArmToolkit.Path
