import ArmToolkit.Runner.Regression

/-!
# `Main` — the regression runner as a program

The program reads the files that its arguments name, runs `Runner.regression` on them, prints the two streams of the
console, and writes the log file. The run is made once to take its time and once with the time in its messages.
-/

namespace ArmToolkit.Runner

open Text

/-- A time in milliseconds with two places, for a number of nanoseconds. -/
def millisecondsText (nanoseconds : Nat) : String :=
  let hundredths := nanoseconds / 10000
  let rest := hundredths % 100
  dec (hundredths / 100) ++ "." ++ (if rest < 10 then "0" else "") ++ dec rest

/-- The paths behind arguments that name a log file. -/
def logPaths : List String → List String
  | "-logfile" :: path :: rest => path :: logPaths rest
  | _ :: rest => logPaths rest
  | [] => []

/-- Creates a file, if it can be created and is not there. -/
def touch (path : String) : IO Unit := do
  try
    discard (IO.FS.Handle.mk path .append)
  catch _ => pure ()

/-- The tree with a file, if it can be read. -/
def addReadable (files : FileTree) (path : String) : IO FileTree := do
  try
    return files.addFile path (← IO.FS.readFile path)
  catch _ => return files

/-- Writes the files that a run has changed. -/
def writeChanged (before after : FileTree) : IO Unit := do
  for (place, text) in after.files do
    if before.file? place != some text then
      IO.FS.writeFile ("/".intercalate place) text

end ArmToolkit.Runner

open ArmToolkit Runner

/-- The program. -/
def main (args : List String) : IO UInt32 := do
  (logPaths args).forM touch
  let files ← args.foldlM addReadable {}
  let record : Log.Record := { stamp := "[    0.0000] ", files }
  let program := toString (← IO.appPath)
  let start ← IO.monoNanosNow
  let code := (regression program args record "").1
  let elapsed := (← IO.monoNanosNow) - start
  let (_, record) := regression program args record (millisecondsText elapsed)
  IO.print record.output
  IO.eprint record.errors
  writeChanged files record.files
  return code.toUInt32
