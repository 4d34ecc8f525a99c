import ArmToolkit.Files
import ArmToolkit.Log.Logger

/-!
# `Log.Record` — messages delivered to the console, to a file and to receivers

## Contents
- **Display.** A message is written as one line: the letter of its level, who reports it, and the text. With time
  stamps, every line of the text has the whole front again.
- **Record.** `Record` is the log together with what it has written: the two streams of the console, the files, and
  what receivers got.
- **Delivering.** `Record.write` delivers a message to all sinks, and `Record.setFile` switches the log file.
-/

namespace ArmToolkit.Log

open Text (untilNul)

/-! ## Display -/

/-- The lines of a text: one more than it has line feeds. -/
def textLines : List Char → List (List Char)
  | [] => [[]]
  | c :: cs =>
    if c = '\n' then [] :: textLines cs
    else
      match textLines cs with
      | [] => [[c]]
      | line :: lines => (c :: line) :: lines

/-- What stands in front of the text of a message: the operation that reports it, or else its channel. -/
def Message.front (m : Message) : String :=
  match m.operation with
  | some name => m.category.level.letter ++ "(" ++ name ++ "): "
  | none => m.category.level.letter ++ "/" ++ m.category.channel.name ++ ": "

/-- **A message as it is displayed**, with a time stamp in front of every line if there is one. -/
def Message.display (m : Message) (stamp : Option String) : String :=
  match stamp with
  | none => m.front ++ m.text ++ "\n"
  | some stamp =>
    String.join ((textLines m.text.toList).map fun line => stamp ++ m.front ++ String.ofList line ++ "\n")

/-! ## The record -/

/-- **The log together with what it has written.** `stamp` is the text of a time stamp. Receivers' messages are kept in
    reverse order. -/
structure Record where
  logger : Logger := {}
  stamp : String := ""
  output : String := ""
  errors : String := ""
  files : FileTree := {}
  logFile : Option Place := none
  fileStamps : Bool := false
  received : List (Nat × Message) := []

namespace Record

/-- The streams with a text of a level added: warnings and errors have one of their own. -/
def display (r : Record) (level : Level) (text : String) : Record :=
  if Level.warning.passes level then { r with errors := r.errors ++ text } else { r with output := r.output ++ text }

/-- The stamp to write, if stamps are on. -/
def stampIf (r : Record) (enabled : Bool) : Option String := if enabled then some r.stamp else none

/-- Delivers a message to one sink. The console writes it while it is on, and the file while it is open. A receiver gets
    the category packed into one number, and unpacks it. -/
def deliver (m : Message) (r : Record) : Sink → Record
  | .console =>
    if r.logger.console then r.display m.category.level (m.display (r.stampIf r.logger.consoleStamps)) else r
  | .file =>
    match r.logFile with
    | some place => { r with files := r.files.append place (m.display (r.stampIf r.fileStamps)) }
    | none => r
  | .receiver n =>
    match Category.unpack? m.category.pack with
    | some category => { r with received := (n, { m with category }) :: r.received }
    | none => r

/-- **Delivers a message** to the sinks that get it. -/
def write (r : Record) (m : Message) : Record := (r.logger.receivers m).foldl (deliver m) r

/-- Delivers messages in order. -/
def writeAll (r : Record) (ms : List Message) : Record := ms.foldl write r

/-- The message about a log file that cannot be opened, which no filter holds back. -/
def openFailure (path : String) : Message :=
  { category := { channel := .log, level := .error }, operation := none
    text := "Failed to open log file '" ++ untilNul path ++ "'" }

/-- **Switches the log file**, and tells whether it could be opened. It is emptied when it is opened. -/
def setFile (r : Record) (enabled : Bool) (path : String) (stamps : Bool) : Record × Bool :=
  let r := { r with fileStamps := stamps }
  if r.logFile.isSome = enabled then (r, true)
  else if enabled then
    match r.files.writable path with
    | .error _ => (r.logger.sinks.foldl (deliver (openFailure path)) r, false)
    | .ok place =>
      ({ r with files := r.files.put place "", logFile := some place, logger := r.logger.register .file }, true)
  else ({ r with logFile := none, logger := r.logger.unregister .file }, true)

end Record

end ArmToolkit.Log
