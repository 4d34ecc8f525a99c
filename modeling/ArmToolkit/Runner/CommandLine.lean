import ArmToolkit.Condition
import ArmToolkit.Log.Record
import ArmToolkit.Settings

/-!
# `Runner.CommandLine` — the arguments of the regression runner

Arguments are read from left to right, and each takes effect at once: later errors are reported to the log as the
earlier arguments have set it.

## Contents
- **State.** `Session`: the log, the settings store, the fixtures to verify, and what else arguments set.
- **Arguments.** `Session.parse` reads all of them, and tells whether the run goes on.
-/

namespace ArmToolkit.Runner

open Text Log

/-! ## State -/

/-- **What a run works with.** -/
structure Session where
  record : Record := {}
  store : Store := {}
  fixtures : List String := []
  isa : Option InstructionSet := none
  iterations : Nat := 0

/-- A message of the runner. -/
def say (level : Level) (operation text : String) : Message := .by .host level operation text

namespace Session

/-- The session after a message was written. -/
def write (s : Session) (m : Message) : Session := { s with record := s.record.write m }

/-- The session after messages were written. -/
def writeAll (s : Session) (ms : List Message) : Session := { s with record := s.record.writeAll ms }

/-- The session with another log. -/
def withLogger (s : Session) (f : Logger → Logger) : Session :=
  { s with record := { s.record with logger := f s.record.logger } }

/-- Writes an error about an argument; the run does not go on. -/
def refuse (s : Session) (text : String) : Session × Bool :=
  (s.write (say .error "ParseCommandLineParameters" text), false)

/-- The session as a run starts: the console is on, and the store holds the default settings. -/
def start (record : Record) : Session :=
  let logger := (record.logger.setConsole true false).setLevel .info
  let store := (({} : Settings).save {}).setSwitch Settings.consoleKey true
  { record := { record with logger }, store := store.setSwitch Settings.timestampsKey false }

end Session

/-! ## Arguments -/

/-- The text of the help, for the name that the program was called by. -/
def helpText (program : String) : String := String.join [
  "ARM Encoding Regression Test Runner\n",
  "\n",
  "Usage: ", program, " [parameters] [--] [fixture files...]\n",
  "\n",
  "  -help: Displays this information and exits.\n",
  "  -log <level>: Sets the log level. Defaults to info.\n",
  "  -console: Enables console logging output.\n",
  "  -logfile <path>: Writes log output to the specified file.\n",
  "  -isa <a64|t32>: Verifies all files as this instruction set, instead of using the\n",
  "    file name prefix.\n",
  "  -vl <bits>: Sets the SVE vector length used by -selftest.\n",
  "  -maxinsns <count>: Sets the simulator instruction limit.\n",
  "  -selftest <iterations>: Runs a vector accumulate loop in the simulator.\n",
  "  -set <Section/Key=Value>: Overrides a configuration value.\n",
  "  --: Signals that no more arguments will follow and the remaining\n",
  "    parameters are fixture files. Use when a filename starts with a dash.\n",
  "\n"]

/-- The arguments that take a value. -/
inductive Parameter
  | log | logFile | isa | vectorLength | maxInstructions | selfTest | set
  deriving DecidableEq

/-- The parameter that an argument stands for. -/
def Parameter.ofName? : String → Option Parameter
  | "-log" => some .log
  | "-logfile" => some .logFile
  | "-isa" => some .isa
  | "-vl" => some .vectorLength
  | "-maxinsns" => some .maxInstructions
  | "-selftest" => some .selfTest
  | "-set" => some .set
  | _ => none

/-- A number above zero at the front of a text; zero if there is none. -/
def countOf (text : String) : Nat := ((IntKind.u32.read? 10 text).getD 0).toNat

namespace Session

/-- **The session with a parameter set to a value**, and whether the run goes on. -/
def apply (s : Session) (p : Parameter) (value : String) : Session × Bool :=
  match p with
  | .log =>
    match Level.ofName? value with
    | none => s.refuse "Invalid log level specified."
    | some level =>
      ({ s.withLogger (·.setLevel level) with store := s.store.set Settings.logLevelKey level.name }, true)
  | .logFile =>
    match s.record.setFile true value false with
    | (record, true) => ({ s with record }, true)
    | (record, false) => { s with record }.refuse ("Failed to open log file '" ++ value ++ "'.")
  | .isa =>
    match InstructionSet.ofName? value with
    | none => { s with isa := none }.refuse ("Invalid instruction set specified: " ++ value)
    | some isa => ({ s with isa := some isa }, true)
  | .vectorLength =>
    if countOf value = 0 then s.refuse ("Invalid vector length specified: " ++ value)
    else ({ s with store := s.store.setNat Settings.vectorLengthKey (countOf value) }, true)
  | .maxInstructions =>
    if countOf value = 0 then s.refuse ("Invalid instruction limit specified: " ++ value)
    else ({ s with store := s.store.setNat Settings.maxInstructionsKey (countOf value) }, true)
  | .selfTest =>
    if countOf value = 0 then s.refuse ("Invalid self test iteration count: " ++ value)
    else ({ s with iterations := countOf value }, true)
  | .set =>
    match s.store.override value with
    | .error e => s.refuse ("Invalid setting override: " ++ e.message)
    | .ok store => ({ s with store }, true)

/-- The session with a fixture to verify. -/
def addFixture (s : Session) (path : String) : Session := { s with fixtures := s.fixtures ++ [path] }

/-- The session after an argument without a value, and whether the run goes on. -/
def applyAlone (s : Session) (arg : String) : Session × Bool :=
  if arg = "-console" then
    ({ s.withLogger (·.setConsole true false) with store := s.store.setSwitch Settings.consoleKey true }, true)
  else if arg.startsWith "-" then s.refuse ("Unknown parameter: '" ++ arg ++ "'")
  else (s.addFixture arg, true)

/-- Writes the help; the run does not go on. -/
def help (s : Session) (program : String) : Session × Bool :=
  ({ s with record := { s.record with errors := s.record.errors ++ helpText program } }, false)

/-- **Reads arguments**, and tells whether the run goes on. Behind two dashes all are fixtures. -/
def parse (program : String) (s : Session) : List String → Session × Bool
  | [] => (s, true)
  | [arg] =>
    if arg = "-help" then s.help program else if arg = "--" then (s, true) else s.applyAlone arg
  | arg :: value :: rest =>
    if arg = "-help" then s.help program
    else if arg = "--" then (rest.foldl addFixture (s.addFixture value), true)
    else
      match Parameter.ofName? arg with
      | some p =>
        match s.apply p value with
        | (s, true) => parse program s rest
        | (s, false) => (s, false)
      | none =>
        match s.applyAlone arg with
        | (s, true) => parse program s (value :: rest)
        | (s, false) => (s, false)

end Session

end ArmToolkit.Runner
