import ArmToolkit.Fixture.Verify
import ArmToolkit.Path
import ArmToolkit.Runner.SelfTest

/-!
# `Runner.Regression` — fixtures verified from the command line

## Contents
- **Fixtures.** `verifyFixture` loads and checks one file; its name begins with the instruction set, unless an
  argument names one.
- **The run.** `regression` reads the arguments, applies the settings, verifies all fixtures and runs the self test.
  It gives the exit code and the log with all that was written.
-/

namespace ArmToolkit.Runner

open Text Log

/-! ## Fixtures -/

/-- The instruction set in front of the first underscore of a file name. -/
def instructionSetOfName? (path : String) : Option InstructionSet :=
  match (Path.fileName path).toList.span (· != '_') with
  | (_, []) => none
  | (front, _) => InstructionSet.ofName? (String.ofList front)

/-- An error about a fixture. -/
def fixtureError (text : String) : Message := say .error "VerifyFixtureFile" text

/-- The entries of a fixture file, or what is wrong with it. -/
def loadFixture (files : FileTree) (path : String) : Except String (List Fixture.Entry) :=
  match files.read? path with
  | .error e => .error ("Failed to read " ++ path ++ ": " ++ e.text)
  | .ok contents =>
    let loaded := Fixture.loadEntries contents
    match loaded.error with
    | some e => .error (path ++ ": " ++ e.message)
    | none => .ok loaded.entries

/-- **Verifies a fixture file**: the messages, and whether all entries agree. -/
def verifyFixture (isa : Option InstructionSet) (files : FileTree) (path : String) : List Message × Bool :=
  match isa <|> instructionSetOfName? path with
  | none =>
    ([fixtureError ("Cannot determine the instruction set of '" ++ path ++ "', use -isa.")], false)
  | some isa =>
    match loadFixture files path with
    | .error e => ([fixtureError e], false)
    | .ok entries =>
      let count := dec entries.length
      let before : List Message := [
        .by .fixture .verbose "LoadFile" ("Loaded " ++ count ++ " entries from " ++ path),
        say .info "VerifyFixtureFile"
          ("Verifying " ++ count ++ " " ++ isa.name ++ " entries from '" ++ Path.fileName path ++ "'...")]
      let v := Fixture.verifyEntries isa entries
      match v.failure with
      | some e => (before ++ v.messages ++ [fixtureError (path ++ ": " ++ e)], false)
      | none => (before ++ v.messages, true)

namespace Session

/-- Verifies fixtures one after the other, and counts those that fail. A log file among them is read as it is then. -/
def verifyAll (s : Session) : List String → Session × Nat
  | [] => (s, 0)
  | path :: paths =>
    let (messages, ok) := verifyFixture s.isa s.record.files path
    let (s, failed) := verifyAll (s.writeAll messages) paths
    (s, if ok then failed else failed + 1)

/-- Runs the self test, if it was asked for, and counts its failure. -/
def runSelfTest (s : Session) (c : Settings) (elapsed : String) : Session × Nat :=
  if s.iterations = 0 then (s, 0)
  else
    let (messages, ok) := selfTest c s.iterations elapsed
    (s.writeAll messages, if ok then 0 else 1)

/-- The number of checks. -/
def checks (s : Session) : Nat := s.fixtures.length + if s.iterations = 0 then 0 else 1

/-- Runs all checks of a session whose arguments were read: the exit code is zero if all succeed. -/
def runChecks (s : Session) (elapsed : String) : Nat × Session :=
  let settings := Settings.load s.store
  let s := (s.writeAll (Settings.loadMessages s.store)).withLogger settings.applyTo
  if s.checks = 0 then (1, s.write (say .error "main" "No fixture files specified."))
  else
    let (s, failedFixtures) := s.verifyAll s.fixtures
    let (s, failedTests) := s.runSelfTest settings elapsed
    let failed := failedFixtures + failedTests
    if failed = 0 then (0, s.write (say .info "main" "Exiting with success."))
    else (1, s.write (say .error "main" (dec failed ++ " of " ++ dec s.checks ++ " checks failed.")))

end Session

/-! ## The run -/

/-- **The regression run** of a program for arguments: the exit code, and the log with all that was written. `record`
    holds the files and the text of time stamps, and `elapsed` the text of the time that the self test takes. -/
def regression (program : String) (args : List String) (record : Record) (elapsed : String) : Nat × Record :=
  match (Session.start record).parse program args with
  | (s, false) => (1, s.record)
  | (s, true) =>
    let (code, s) := s.runChecks elapsed
    (code, s.record)

end ArmToolkit.Runner
