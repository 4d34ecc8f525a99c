import ArmToolkit.A64.VectorLength
import ArmToolkit.Log.Logger
import ArmToolkit.Settings.Store

/-!
# `Settings` — what the simulator and the log are set to

## Contents
- `Settings`, with the defaults.
- `Settings.load` reads them from a store: a setting that is missing or cannot be read has its default, and the vector
  length is brought to the nearest one below.
- `Settings.save` writes them into a store. What was loaded is loaded again from what was saved.
-/

namespace ArmToolkit

open Text Log

/-- **The settings.** -/
structure Settings where
  vectorLength : Nat := 512
  maxInstructions : Nat := 1000000
  memorySize : Nat := 1048576
  trace : Bool := false
  logLevel : Level := .info
  console : Bool := true
  timestamps : Bool := false
  deriving DecidableEq

namespace Settings

/-- The vector length in bits. -/
def vectorLengthKey : SettingKey := ⟨"Simulator", "VectorLength"⟩

/-- The budget of instructions. -/
def maxInstructionsKey : SettingKey := ⟨"Simulator", "MaxInstructions"⟩

/-- Whether every instruction is reported. -/
def traceKey : SettingKey := ⟨"Simulator", "TraceExecution"⟩

/-- The size of the data region in bytes. -/
def memorySizeKey : SettingKey := ⟨"Simulator", "MemorySize"⟩

/-- The level of the log. -/
def logLevelKey : SettingKey := ⟨"Logging", "LogLevel"⟩

/-- Whether messages go to the console. -/
def consoleKey : SettingKey := ⟨"Logging", "LogToConsole"⟩

/-- Whether messages on the console have time stamps. -/
def timestampsKey : SettingKey := ⟨"Logging", "LogTimestamps"⟩

/-- The vector length that a store asks for. -/
def requestedVectorLength (s : Store) : Nat := (s.nat? vectorLengthKey).getD ({} : Settings).vectorLength

/-- The level that a store asks for. -/
def requestedLevel (s : Store) : Level :=
  ((s.get? logLevelKey).bind Level.ofName?).getD ({} : Settings).logLevel

/-- **The settings in a store.** -/
def load (s : Store) : Settings :=
  let default : Settings := {}
  { vectorLength := A64.VectorLength.clamp (requestedVectorLength s)
    maxInstructions := (s.nat? maxInstructionsKey).getD default.maxInstructions
    memorySize := max ((s.nat? memorySizeKey).getD default.memorySize) 1
    trace := (s.switch? traceKey).getD default.trace
    logLevel := requestedLevel s
    console := (s.switch? consoleKey).getD default.console
    timestamps := (s.switch? timestampsKey).getD default.timestamps }

/-- The message of loading: a vector length that was asked for and is not supported. -/
def loadMessages (s : Store) : List Message :=
  let requested := requestedVectorLength s
  let used := (load s).vectorLength
  if used = requested then []
  else
    [.by .settings .warning "Load"
      ("Vector length " ++ dec requested ++ " is not supported, using " ++ dec used)]

/-- **A store with the settings.** -/
def save (c : Settings) (s : Store) : Store :=
  let s := s.setNat vectorLengthKey c.vectorLength
  let s := s.setNat maxInstructionsKey c.maxInstructions
  let s := s.setSwitch traceKey c.trace
  let s := s.setNat memorySizeKey c.memorySize
  let s := s.set logLevelKey c.logLevel.name
  let s := s.setSwitch consoleKey c.console
  s.setSwitch timestampsKey c.timestamps

/-- A log that is set as the settings say. -/
def applyTo (c : Settings) (l : Logger) : Logger := (l.setLevel c.logLevel).setConsole c.console c.timestamps

end Settings

end ArmToolkit
