import ArmToolkit.A64.Disassembly
import ArmToolkit.A64.Semantics
import ArmToolkit.Log.Message

/-!
# `A64.Simulator` — programs run instruction by instruction

## Contents
- **The simulator.** `Simulator` is a register file and a memory with a count of executed instructions, whether the
  program has halted, and the last error.
- **Programs.** `Simulator.load` maps code and data and prepares the registers.
- **Running.** `Simulator.step` executes the instruction at the program counter, `Simulator.execute` a given one, and
  `Simulator.run` steps until the program halts or fails. The budget of instructions bounds every run.

Each operation returns a `Report`: the simulator after it, the messages on the way, and what failed, if anything did.
-/

namespace ArmToolkit.A64

open Text Log

/-! ## The simulator -/

/-- How a simulator is set up. The vector length may be any number: one that is no vector length leaves vector
    instructions without one. -/
structure SimulatorOptions where
  vectorLength : Nat
  maxInstructions : Nat
  memorySize : Nat
  trace : Bool
  deriving DecidableEq

/-- **Why a program cannot go on.** -/
inductive SimulationError
  | decode (why : DecodeError)
  | execute (why : Fault)
  | fetch (pc : BitVec 64)
  | limit (count : Nat)

namespace SimulationError

/-- The name of the kind of an error. -/
def kind : SimulationError → String
  | decode e => e.kind
  | execute (.noVectorLength _) => "IllegalState"
  | execute (.access _) | fetch _ => "MemoryFault"
  | limit _ => "InstructionLimit"

/-- The wording of an error. -/
def message : SimulationError → String
  | decode e => e.message
  | execute (.noVectorLength f) => f.name ++ " requires a configured vector length"
  | execute (.access ⟨.load, n, a⟩) =>
    "Read of " ++ dec n ++ " bytes from unmapped address 0x" ++ hexPadded 16 a.toNat
  | execute (.access ⟨.store, n, a⟩) =>
    "Write of " ++ dec n ++ " bytes to unmapped address 0x" ++ hexPadded 16 a.toNat
  | fetch pc => "Instruction fetch from unmapped address 0x" ++ hexPadded 16 pc.toNat
  | limit n => "Exceeded the limit of " ++ dec n ++ " instructions"

end SimulationError

/-- **A simulator.** -/
structure Simulator where
  options : SimulatorOptions
  core : Core
  count : Nat
  halted : Bool
  lastError : Option SimulationError

/-- What an operation reports: the simulator after it, messages in order, and the failure, if it failed. -/
structure Report where
  sim : Simulator
  messages : List Message
  failure : Option String

namespace Simulator

/-- The address that code is loaded at by default. -/
def codeAddress : BitVec 64 := 0x10000

/-- The address of the data region. -/
def dataAddress : BitVec 64 := 0x1000000

/-- Execution ends where it reaches this address. Memory is never mapped here. -/
def haltAddress : BitVec 64 := 0xFFFFFFFFFFFFFFFC

/-- The size of an instruction in bytes. -/
def instructionSize : Nat := 4

/-- A message of the simulator. -/
def say (level : Level) (operation text : String) : Message := .by .a64Sim level operation text

/-- **A new simulator**, and a message if there is no vector length. -/
def create (options : SimulatorOptions) : Simulator × List Message :=
  let vl := VectorLength.ofBits? options.vectorLength
  let messages :=
    if vl.isSome then []
    else [say .error "Simulator" ("SVE is unavailable: " ++ VectorLength.refusal options.vectorLength)]
  ({ options, core := ⟨.zero vl, .empty⟩, count := 0, halted := false, lastError := none }, messages)

/-! ## Programs -/

/-- Why a program cannot be loaded. -/
inductive LoadError
  | misaligned (address : BitVec 64)
  | map (why : MapError)

/-- The wording of a loading error. -/
def LoadError.message : LoadError → String
  | misaligned a => "Code address 0x" ++ hex a.toNat ++ " is not aligned"
  | map e => "Failed to map program: " ++ e.message

/-- The bytes of a program. -/
def codeBytes (code : List Word) : List Byte := code.flatMap (bytesOf instructionSize)

/-- The simulator with registers, memory, count and error as new. -/
def cleared (sim : Simulator) : Simulator :=
  { sim with core := ⟨sim.core.regs.reset, .empty⟩, count := 0, halted := false, lastError := none }

/-- The simulator with another memory. -/
def withMemory (sim : Simulator) (mem : Memory) : Simulator := { sim with core := { sim.core with mem } }

/-- The registers at the start of a program: the stack pointer is at the end of the data, and returning ends the
    run. -/
def startRegisters (sim : Simulator) (address : BitVec 64) : Registers :=
  let r := { sim.core.regs with pc := address, sp := dataAddress + BitVec.ofNat 64 sim.options.memorySize }
  r.write XReg.link.code haltAddress .zero

/-- **Loads a program**: resets everything, maps the code and a data region of zeros. Where that fails, what was mapped
    before the failure stays. -/
def load (sim : Simulator) (code : List Word) (address : BitVec 64) :
    Simulator × List Message × Option LoadError :=
  let sim := sim.cleared
  if address.toNat % instructionSize ≠ 0 then (sim, [], some (.misaligned address))
  else
    match sim.core.mem.map? address (codeBytes code) with
    | .error e => (sim, [], some (.map e))
    | .ok mem =>
      match mem.mapZeros? dataAddress sim.options.memorySize with
      | .error e => (sim.withMemory mem, [], some (.map e))
      | .ok mem =>
        let text := "Loaded " ++ dec code.length ++ " instructions at 0x" ++ hex address.toNat
        ({ sim with core := ⟨sim.startRegisters address, mem⟩ }, [say .verbose "LoadProgram" text], none)

/-! ## Running -/

/-- The program counter. -/
def pc (sim : Simulator) : BitVec 64 := sim.core.regs.pc

/-- The address behind the instruction at the program counter. -/
def nextPc (sim : Simulator) : BitVec 64 := sim.pc + BitVec.ofNat 64 instructionSize

/-- Where execution goes on after an instruction. -/
def target (sim : Simulator) : Flow → BitVec 64
  | .next | .halt => sim.nextPc
  | .jump a => a

/-- The simulator after an instruction that succeeded. -/
def advance (sim : Simulator) (core : Core) (flow : Flow) : Simulator :=
  let pc := sim.target flow
  { sim with
    core := { core with regs := { core.regs with pc } }
    count := sim.count + 1
    halted := sim.halted || flow == .halt || pc == haltAddress }

/-- The message of a halt instruction. -/
def haltMessages (sim : Simulator) (f : Form) (ops : List Operand) : List Message :=
  if f = .hlt then
    [say .dev "ExecuteInstruction"
      ("hlt #0x" ++ hex (arg ops 0).imm.toNat ++ " at 0x" ++ hexPadded 16 sim.pc.toNat)]
  else []

/-- **Executes an instruction** as if it stood at the program counter. The budget is not looked at. -/
def perform (sim : Simulator) (f : Form) (inst : Instruction) : Simulator × Option SimulationError :=
  match Semantics.execute f inst.cond inst.ops sim.core with
  | .done core flow => (sim.advance core flow, none)
  | .fault why core => ({ sim with core, lastError := some (.execute why) }, some (.execute why))

/-- Executes an instruction and reports. -/
def execute (sim : Simulator) (inst : Instruction) : Report :=
  match inst.form with
  | none => ⟨sim, [], none⟩
  | some f =>
    let (after, error) := sim.perform f inst
    ⟨after, sim.haltMessages f inst.ops, error.map fun e => e.kind ++ ": " ++ e.message⟩

/-- The report of a step that failed at the program counter. -/
def failed (sim : Simulator) (e : SimulationError) (word : Word) (text : String) : Report :=
  let line := e.kind ++ " at 0x" ++ hexPadded 16 sim.pc.toNat ++ " [" ++ hexPadded 8 word.toNat ++ "] " ++ text ++
    ": " ++ e.message
  ⟨{ sim with lastError := some e }, [say .error "ReportError" line], some line⟩

/-- The text of an instruction that could not be found. -/
def noText : String := "<none>"

/-- The trace of an instruction that is about to be executed. -/
def traceMessage (sim : Simulator) (word : Word) (inst : Instruction) : Message :=
  say .dev "TraceInstruction"
    ("0x" ++ hexPadded 16 sim.pc.toNat ++ " [" ++ hexPadded 8 word.toNat ++ "] " ++ padRight 40 inst.text ++
      " nzcv=" ++ hex sim.core.regs.flags.nibble)

/-- The report of a step whose instruction has been decoded. -/
def stepDecoded (sim : Simulator) (word : Word) (inst : Instruction) (f : Form) : Report :=
  -- the trace comes first, and what the instruction itself says behind it
  let before := (if sim.options.trace then [sim.traceMessage word inst] else []) ++ sim.haltMessages f inst.ops
  match sim.perform f inst with
  | (after, none) => ⟨after, before, none⟩
  | (after, some e) =>
    let report := after.failed e word inst.text
    { report with messages := before ++ report.messages }

/-- **Executes the instruction at the program counter.** A program that has halted stays as it is. -/
def step (sim : Simulator) : Report :=
  if sim.halted then ⟨sim, [], none⟩
  -- a program that has used up its budget fails before anything is fetched
  else if sim.options.maxInstructions ≤ sim.count then sim.failed (.limit sim.options.maxInstructions) 0 noText
  else
    match sim.core.mem.load? sim.pc instructionSize with
    | none => sim.failed (.fetch sim.pc) 0 noText
    | some word =>
      match Instruction.decode word with
      | .error e => sim.failed (.decode e) word noText
      | .ok inst =>
        match inst.form with
        | none => ⟨sim, [], none⟩
        | some f => sim.stepDecoded word inst f

/-- The message of a program that has halted. -/
def haltedMessage (sim : Simulator) : Message :=
  say .dev "Run" ("Halted after " ++ dec sim.count ++ " instructions")

/-- Steps at most `fuel` times, with earlier messages in reverse order. -/
def runFor : Nat → Simulator → List Message → Report
  | 0, sim, earlier => ⟨sim, earlier.reverse, none⟩
  | fuel + 1, sim, earlier =>
    if sim.halted then ⟨sim, (sim.haltedMessage :: earlier).reverse, none⟩
    else
      let report := sim.step
      let earlier := report.messages.reverse ++ earlier
      match report.failure with
      | some e => ⟨report.sim, earlier.reverse, some e⟩
      | none => runFor fuel report.sim earlier

/-- The number of steps that a run takes at most: those that the budget leaves, and one more that exceeds it or finds
    that the last one halted. -/
def fuel (sim : Simulator) : Nat := sim.options.maxInstructions - sim.count + 1

/-- **Runs until the program halts or fails.** -/
def run (sim : Simulator) : Report := runFor sim.fuel sim []

end Simulator

end ArmToolkit.A64
