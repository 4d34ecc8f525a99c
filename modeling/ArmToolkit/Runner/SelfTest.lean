import ArmToolkit.A64.Macro
import ArmToolkit.A64.Simulator
import ArmToolkit.Runner.CommandLine

/-!
# `Runner.SelfTest` — a loop over vector lanes, assembled and run

The program adds a vector of the numbers from one on to a vector of zeros, as often as it is asked to. Lane `i` of the
sum is then `i + 1` times the number of iterations.

## Contents
- `selfTestProgram` assembles the program.
- `Session.selfTest` runs it and checks all lanes.
-/

namespace ArmToolkit.Runner

open Text Log A64

/-! ## The program -/

/-- The vector of the numbers from one on. -/
def stepVector : ZReg := ⟨0, some .s⟩

/-- The vector of sums. -/
def sumVector : ZReg := ⟨1, some .s⟩

/-- The register that counts down. -/
def counter : XReg := .x 0

/-- **The program of the self test.** -/
def selfTestProgram (iterations : Nat) : Assembler :=
  let a := (({} : Assembler).index stepVector 1 1).dup sumVector 0
  let a := (a.moveImmediate counter (BitVec.ofNat 64 iterations)).bind "loop"
  let a := a.unpredicatedBinary .add sumVector sumVector stepVector
  let a := a.emit .subs [.ofX counter, .ofX counter, .ofImm 1]
  (a.branch .bCond [] "loop" .ne).emit .ret [.ofX .link]

/-- The simulator that settings ask for. -/
def simulatorOptions (c : Settings) : SimulatorOptions :=
  { vectorLength := c.vectorLength, maxInstructions := c.maxInstructions, memorySize := c.memorySize, trace := c.trace }

/-! ## Running -/

/-- What lane `i` of the sums has to be. -/
def expectedLane (iterations i : Nat) : BitVec 32 := BitVec.ofNat 32 ((i + 1) * iterations)

/-- The first lane among the lowest ones that is not what it has to be. -/
def wrongLane? (regs : Registers) (iterations lanes : Nat) : Option Nat :=
  (List.range lanes).find? fun i => regs.zLane sumVector.code 32 i != expectedLane iterations i

/-- An error of the self test. -/
def selfTestError (text : String) : Message := say .error "RunSelfTest" text

/-- The messages and the outcome of a self test. `elapsed` is the text of the time that the run took. -/
def selfTest (c : Settings) (iterations : Nat) (elapsed : String) : List Message × Bool :=
  let program := selfTestProgram iterations
  match program.firstError? with
  | some e =>
    (program.messagesSince 0 ++ [selfTestError ("Failed to assemble self test: " ++ e.message)], false)
  | none =>
    let (sim, created) := Simulator.create (simulatorOptions c)
    match sim.load program.code.toList Simulator.codeAddress with
    | (_, messages, some e) =>
      (created ++ messages ++ [selfTestError ("Failed to load self test: " ++ e.message)], false)
    | (sim, messages, none) =>
      let report := sim.run
      let before := created ++ messages ++ report.messages
      match report.failure with
      | some e => (before ++ [selfTestError ("Self test failed: " ++ e)], false)
      | none =>
        let sim := report.sim
        let executed := say .info "RunSelfTest"
          ("Executed " ++ dec sim.count ++ " instructions at VL " ++ dec c.vectorLength ++ " in " ++ elapsed ++ "ms")
        let lanes := (sim.core.regs.vl.map fun vl => vl.lanes .s).getD 0
        match wrongLane? sim.core.regs iterations lanes with
        | some i =>
          let actual := sim.core.regs.zLane sumVector.code 32 i
          let text := "Self test lane " ++ dec i ++ " is 0x" ++ hex actual.toNat ++ ", expected 0x" ++
            hex (expectedLane iterations i).toNat
          (before ++ [executed, selfTestError text], false)
        | none =>
          (before ++ [executed, say .info "RunSelfTest" ("Self test passed, " ++ dec lanes ++ " lanes checked.")], true)

end ArmToolkit.Runner
