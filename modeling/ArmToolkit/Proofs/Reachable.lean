import ArmToolkit.Proofs.Executed
import ArmToolkit.Proofs.MemoryHistory

/-!
# `Proofs.Reachable` — what can become of a simulator

## Contents
- **Steps.** `Simulator.current?` is the instruction that a step executes. A step without one leaves the simulator as it
  is, but for the last error (`Simulator.step_of_idle`).
- **Reachable simulators.** `Simulator.Reachable` is closed under everything that a program or its host does; a run is
  many steps (`Simulator.Reachable.run`).
- **Memory.** The regions of every reachable simulator have bytes, end before the last address and lie apart
  (`Simulator.Reachable.placed`).
-/

namespace ArmToolkit.A64

open Text (Byte)

namespace Simulator

variable {sim : Simulator}

/-! ## Steps -/

/-- **The instruction that a step executes**: the one at the program counter, while the program runs within its
    budget. -/
def current? (sim : Simulator) : Option Instruction :=
  if sim.halted ∨ sim.options.maxInstructions ≤ sim.count then none
  else (sim.core.mem.load? sim.pc instructionSize).bind fun w => (Instruction.decode w).toOption

/-- A step with an instruction executes it. -/
theorem step_of_current? {inst : Instruction} (current : sim.current? = some inst) :
    ∃ w f, inst.form = some f ∧ sim.step = sim.stepDecoded w inst f := by
  obtain ⟨goes, found⟩ := Option.ite_none_left_eq_some.mp current
  obtain ⟨w, fetched, decodes⟩ := Option.bind_eq_some_iff.mp found
  have decoded : Instruction.decode w = .ok inst := by
    cases result : Instruction.decode w with
    | ok other =>
      rw [result] at decodes
      cases decodes
      rfl
    | error why =>
      rw [result] at decodes
      cases decodes
  obtain ⟨f, _, _, -, made⟩ := Instruction.decode_eq_ok_iff.mp decoded
  have form : inst.form = some f := by rw [made]
  have running : sim.halted = false := Bool.eq_false_iff.mpr fun halted => goes (.inl halted)
  have budget : sim.count < sim.options.maxInstructions := Nat.lt_of_not_le fun spent => goes (.inr spent)
  exact ⟨w, f, form, step_of_decode running budget fetched decoded form⟩

/-- A program that has halted stays as it is. -/
theorem step_of_halted (halted : sim.halted = true) : sim.step = ⟨sim, [], none⟩ := by
  unfold step
  rw [if_pos halted]

/-- **A step without an instruction fails** while the program runs, and records the error alone. -/
theorem step_of_refused (running : sim.halted = false) (idle : sim.current? = none) :
    ∃ e, sim.step.sim = { sim with lastError := some e } ∧ sim.step.failure ≠ none := by
  have failing : ∀ e word text, (sim.failed e word text).sim = { sim with lastError := some e } ∧
      (sim.failed e word text).failure ≠ none := fun _ _ _ => ⟨rfl, Option.some_ne_none _⟩
  have halted : ¬ sim.halted = true := Bool.eq_false_iff.mp running
  unfold step
  rw [if_neg halted]
  by_cases spent : sim.options.maxInstructions ≤ sim.count
  · rw [if_pos spent]
    exact ⟨_, failing ..⟩
  · unfold current? at idle
    rw [if_neg (not_or.mpr ⟨halted, spent⟩)] at idle
    rw [if_neg spent]
    cases fetched : sim.core.mem.load? sim.pc instructionSize with
    | none => exact ⟨_, failing ..⟩
    | some w =>
      rw [fetched] at idle
      dsimp only
      cases decoded : Instruction.decode w with
      | error why => exact ⟨_, failing ..⟩
      | ok inst =>
        rw [Option.bind_some, decoded] at idle
        cases idle

/-- **A step without an instruction** changes the last error alone, and only where it fails. -/
theorem step_of_idle (idle : sim.current? = none) :
    (sim.step.sim = sim ∧ sim.step.failure = none) ∨
      ∃ e, sim.step.sim = { sim with lastError := some e } ∧ sim.step.failure ≠ none := by
  by_cases halted : sim.halted = true
  · rw [step_of_halted halted]
    exact .inl ⟨rfl, rfl⟩
  · exact .inr (step_of_refused (Bool.eq_false_iff.mpr halted) idle)

/-! ## Reachable simulators -/

/-- **What a host does to registers and memory** between two instructions. -/
inductive HostChange (core : Core) : Core → Prop
  | registers (regs : Registers) : HostChange core { core with regs }
  | clear : HostChange core { core with mem := .empty }
  | map {base : BitVec 64} {data : List Byte} {mem : Memory} (mapped : core.mem.map? base data = .ok mem) :
    HostChange core { core with mem }
  | mapZeros {base : BitVec 64} {size : Nat} {mem : Memory} (mapped : core.mem.mapZeros? base size = .ok mem) :
    HostChange core { core with mem }
  | write {address : BitVec 64} {bytes : List Byte} {mem : Memory} (written : core.mem.write? address bytes = some mem) :
    HostChange core { core with mem }

/-- **What can become of a simulator**: it is created, loads programs, executes instructions, and its host changes
    registers and memory. -/
inductive Reachable : Simulator → Prop
  | create (options : SimulatorOptions) : Reachable (create options).1
  | load {sim : Simulator} (before : Reachable sim) (code : List Word) (address : BitVec 64) :
    Reachable (sim.load code address).1
  | execute {sim : Simulator} (before : Reachable sim) (inst : Instruction) : Reachable (sim.execute inst).sim
  | step {sim : Simulator} (before : Reachable sim) : Reachable sim.step.sim
  | host {sim : Simulator} {core : Core} (before : Reachable sim) (change : HostChange sim.core core) :
    Reachable { sim with core }

/-- **A run is many steps.** -/
theorem Reachable.run (before : Reachable sim) : Reachable sim.run.sim := by
  have steps : ∀ (fuel : Nat) {sim : Simulator} (earlier), Reachable sim → Reachable (runFor fuel sim earlier).sim := by
    intro fuel
    induction fuel with
    | zero => exact fun _ before => before
    | succ fuel ih =>
      intro sim earlier before
      unfold runFor
      split
      · exact before
      · dsimp only
        split
        · exact before.step
        · exact ih _ before.step
  exact steps sim.fuel [] before

/-! ## Memory -/

/-- All that executing an instruction does to memory is to write to it. -/
theorem written_perform (f : Form) (inst : Instruction) : sim.core.mem.Written (sim.perform f inst).1.core.mem := by
  have written := (Semantics.effect_execute f inst.cond inst.ops sim.core).written
  unfold perform
  split
  · rename_i done
    rw [done] at written
    exact written
  · rename_i faulted
    rw [faulted] at written
    exact written

theorem written_execute (inst : Instruction) : sim.core.mem.Written (sim.execute inst).sim.core.mem := by
  cases form : inst.form with
  | none =>
    unfold execute
    rw [form]
    exact .refl
  | some f =>
    rw [(execute_sim sim inst form).1]
    exact written_perform f inst

theorem written_step : sim.core.mem.Written sim.step.sim.core.mem := by
  cases current : sim.current? with
  | none =>
    rcases step_of_idle current with ⟨same, -⟩ | ⟨e, same, -⟩
    · rw [same]
      exact .refl
    · rw [same]
      exact .refl
  | some inst =>
    obtain ⟨w, f, -, step⟩ := step_of_current? current
    rw [step, (stepDecoded_sim sim w inst f).1]
    exact written_perform f inst

/-- A program is loaded into a memory of its own. -/
theorem placed_load (sim : Simulator) (code : List Word) (address : BitVec 64) :
    (sim.load code address).1.core.mem.Placed := by
  unfold load
  dsimp only
  split
  · exact Memory.placed_empty
  · split
    · exact Memory.placed_empty
    · rename_i mem mapped
      have placed := Memory.placed_empty.map? mapped
      split
      · exact placed
      · exact placed.mapZeros? ‹_›

/-- **How the regions of a reachable simulator are placed.** -/
theorem Reachable.placed (reachable : Reachable sim) : sim.core.mem.Placed := by
  induction reachable with
  | create options => exact Memory.placed_empty
  | load _ code address => exact placed_load _ code address
  | execute _ inst ih => exact ih.of_layout (written_execute inst).layout
  | step _ ih => exact ih.of_layout written_step.layout
  | host _ change ih =>
    cases change with
    | registers => exact ih
    | clear => exact Memory.placed_empty
    | map mapped => exact ih.map? mapped
    | mapZeros mapped => exact ih.mapZeros? mapped
    | write written => exact ih.of_layout (Memory.layout_write? written)

/-- So they lie apart. -/
theorem Reachable.apart (reachable : Reachable sim) : sim.core.mem.Apart := reachable.placed.bounded

end Simulator

end ArmToolkit.A64
