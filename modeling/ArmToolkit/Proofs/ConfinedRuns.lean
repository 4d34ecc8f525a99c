import ArmToolkit.Proofs.Confined

/-!
# `Proofs.ConfinedRuns` — runs do not depend on what lies above the vector length

Two simulators that differ at most above the vector length go on doing so, and say the same on the way.

## Contents
- **Simulators and reports.** `Simulator.AgreeBelow` and `Report.AgreeBelow`.
- **One instruction.** `Simulator.AgreeBelow.perform` carries the agreement of outcomes over to simulators.
- **Runs.** Steps preserve the agreement, so runs do (`Simulator.AgreeBelow.runFor`).
-/

namespace ArmToolkit.A64

/-! ## Simulators and reports -/

/-- **Two simulators that agree below the vector length**, and have the same memory, count, state of the run and last error. -/
structure Simulator.AgreeBelow (vl : VectorLength) (sim other : Simulator) : Prop where
  core : sim.core.AgreeBelow vl other.core
  options : sim.options = other.options
  count : sim.count = other.count
  halted : sim.halted = other.halted
  lastError : sim.lastError = other.lastError

/-- **Two reports of the same**: the same messages and failure, and simulators that agree below the vector length. -/
structure Report.AgreeBelow (vl : VectorLength) (report other : Report) : Prop where
  sim : report.sim.AgreeBelow vl other.sim
  messages : report.messages = other.messages
  failure : report.failure = other.failure

namespace Simulator.AgreeBelow

variable {vl : VectorLength} {sim other : Simulator} (h : sim.AgreeBelow vl other)

include h

theorem pc : sim.pc = other.pc := h.core.regs.pc

theorem fail (e : SimulationError) :
    AgreeBelow vl { sim with lastError := some e } { other with lastError := some e } := { h with lastError := rfl }

theorem failed (e : SimulationError) (word : Word) (text : String) :
    (sim.failed e word text).AgreeBelow vl (other.failed e word text) := by
  unfold Simulator.failed
  rw [h.pc]
  exact ⟨h.fail e, rfl, rfl⟩

/-! ## One instruction -/

theorem target (flow : Flow) : sim.target flow = other.target flow := by
  unfold Simulator.target Simulator.nextPc
  rw [h.pc]

theorem advance {c d : Core} (same : c.AgreeBelow vl d) (flow : Flow) :
    (sim.advance c flow).AgreeBelow vl (other.advance d flow) := by
  unfold Simulator.advance
  rw [h.target, h.count, h.halted]
  exact ⟨⟨same.regs.withPc _, same.mem⟩, h.options, rfl, rfl, h.lastError⟩

/-- **An instruction preserves the agreement**, and fails on both alike. -/
theorem perform {f : Form} {inst : Instruction} (encodes : Instruction.Encodes f inst.cond inst.ops) :
    (sim.perform f inst).1.AgreeBelow vl (other.perform f inst).1 ∧ (sim.perform f inst).2 = (other.perform f inst).2 := by
  have outcomes := Semantics.agree_execute h.core (Semantics.confined_of_encodes encodes) inst.cond
  unfold Simulator.perform
  generalize Semantics.execute f inst.cond inst.ops sim.core = o at outcomes
  generalize Semantics.execute f inst.cond inst.ops other.core = o' at outcomes
  cases outcomes with
  | done same flow => exact ⟨h.advance same flow, rfl⟩
  | fault why same =>
    have left : AgreeBelow vl { sim with core := _ } { other with core := _ } := { h with core := same }
    exact ⟨left.fail (.execute why), rfl⟩

theorem haltMessages (f : Form) (ops : List Operand) : sim.haltMessages f ops = other.haltMessages f ops := by
  unfold Simulator.haltMessages
  rw [h.pc]

theorem traceMessage (word : Word) (inst : Instruction) : sim.traceMessage word inst = other.traceMessage word inst := by
  unfold Simulator.traceMessage
  rw [h.pc, h.core.regs.flags]

theorem execute {f : Form} {inst : Instruction} (form : inst.form = some f)
    (encodes : Instruction.Encodes f inst.cond inst.ops) : (sim.execute inst).AgreeBelow vl (other.execute inst) := by
  obtain ⟨after, errors⟩ := h.perform encodes
  unfold Simulator.execute
  rw [form]
  exact ⟨after, h.haltMessages f inst.ops, congrArg (Option.map _) errors⟩

theorem stepDecoded {f : Form} {inst : Instruction} (encodes : Instruction.Encodes f inst.cond inst.ops) (word : Word) :
    (sim.stepDecoded word inst f).AgreeBelow vl (other.stepDecoded word inst f) := by
  obtain ⟨after, errors⟩ := h.perform encodes
  unfold Simulator.stepDecoded
  rw [h.options, h.traceMessage, h.haltMessages]
  generalize sim.perform f inst = performed at after errors
  generalize other.perform f inst = performed' at after errors
  obtain ⟨after₁, error⟩ := performed
  obtain ⟨after₂, error'⟩ := performed'
  cases errors
  cases error with
  | none => exact ⟨after, rfl, rfl⟩
  | some e =>
    have reports := after.failed e word inst.text
    exact ⟨reports.sim, congrArg (_ ++ ·) reports.messages, reports.failure⟩

/-! ## Runs -/

theorem step : sim.step.AgreeBelow vl other.step := by
  unfold Simulator.step
  rw [h.halted, h.options, h.count, h.core.mem, h.pc]
  -- both sides fetch the same word from the same memory, so they fail or go on together
  split
  · exact ⟨h, rfl, rfl⟩
  · split
    · exact h.failed ..
    · split
      · exact h.failed ..
      · split
        · exact h.failed ..
        · rename_i inst decodes
          obtain ⟨f, lane, ops, read, rfl⟩ := Instruction.decode_eq_ok_iff.mp decodes
          exact h.stepDecoded read.encodes _

/-- **Runs preserve the agreement.** -/
theorem runFor (fuel : Nat) (earlier : List Log.Message) :
    (sim.runFor fuel earlier).AgreeBelow vl (other.runFor fuel earlier) := by
  induction fuel generalizing sim other earlier with
  | zero => exact ⟨h, rfl, rfl⟩
  | succ fuel ih =>
    have stepped := h.step
    unfold Simulator.runFor
    rw [h.halted]
    split
    · exact ⟨h, by unfold haltedMessage; rw [h.count], rfl⟩
    · dsimp only
      rw [stepped.messages, stepped.failure]
      split
      · exact ⟨stepped.sim, rfl, rfl⟩
      · exact ih stepped.sim _

theorem run : sim.run.AgreeBelow vl other.run := by
  have fuel : sim.fuel = other.fuel := by
    unfold Simulator.fuel
    rw [h.options, h.count]
  unfold Simulator.run
  rw [fuel]
  exact h.runFor other.fuel []

end Simulator.AgreeBelow

/-- **Nothing depends on what lies above the vector length.** Simulators that agree below it execute instructions, step and
    run alike: they fail with the same error or not at all, say the same, and agree afterwards. -/
theorem Simulator.agree_below (vl : VectorLength) (sim other : Simulator) (h : sim.AgreeBelow vl other) :
    (∀ inst w, Instruction.encode inst = .ok w → (sim.execute inst).AgreeBelow vl (other.execute inst)) ∧
      sim.step.AgreeBelow vl other.step ∧ sim.run.AgreeBelow vl other.run := by
  refine ⟨fun inst w encoded => ?_, h.step, h.run⟩
  obtain ⟨f, form, encodes, -⟩ := Instruction.encode_eq_ok_iff.mp encoded
  exact h.execute form encodes

/-- Whether a predicate has active lanes is not changed by what lies above its 16 bits. -/
theorem Simulator.agree_below_ptest :
    let vl : VectorLength := ⟨128, by decide⟩
    let above (v : ZBits) (p : PBits) : Registers := ((Registers.zero (some vl)).setZ 1 (v <<< vl.bits)).setP 0 (p <<< vl.bytes)
    let sim : Simulator := ⟨⟨128, 1, 0, false⟩, ⟨above 0 0, .empty⟩, 0, false, none⟩
    let other : Simulator := ⟨⟨128, 1, 0, false⟩, ⟨above 5 3, .empty⟩, 0, false, none⟩
    let inst : Instruction := ⟨some .ptest, .al, [.ofP ⟨0, none, none⟩, .ofP ⟨0, some .b, none⟩]⟩
    sim.core.regs.pBits 0 ≠ other.core.regs.pBits 0 ∧ sim.AgreeBelow vl other ∧ (∃ w, inst.encode = .ok w) ∧
      (sim.execute inst).AgreeBelow vl (other.execute inst) := by
  intro vl above sim other inst
  have differ : sim.core.regs.pBits 0 ≠ other.core.regs.pBits 0 := by decide
  have encoded : Instruction.encode ⟨some .ptest, .al, [.ofP ⟨0, none, none⟩, .ofP ⟨0, some .b, none⟩]⟩ = .ok 0x2550c000 := rfl
  have cleared : (Registers.zero (some vl)).AgreeBelow vl (Registers.zero (some vl)) := .refl rfl
  have regs : (above 0 0).AgreeBelow vl (above 5 3) := (cleared.setZ 1 (.above _ 0 5)).setP 0 (.above _ 0 3)
  have agree : sim.AgreeBelow vl other := ⟨⟨regs, rfl⟩, rfl, rfl, rfl, rfl⟩
  exact ⟨differ, agree, ⟨_, encoded⟩, (agree_below vl sim other agree).1 inst _ encoded⟩

end ArmToolkit.A64
