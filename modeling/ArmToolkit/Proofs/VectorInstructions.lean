import ArmToolkit.Proofs.Emitted
import ArmToolkit.Proofs.Executed

/-!
# `Proofs.VectorInstructions` — vector instructions that the encoder accepts

## Contents
- **Acceptance.** `Simulator.Accepts` is what all statements on single vector instructions start from: the encoder accepts
  the instruction, and the simulator has a vector length. From it follow the checks (`Accepts.passes`), the lane size of
  the operands (`Accepts.size`) and what is executed (`Accepts.execute`).
- **Lanes.** `Simulator.PutsLanes` is what an instruction leaves that gives new lanes to its destination
  (`Accepts.putsLanes`).
-/

namespace ArmToolkit.A64

/-- **A register shows a vector** in its lanes within the vector length. -/
def Registers.Shows (r : Registers) (vl : VectorLength) (l : LaneSize) (z : Nat) (v : Nat → BitVec l.bits) : Prop :=
  ∀ i < vl.lanes l, r.zLane z l.bits i = v i

namespace Simulator

open Semantics (laneAt regAt)

/-! ## Acceptance -/

/-- **The encoder accepts an instruction** of some form and lane size, and the simulator has a vector length. -/
structure Accepts (sim : Simulator) (inst : Instruction) (f : Form) (vl : VectorLength) (l : LaneSize) : Prop where
  encoded : ∃ w, inst.encode = .ok w
  formed : inst.form = some f
  lane : f.lane inst.ops = some l
  configured : sim.core.regs.vl = some vl

variable {sim : Simulator} {inst : Instruction} {f : Form} {vl : VectorLength} {l : LaneSize}

namespace Accepts

/-- An accepted instruction is accepted by any other simulator with the vector length. -/
theorem at_length {after : Simulator} (h : sim.Accepts inst f vl l) (configured : after.core.regs.vl = some vl) :
    after.Accepts inst f vl l := { h with configured := configured }

/-- The checks of an accepted instruction pass. -/
theorem passes (h : sim.Accepts inst f vl l) : Instruction.Encodes f inst.cond inst.ops := by
  obtain ⟨w, encoded⟩ := h.encoded
  obtain ⟨f', formed, passes, -⟩ := Instruction.encode_eq_ok_iff.mp encoded
  cases h.formed.symm.trans formed
  exact passes

/-- **The lane size is one of the form**, and that of the operand it is taken from. -/
theorem size (h : sim.Accepts inst f vl l) (sized : f.sizing ≠ .widthBit)
    (checked : .laneAllowed f.laneOperand ∈ f.checks) : l ∈ f.lanes ∧ laneAt inst.ops f.laneOperand = l := by
  obtain ⟨l', allowed, lane⟩ := h.passes.lane_known rfl sized checked
  cases h.lane.symm.trans lane
  rw [Instruction.Encodes.lane_eq rfl sized] at lane
  exact ⟨allowed, by rw [laneAt, lane, Option.getD_some]⟩

/-- What is executed at the vector length. -/
theorem execute (h : sim.Accepts inst f vl l) (vector : f.isVector = true) :
    Semantics.execute f inst.cond inst.ops sim.core = Semantics.executeVector f vl inst.ops sim.core :=
  (Form.needsLength_of_isVector vector).execute _ _ h.configured

end Accepts

/-! ## Lanes -/

/-- **What an instruction leaves that gives new lanes to its destination**: it succeeds, and the lanes within the vector
    length are the new ones. The bits above them stay, and so do all other vector registers and the vector length. -/
structure PutsLanes (sim : Simulator) (inst : Instruction) (vl : VectorLength) (l : LaneSize) (value : Nat → BitVec l.bits) :
    Prop where
  succeeds : (sim.execute inst).failure = none
  lanes : (sim.execute inst).sim.core.regs.Shows vl l (regAt inst.ops 0) value
  above : ∀ j, vl.bits ≤ j → ((sim.execute inst).sim.core.regs.zBits (regAt inst.ops 0)).getLsbD j =
    (sim.core.regs.zBits (regAt inst.ops 0)).getLsbD j
  others : ∀ z, z ≠ regAt inst.ops 0 → (sim.execute inst).sim.core.regs.zBits z = sim.core.regs.zBits z
  length : (sim.execute inst).sim.core.regs.vl = sim.core.regs.vl

/-- Lanes outside the vector length do not matter. -/
theorem PutsLanes.congr {value value' : Nat → BitVec l.bits} (h : sim.PutsLanes inst vl l value)
    (same : ∀ i < vl.lanes l, value i = value' i) : sim.PutsLanes inst vl l value' :=
  { h with lanes := fun i hi => (h.lanes i hi).trans (same i hi) }

/-- Registers other than the destination show what they have shown. -/
theorem PutsLanes.shows {value v : Nat → BitVec l.bits} (h : sim.PutsLanes inst vl l value) {z : Nat}
    (other : z ≠ regAt inst.ops 0) (shown : sim.core.regs.Shows vl l z v) :
    (sim.execute inst).sim.core.regs.Shows vl l z v := by
  intro i hi
  rw [Registers.zLane, h.others z other]
  exact shown i hi

/-- **An instruction that replaces the lanes of its destination** and does nothing else. -/
theorem Accepts.putsLanes (h : sim.Accepts inst f vl l) (code : regAt inst.ops 0 < 32) {value : Nat → BitVec l.bits}
    (executed : Semantics.execute f inst.cond inst.ops sim.core = Semantics.registersOnly sim.core
      (Semantics.onAll vl sim.core.regs l (regAt inst.ops 0) value)) : sim.PutsLanes inst vl l value := by
  obtain ⟨succeeds, left⟩ := execute_registers h.formed executed
  have bits : ∀ z, (sim.execute inst).sim.core.regs.zBits z =
      (Semantics.onAll vl sim.core.regs l (regAt inst.ops 0) value).zBits z := by
    intro z
    rw [left]
    rfl
  refine ⟨succeeds, ?_, ?_, ?_, by rw [left]; rfl⟩
  · intro i hi
    rw [Registers.zLane, bits]
    exact (Semantics.zLane_onAll vl sim.core.regs code value _ hi).trans (if_pos rfl)
  · intro j hj
    rw [bits, Semantics.onAll, Registers.mapLanes, Registers.zBits_setZ, if_pos ⟨rfl, code⟩,
      Semantics.getLsbD_putLanes_vl, if_neg (Nat.not_lt.mpr hj)]
  · intro z other
    rw [bits, Semantics.onAll, Registers.mapLanes, Registers.zBits_setZ, if_neg fun same => other same.1.symm]

end Simulator

end ArmToolkit.A64
