import ArmToolkit.A64.Simulator
import ArmToolkit.Proofs.Lanes
import ArmToolkit.Proofs.RoundTrip

/-!
# `Proofs.Executed` — the word of an instruction does what the instruction does

The operands that are read back from a word are not always those that were encoded. What an instruction does is the same
for both.

## Contents
- **Qualified predicates.** They are read back without a lane size, which no instruction looks at
  (`Semantics.execute_governed`).
- **Bitmasks.** A bitmask immediate is read back in its normal form, which stands for the same bits
  (`Semantics.execute_normal`).
- **Steps.** A step executes the word at the program counter (`Simulator.step_of_decode`), which is executing the
  instruction that was encoded.
-/

namespace ArmToolkit.A64

/-! ## Qualified predicates -/

namespace Form

/-- Whether an operand is a qualified predicate. It is the second one, if any. -/
def Governed (f : Form) : Prop := ∃ s ∈ f.slots[1]?, s.qualified = true

theorem qualified_place (f : Form) : ∀ p ∈ f.slots.zipIdx, p.1.qualified = true → p.2 = 1 := by
  have table : ∀ f ∈ all, ∀ p ∈ f.slots.zipIdx, p.1.qualified = true → p.2 = 1 := by decide +kernel
  exact table f (mem_all f)

/-- A form with a qualified predicate has no bitmask immediate. -/
theorem Governed.unmasked {f : Form} (h : f.Governed) : f.bitmaskField? = none := by
  obtain ⟨s, second, qualified⟩ := h
  cases f with
  | logicalImm | bitmask | dupm =>
    cases second
    cases qualified
  | _ => rfl

end Form

namespace Semantics

/-- **No instruction looks at the lane size of a qualified predicate.** -/
theorem execute_governed {f : Form} (h : f.Governed) (cond : Condition) (ops : List Operand) (l : Option LaneSize)
    (core : Core) : execute f cond (ops.modify 1 fun op => op.withLane l) core = execute f cond ops core := by
  match ops with
  | [] | [_] => rfl
  | a :: pg :: ops =>
    obtain ⟨s, second, qualified⟩ := h
    -- the forms that look at the lane size of their second operand have a vector or a predicate there
    cases f with
    | countX | countW | countExtended | moveFromScalar =>
      cases second
      cases qualified
    | _ => rfl

end Semantics

namespace Instruction.Encodes

variable {f : Form} {cond : Condition} {ops : List Operand}

/-- **A qualified predicate is read back** without a lane size, and the other operands as they are. -/
theorem canonical_governed (h : Encodes f cond ops) (shaped : ∀ op ∈ ops, op.Shaped) (governed : f.Governed) :
    ∃ l, f.canonical ops = ops.modify 1 fun op => op.withLane l := by
  obtain ⟨unmasked, still⟩ := Form.unmasked governed.unmasked
  obtain ⟨t, second, -⟩ := governed
  refine ⟨t.laneOf (f.wordLane ops), List.ext_getElem? fun i => ?_⟩
  rw [Form.canonical, List.getElem?_zipWith, List.getElem?_modify]
  cases hs : f.slots[i]? with
  | none =>
    have past := List.getElem?_eq_none_iff.mp hs
    rw [List.getElem?_eq_none_iff.mpr (h.length_eq ▸ past)]
    rfl
  | some s =>
    obtain ⟨op, at_i, -⟩ := Form.row_get (Form.accepts_iff.mp h.accepted) hs
    have here := Form.arg_of_getElem? at_i
    have moved := still s (List.mem_of_getElem? hs)
    rw [at_i]
    -- every other slot is without a qualified predicate
    by_cases place : 1 = i
    · subst place
      cases hs.symm.trans second
      have read := h.canonical_slot shaped hs moved
      rw [here] at read
      simp [read]
    · have read := h.canonical_plain shaped unmasked hs moved fun qualified =>
        absurd (f.qualified_place (s, i) (List.mk_mem_zipIdx_iff_getElem?.mpr hs) qualified).symm place
      rw [here] at read
      simp [read, place]

end Instruction.Encodes

/-! ## Bitmasks -/

/-- A bit of a mask in its lane, as a bit of the mask in all 64 bits. -/
theorem BitmaskImmediate.getLsbD_lane {l : LaneSize} (size : l.bits ∈ sizes) (v : BitVec 64) (j : Nat) :
    (v.setWidth l.bits).getLsbD (j % l.bits) = (replicate v l.bits).getLsbD (j % 64) := by
  have divides : ∀ n ∈ sizes, n ∣ 64 := by decide
  rw [getLsbD_replicate v l.bits_pos (Nat.mod_lt j (by decide)), Nat.mod_mod_of_dvd j (divides _ size),
    BitVec.getLsbD_setWidth, decide_eq_true (Nat.mod_lt j l.bits_pos), Bool.true_and]

/-- A bitwise operation works on every bit alike. -/
theorem BitmaskOp.getLsbD_apply (op : BitmaskOp) {n m : Nat} {a b : BitVec n} {c d : BitVec m} {j k : Nat}
    (first : a.getLsbD j = c.getLsbD k) (second : b.getLsbD j = d.getLsbD k) :
    (op.op.apply a b).getLsbD j = (op.op.apply c d).getLsbD k := by
  cases op with
  | orr =>
    show (a ||| b).getLsbD j = (c ||| d).getLsbD k
    rw [BitVec.getLsbD_or, BitVec.getLsbD_or, first, second]
  | eor =>
    show (a ^^^ b).getLsbD j = (c ^^^ d).getLsbD k
    rw [BitVec.getLsbD_xor, BitVec.getLsbD_xor, first, second]
  | and =>
    show (a &&& b).getLsbD j = (c &&& d).getLsbD k
    rw [BitVec.getLsbD_and, BitVec.getLsbD_and, first, second]

/-- **A form that is executed at a vector length**, and cannot be executed without one. -/
def Form.NeedsLength (f : Form) : Prop :=
  ∀ c ops core, Semantics.execute f c ops core =
    match core.regs.vl with
    | some vl => Semantics.executeVector f vl ops core
    | none => .fault (.noVectorLength f) core

/-- Whether a form is a vector instruction. -/
def Form.isVector : Form → Bool
  | moveWide _ _ | addSubImm _ _ | addSubShifted _ _ | logicalShifted _ _ | logicalImm _ _ | branch | branchCond
  | compareBranch _ _ | ret | hlt | nop | readFlags | writeFlags | transfer _ _ | transferScalar _ _ | moveToScalar _
  | moveFromScalar _ | moveElement => false
  | _ => true

/-- **A vector instruction needs a vector length.** -/
theorem Form.needsLength_of_isVector {f : Form} (vector : f.isVector = true) : f.NeedsLength := by
  cases f with
  | moveWide | addSubImm | addSubShifted | logicalShifted | logicalImm | branch | branchCond | compareBranch | ret | hlt
  | nop | readFlags | writeFlags | transfer | transferScalar | moveToScalar | moveFromScalar | moveElement => cases vector
  | _ => exact fun _ _ _ => rfl

namespace Semantics

/-- Operands whose bitmask immediate, in one place, stands for some 64 bits at a lane size. -/
structure Masks (ops : List Operand) (place : Nat) (full : BitVec 64) : Prop where
  size : (laneAt ops 0).bits ∈ BitmaskImmediate.sizes
  repeats : BitmaskImmediate.replicate (arg ops place).imm (laneAt ops 0).bits = full

theorem Masks.bit {ops : List Operand} {place : Nat} {full : BitVec 64} (h : Masks ops place full) (j : Nat) :
    ((arg ops place).imm.setWidth (laneAt ops 0).bits).getLsbD (j % (laneAt ops 0).bits) = full.getLsbD (j % 64) := by
  rw [BitmaskImmediate.getLsbD_lane h.size, h.repeats]

section

variable {ops ops' : List Operand} {full : BitVec 64} (vl : VectorLength) (r : Registers)

/-- A vector is combined with the bits that a bitmask stands for, at whatever lane size it is given. -/
theorem bitmask_congr (op : BitmaskOp) (given : Masks ops 2 full) (read : Masks ops' 2 full)
    (same : regAt ops' 0 = regAt ops 0) : bitmask vl ops' r op = bitmask vl ops r op := by
  unfold bitmask
  rw [same]
  -- bit `j` of the vector is combined with bit `j % 64` of the mask, whatever lane it is in
  refine onAll_regroup vl r fun j _ => op.getLsbD_apply ?_ (by rw [read.bit, given.bit])
  rw [Registers.getLsbD_zLane_div, Registers.getLsbD_zLane_div]

/-- The bits that a bitmask stands for are copied, at whatever lane size it is given. -/
theorem broadcast_congr (given : Masks ops 1 full) (read : Masks ops' 1 full) (same : regAt ops' 0 = regAt ops 0) :
    broadcast vl ops' r (arg ops' 1).imm = broadcast vl ops r (arg ops 1).imm := by
  unfold broadcast
  rw [same]
  exact onAll_regroup vl r fun j _ => by rw [read.bit, given.bit]

end

end Semantics

theorem Operand.reg_narrowTo (l : LaneSize) (op : Operand) : (op.narrowTo l).reg = op.reg := by
  unfold narrowTo cutTo
  split <;> rfl

/-- The lower half of an immediate is kept where it is cut to it. -/
theorem Operand.setWidth_cutTo (op : Operand) : (op.cutTo 32).imm.setWidth 32 = op.imm.setWidth 32 := by
  unfold cutTo
  split
  · apply BitVec.eq_of_getLsbD_eq
    intro j hj
    rw [BitVec.getLsbD_setWidth, BitVec.getLsbD_setWidth, BitVec.getLsbD_and,
      BitmaskImmediate.getLsbD_onesBelow 32 (by omega), decide_eq_true hj, Bool.and_true]
  · rfl

namespace Instruction.Encodes

variable {f : Form} {cond : Condition} {ops : List Operand}

/-- What the bitmask immediate of a vector form stands for is what is repeated in the lanes. -/
theorem masks (h : Encodes f cond ops) (masked : f.sizing = .bitmask) :
    Semantics.Masks ops f.maskOperand (f.fullMask ops) := by
  obtain ⟨l, lane, bits, -⟩ := h.mask_lanes masked
  obtain ⟨first, -⟩ := Form.first_of_masked masked
  have here : (arg ops 0).lane = some l := by rw [← lane, lane_eq masked Sizing.noConfusion, first]
  have size : Semantics.laneAt ops 0 = l := by rw [Semantics.laneAt, here, Option.getD_some]
  refine ⟨size ▸ bits, ?_⟩
  rw [size, Form.fullMask, lane]
  rfl

/-- What the bitmask immediate stands for is the same where the operands are read back. -/
theorem masks_normal (h : Encodes f cond ops) (shaped : ∀ op ∈ ops, op.Shaped) (masked : f.sizing = .bitmask) :
    Semantics.Masks (f.normal ops) f.maskOperand (f.fullMask ops) := by
  have place : f.bitmaskField? ≠ none := fun none => (Form.unmasked none).1 masked
  have again := h.decodes.encodes.masks masked
  rwa [h.canonical_eq_normal_of_mask shaped place, h.fullMask_normal masked] at again

end Instruction.Encodes

namespace Semantics

variable {f : Form} {cond : Condition} {ops : List Operand}

/-- A form whose bitmask gives the lane size is executed at a vector length. -/
theorem needsLength_of_mask (masked : f.sizing = .bitmask) : f.NeedsLength := by
  cases f with
  | bitmask | dupm => exact fun _ _ _ => rfl
  | _ => cases masked

/-- **Normal operands do what the operands do.** -/
theorem execute_normal (h : Instruction.Encodes f cond ops) (shaped : ∀ op ∈ ops, op.Shaped) (c : Condition)
    (core : Core) : execute f c (f.normal ops) core = execute f c ops core := by
  by_cases place : f.bitmaskField? = none
  · rw [Form.normal_of_unmasked place]
  · cases f with
    | logicalImm op width =>
      cases width with
      | x => rfl
      | w =>
        -- the sign of the immediate is above the register, and no register has an immediate to cut
        refine congrArg (registersOnly core) ?_
        have rd : arg (ops.map (Operand.cutTo 32)) 0 = arg ops 0 :=
          (h.arg_map _ (i := 0) rfl).trans (h.cutTo_slot (i := 0) rfl (by simp [Slot.kinds]) 32)
        have rn : arg (ops.map (Operand.cutTo 32)) 1 = arg ops 1 :=
          (h.arg_map _ (i := 1) rfl).trans (h.cutTo_slot (i := 1) rfl (by simp [Slot.kinds]) 32)
        have imm : (arg (ops.map (Operand.cutTo 32)) 2).imm.setWidth 32 = (arg ops 2).imm.setWidth 32 := by
          rw [h.arg_map _ (i := 2) rfl, Operand.setWidth_cutTo]
        show logicalImm op .w (ops.map (Operand.cutTo 32)) core.regs = logicalImm op .w ops core.regs
        unfold logicalImm
        rw [rd, rn]
        exact congrArg (fun b => writeLogical op (arg ops 0) _ _ b core.regs) imm
    | bitmask op =>
      have same : regAt ((Form.bitmask op).normal ops) 0 = regAt ops 0 :=
        (congrArg Operand.reg (h.arg_map _ (i := 0) rfl)).trans (Operand.reg_narrowTo _ _)
      rw [needsLength_of_mask rfl, needsLength_of_mask rfl]
      cases core.regs.vl with
      | none => rfl
      | some vl =>
        have regs := bitmask_congr vl core.regs op (h.masks rfl) (h.masks_normal shaped rfl) same
        exact congrArg (registersOnly core) regs
    | dupm =>
      have same : regAt (Form.dupm.normal ops) 0 = regAt ops 0 :=
        (congrArg Operand.reg (h.arg_map _ (i := 0) rfl)).trans (Operand.reg_narrowTo _ _)
      rw [needsLength_of_mask rfl, needsLength_of_mask rfl]
      cases core.regs.vl with
      | none => rfl
      | some vl =>
        have regs := broadcast_congr vl core.regs (h.masks rfl) (h.masks_normal shaped rfl) same
        exact congrArg (registersOnly core) regs
    | _ => exact absurd rfl place

/-- **The operands that are read back do what the operands do.** -/
theorem execute_canonical (h : Instruction.Encodes f cond ops) (shaped : ∀ op ∈ ops, op.Shaped) (c : Condition)
    (core : Core) : execute f c (f.canonical ops) core = execute f c ops core := by
  by_cases governed : f.Governed
  · obtain ⟨l, read⟩ := h.canonical_governed shaped governed
    rw [read, execute_governed governed]
  · by_cases place : f.bitmaskField? = none
    · have plain := h.canonical_eq_self shaped place fun i s hs qualified => by
        have second := f.qualified_place (s, i) (List.mk_mem_zipIdx_iff_getElem?.mpr hs) qualified
        exact absurd ⟨s, second ▸ hs, qualified⟩ governed
      rw [plain]
    · rw [h.canonical_eq_normal_of_mask shaped place, execute_normal h shaped]

end Semantics

/-! ## Steps -/

namespace Simulator

variable {sim : Simulator} {f : Form} {inst : Instruction}

/-- An instruction changes the simulator as any other that has the same outcome. -/
theorem perform_congr {inst' : Instruction}
    (same : Semantics.execute f inst'.cond inst'.ops sim.core = Semantics.execute f inst.cond inst.ops sim.core) :
    sim.perform f inst' = sim.perform f inst := by
  unfold perform
  rw [same]

/-- A step whose instruction has been decoded leaves the simulator as the instruction does, and fails if it fails. -/
theorem stepDecoded_sim (sim : Simulator) (word : Word) (inst : Instruction) (f : Form) :
    (sim.stepDecoded word inst f).sim = (sim.perform f inst).1 ∧
      (sim.stepDecoded word inst f).failure.isSome = (sim.perform f inst).2.isSome := by
  unfold stepDecoded perform
  cases Semantics.execute f inst.cond inst.ops sim.core with
  | done core flow => exact ⟨rfl, rfl⟩
  | fault why after => exact ⟨rfl, rfl⟩

/-- An instruction of a form leaves the simulator as it performs, and fails if it fails. -/
theorem execute_sim (sim : Simulator) (inst : Instruction) (form : inst.form = some f) :
    (sim.execute inst).sim = (sim.perform f inst).1 ∧
      (sim.execute inst).failure.isSome = (sim.perform f inst).2.isSome := by
  unfold execute
  rw [form]
  exact ⟨rfl, Option.isSome_map⟩

/-- **An instruction that is done** does not fail, and the simulator goes on. -/
theorem execute_done {inst : Instruction} {after : Core} {flow : Flow} (form : inst.form = some f)
    (done : Semantics.execute f inst.cond inst.ops sim.core = .done after flow) :
    (sim.execute inst).failure = none ∧ (sim.execute inst).sim = sim.advance after flow := by
  have performed : sim.perform f inst = (sim.advance after flow, none) := by rw [perform, done]
  obtain ⟨same, fails⟩ := execute_sim sim inst form
  rw [performed] at same fails
  exact ⟨Option.not_isSome_iff_eq_none.mp (by rw [fails]; exact Bool.false_ne_true), same⟩

/-- **An instruction that faults** fails, and leaves registers and memory as the fault says. -/
theorem execute_fault {inst : Instruction} {why : Fault} {after : Core} (form : inst.form = some f)
    (faults : Semantics.execute f inst.cond inst.ops sim.core = .fault why after) :
    (sim.execute inst).failure ≠ none ∧ (sim.execute inst).sim.core = after := by
  have performed : sim.perform f inst =
      ({ sim with core := after, lastError := some (.execute why) }, some (.execute why)) := by rw [perform, faults]
  obtain ⟨same, fails⟩ := execute_sim sim inst form
  rw [performed] at same fails
  refine ⟨Option.isSome_iff_ne_none.mp fails, ?_⟩
  rw [same]

/-- **An instruction that writes registers alone** does not fail, and the program counter goes on behind it. -/
theorem execute_registers {inst : Instruction} {regs : Registers} (form : inst.form = some f)
    (done : Semantics.execute f inst.cond inst.ops sim.core = Semantics.registersOnly sim.core regs) :
    (sim.execute inst).failure = none ∧ (sim.execute inst).sim.core.regs = { regs with pc := sim.nextPc } := by
  obtain ⟨succeeds, after⟩ := execute_done form done
  refine ⟨succeeds, ?_⟩
  rw [after]
  rfl

/-- **A step executes the word at the program counter.** -/
theorem step_of_decode {w : Word} (running : sim.halted = false) (budget : sim.count < sim.options.maxInstructions)
    (fetched : sim.core.mem.load? sim.pc instructionSize = some w) (decoded : Instruction.decode w = .ok inst)
    (form : inst.form = some f) : sim.step = sim.stepDecoded w inst f := by
  unfold step
  simp only [running, Bool.false_eq_true, if_false, if_neg (Nat.not_le.mpr budget), fetched, decoded, form]

/-- **Executing the word of an instruction is executing the instruction.** The simulator has not halted and has
    instructions left, and the word is in memory at the program counter. The operands come from the constructors, with
    register codes inside the register files. A step leaves the same simulator as the instruction (registers, flags,
    memory, count, whether it has halted and the last error), and fails if and only if the instruction does. -/
theorem step_eq_execute {w : Word} (constructed : ∀ op ∈ inst.ops, op.Constructed) (encoded : inst.encode = .ok w)
    (running : sim.halted = false) (budget : sim.count < sim.options.maxInstructions)
    (fetched : sim.core.mem.load? sim.pc instructionSize = some w) :
    sim.step.sim = (sim.execute inst).sim ∧ sim.step.failure.isSome = (sim.execute inst).failure.isSome := by
  obtain ⟨f, form, passes, rfl⟩ := Instruction.encode_eq_ok_iff.mp encoded
  have shaped : ∀ op ∈ inst.ops, op.Shaped := fun op hop => (constructed op hop).shaped
  have same : sim.perform f ⟨some f, inst.cond, f.canonical inst.ops⟩ = sim.perform f inst :=
    perform_congr (Semantics.execute_canonical passes shaped inst.cond sim.core)
  obtain ⟨after, fails⟩ := execute_sim sim inst form
  obtain ⟨stepped, stepFails⟩ :=
    stepDecoded_sim sim (Instruction.word f inst.cond inst.ops) ⟨some f, inst.cond, f.canonical inst.ops⟩ f
  rw [step_of_decode running budget fetched passes.decode rfl, after, fails, stepped, stepFails, same]
  exact ⟨rfl, rfl⟩

/-- A bitmask given for doublewords, whose word has it for halfwords, at the start of memory. -/
theorem step_eq_execute_and :
    let mem : Memory := ⟨[⟨0, 4, .ofList (bytesOf 4 (0x058004e1 : Word))⟩]⟩
    let sim : Simulator := ⟨⟨256, 1, 0, false⟩, ⟨.zero (VectorLength.ofBits? 256), mem⟩, 0, false, none⟩
    let inst : Instruction :=
      ⟨some (.bitmask .and), .al, [.ofZ ⟨1, some .d⟩, .ofZ ⟨1, some .d⟩, .ofImm 0x00ff00ff00ff00ff]⟩
    sim.step.sim = (sim.execute inst).sim ∧ sim.step.failure.isSome = (sim.execute inst).failure.isSome := by
  intro mem sim inst
  have encoded : Instruction.encode ⟨some (.bitmask .and), .al,
      [.ofZ ⟨1, some .d⟩, .ofZ ⟨1, some .d⟩, .ofImm 0x00ff00ff00ff00ff]⟩ = .ok 0x058004e1 := rfl
  have bytes : mem.read? 0 4 = some (bytesOf 4 (0x058004e1 : Word)) :=
    congrArg some (SparseBytes.slice_put .zeros 0 (bytesOf 4 (0x058004e1 : Word)))
  have fetched : sim.core.mem.load? sim.pc instructionSize = some (0x058004e1 : Word) :=
    (congrArg (Option.map (ofBytes 32)) bytes).trans (congrArg some (ofBytes_bytesOf 4 _))
  refine step_eq_execute (fun op hop => ?_) encoded rfl (by decide) fetched
  simp only [inst, List.mem_cons, List.not_mem_nil, or_false] at hop
  rcases hop with rfl | rfl | rfl
  · exact .ofZ _ (by decide)
  · exact .ofZ _ (by decide)
  · exact .ofImm _

end Simulator

end ArmToolkit.A64
