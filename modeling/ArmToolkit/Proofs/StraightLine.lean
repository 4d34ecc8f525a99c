import ArmToolkit.Proofs.Emitted

/-!
# `Proofs.StraightLine` — words that run one after the other and write registers alone

## Contents
- **Encodings that are tried out.** The word that was found is that of the form that accepts the operands
  (`Assembler.tryEncode?_eq_some`).
- **Straight-line words.** `Simulator.Straight`: words that are executed in order, each of which writes registers alone.
  They are put together (`Straight.trans`), and begin with single instructions (`Straight.one`).
- **One general register.** `Registers.Wrote`: what is left where the words write one general register.
-/

namespace ArmToolkit.A64

/-! ## Encodings that are tried out -/

namespace Assembler

/-- **An encoding that was tried out** is that of the form that accepts the operands. -/
theorem tryEncode?_eq_some {f : Form} {ops : List Operand} {w : Word} (accepted : f.accepts ops = true)
    (h : tryEncode? f.mnemonic ops = some w) : Instruction.Encodes f .al ops ∧ w = Instruction.word f .al ops := by
  unfold tryEncode? at h
  rw [encode_of_accepts accepted] at h
  cases encoded : Instruction.encode ⟨some f, .al, ops⟩ with
  | error why =>
    rw [encoded] at h
    cases h
  | ok w' =>
    rw [encoded] at h
    cases h
    exact Instruction.encode_form_eq_ok_iff.mp encoded

/-- What can be encoded is found by trying it out. -/
theorem tryEncode?_of_encodes {f : Form} {ops : List Operand} (encodes : Instruction.Encodes f .al ops) :
    tryEncode? f.mnemonic ops = some (Instruction.word f .al ops) := by
  have encoded : Instruction.encode ⟨some f, .al, ops⟩ = .ok (Instruction.word f .al ops) :=
    Instruction.encode_form_eq_ok_iff.mpr ⟨encodes, rfl⟩
  unfold tryEncode?
  rw [encode_of_accepts encodes.accepted, encoded]
  rfl

/-- **Pools are not words**: what is emitted is the same with any scratch registers. -/
theorem Emits.withPools {a b : Assembler} {P : VectorLength → Core → Core → Prop} (h : a.Emits b P)
    (pools : ScratchPools) : ({ a with pools } : Assembler).Emits { b with pools } P := by
  obtain ⟨ws, rfl, runs⟩ := h
  exact ⟨ws, rfl, runs⟩

/-- What is emitted leaves the pools as they are. -/
theorem Emits.pools {a b : Assembler} {P : VectorLength → Core → Core → Prop} (h : a.Emits b P) : b.pools = a.pools := by
  obtain ⟨ws, rfl, -⟩ := h
  rfl

/-- An instruction is emitted the same whatever scratch registers there are. -/
theorem emit_withPools (a : Assembler) (pools : ScratchPools) (m : Mnemonic) (ops : List Operand) :
    ({ a with pools } : Assembler).emit m ops = { a.emit m ops with pools } := by
  unfold emit
  cases encode m ops with
  | ok w => rfl
  | error why => rfl

end Assembler

/-! ## Straight-line words -/

namespace Simulator

/-- **Words that are executed in order**, each of which writes registers alone and goes on to the next. -/
inductive Straight : Simulator → List Word → Simulator → Prop
  | nil (sim : Simulator) : Straight sim [] sim
  | cons {sim after : Simulator} {w : Word} {ws : List Word} (regs : Registers)
    (first : sim.executeWord? w = some (sim.advance { sim.core with regs } .next))
    (rest : Straight (sim.advance { sim.core with regs } .next) ws after) : Straight sim (w :: ws) after

variable {sim mid after : Simulator} {ws ws' : List Word}

theorem Straight.trans (first : Straight sim ws mid) (second : Straight mid ws' after) :
    Straight sim (ws ++ ws') after := by
  induction first with
  | nil sim => exact second
  | cons regs first _ ih => exact .cons regs first (ih second)

/-- Straight-line words are executed. -/
theorem Straight.executeWords? (h : Straight sim ws after) : sim.executeWords? ws = some after := by
  induction h with
  | nil sim => rfl
  | cons regs first _ ih =>
    rw [Simulator.executeWords?, first]
    exact ih

/-- **The memory is as it was**, and the program counter has moved on by the words. -/
theorem Straight.core (h : Straight sim ws after) :
    after.core.mem = sim.core.mem ∧ after.pc = sim.pc + BitVec.ofNat 64 (instructionSize * ws.length) := by
  induction h with
  | nil sim => exact ⟨rfl, (BitVec.add_zero _).symm⟩
  | @cons sim after w ws regs first _ ih =>
    refine ⟨ih.1, ih.2.trans ?_⟩
    show sim.pc + BitVec.ofNat 64 instructionSize + _ = _
    rw [BitVec.add_assoc, ← BitVec.ofNat_add, List.length_cons, Nat.mul_succ, Nat.add_comm]

/-- **The word of an instruction that writes registers alone.** -/
theorem Straight.one {f : Form} {ops : List Operand} (encodes : Instruction.Encodes f .al ops)
    (plain : ∀ op ∈ ops, op.IsPlain) {regs : Registers}
    (done : Semantics.execute f .al ops sim.core = Semantics.registersOnly sim.core regs) :
    Straight sim [Instruction.word f .al ops] (sim.advance { sim.core with regs } .next) :=
  .cons regs (executeWord?_of_encodes encodes (fun op hop => (plain op hop).shaped) done) (.nil _)

end Simulator

/-! ## One general register -/

namespace Registers

/-- **What is left where one general register is written**: its new value, and the program counter has moved on. -/
def Wrote (r after : Registers) (code : Nat) (value : BitVec 64) : Prop :=
  ∃ pc, after = { r.write code value .zero with pc }

variable {r mid after : Registers} {code : Nat} {v v' : BitVec 64}

/-- Code 31 apart, a general register is written in the file. -/
theorem write_of_lt (r : Registers) (h : code < 31) (v : BitVec 64) (c : Code31) :
    r.write code v c = { r with x := r.x.setIfInBounds code v } := if_neg (Nat.ne_of_lt h)

theorem Wrote.read (h : r.Wrote after code v) (hc : code < 31) (c : Code31) : after.read code c = v := by
  obtain ⟨pc, rfl⟩ := h
  have := read_write r code code v hc hc .zero c
  rw [if_pos rfl] at this
  exact this

/-- The other general registers and the stack pointer are as they were. -/
theorem Wrote.read_of_ne (h : r.Wrote after code v) (hc : code < 31) {d : Nat} (other : code ≠ d) (c : Code31) :
    after.read d c = r.read d c := by
  obtain ⟨pc, rfl⟩ := h
  by_cases inside : d < 31
  · have kept := read_write r code d v hc inside .zero c
    rw [if_neg other] at kept
    exact kept
  · rw [write_of_lt r hc]
    simp [Registers.read, Array.getD, inside]

/-- Vector and predicate registers and the vector length are as they were. -/
theorem Wrote.same (h : r.Wrote after code v) : after.z = r.z ∧ after.p = r.p ∧ after.vl = r.vl := by
  obtain ⟨pc, rfl⟩ := h
  unfold write
  split <;> exact ⟨rfl, rfl, rfl⟩

theorem Wrote.zLane (h : r.Wrote after code v) (z n i : Nat) : after.zLane z n i = r.zLane z n i := by
  unfold Registers.zLane zBits
  rw [h.same.1]

theorem Wrote.pBits (h : r.Wrote after code v) (p : Nat) : after.pBits p = r.pBits p := by
  unfold Registers.pBits
  rw [h.same.2.1]

/-- **Of two values that are written the second one is left.** -/
theorem Wrote.trans (hc : code < 31) (first : r.Wrote mid code v) (second : mid.Wrote after code v') :
    r.Wrote after code v' := by
  obtain ⟨pc, rfl⟩ := first
  obtain ⟨pc', rfl⟩ := second
  refine ⟨pc', ?_⟩
  have twice : (r.x.setIfInBounds code v).setIfInBounds code v' = r.x.setIfInBounds code v' :=
    Vector.setIfInBounds_setIfInBounds ..
  simp only [write_of_lt _ hc, twice]

end Registers

/-- **The word of an instruction that writes one general register.** -/
theorem Simulator.Straight.write {f : Form} {ops : List Operand} (encodes : Instruction.Encodes f .al ops)
    (plain : ∀ op ∈ ops, op.IsPlain) (sim : Simulator) {code : Nat} {value : BitVec 64}
    (done : Semantics.execute f .al ops sim.core =
      Semantics.registersOnly sim.core (sim.core.regs.write code value .zero)) :
    ∃ after, sim.Straight [Instruction.word f .al ops] after ∧ sim.core.regs.Wrote after.core.regs code value :=
  ⟨_, Straight.one encodes plain done, sim.nextPc, rfl⟩

end ArmToolkit.A64
