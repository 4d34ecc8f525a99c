import ArmToolkit.T32.Stream

/-!
# `Proofs.Halfwords` — encoded T32 instructions are decoded

## Contents
- **The table.** The fixed bits of a form stand above its fields, and no halfword has those of two forms
  (`Form.Matches.unique`).
- **Operands.** `Form.Takes`: the operands that a form can hold, one constructor a form. They are what passes the checks of
  the encoder (`Form.takes_of_faultless`), and they are read back from the fields (`Form.Takes.operands_eq`).
- **Halfwords.** A halfword that was encoded is decoded as the instruction (`Encodes.decodeHalfword`).
- **Streams.** So are the bytes of an instruction, behind the IT halfword of its condition if it has one
  (`decodeSingle_of_encode`).
-/

namespace ArmToolkit.T32

open Text

/-! ## The table -/

namespace Form

theorem mem_all (f : Form) : f ∈ all := by
  cases f with
  | data op => cases op <;> decide
  | addSub op | addSubImmediate op | byte op | high op => cases op <;> decide

/-- The number of bits below the fixed bits of a form. -/
def fieldWidth (f : Form) : Nat :=
  match f.shape with
  | .dataProcessing => 6
  | .addSubRegister | .addSubImm3 => 9
  | .imm8 => 11
  | .highRegister => 8

/-- The fixed bits are all those above the fields. -/
theorem getLsbD_mask (f : Form) : ∀ j < 16, f.mask.getLsbD j = decide (f.fieldWidth ≤ j) := by
  unfold mask fieldWidth
  cases f.shape <;> decide

/-- **The halfword has the fixed bits of the form.** -/
def Matches (f : Form) (bits : Halfword) : Prop := bits &&& f.mask = f.opcode

/-- **No halfword has the fixed bits of two forms.** -/
theorem Matches.unique {f g : Form} {bits : Halfword} (hf : f.Matches bits) (hg : g.Matches bits) : f = g := by
  have table : ∀ f ∈ all, ∀ g ∈ all, f.opcode &&& g.mask = g.opcode &&& f.mask → f = g := by decide +kernel
  apply table f (mem_all f) g (mem_all g)
  unfold Matches at hf hg
  rw [← hf, ← hg, BitVec.and_assoc, BitVec.and_assoc, BitVec.and_comm f.mask]

theorem formOf?_of_matches {f : Form} {bits : Halfword} (h : f.Matches bits) : formOf? bits = some f := by
  unfold formOf?
  cases found : all.find? fun g => bits &&& g.mask == g.opcode with
  | none =>
    have := List.find?_eq_none.mp found f (mem_all f)
    exact absurd (beq_iff_eq.mpr h) this
  | some g =>
    have other := List.find?_some found
    rw [Matches.unique (beq_iff_eq.mp other) h]

/-- The fixed bits are a multiple of what the fields hold, below the space of IT halfwords and of 32-bit instructions. -/
theorem opcode_above (f : Form) : ∃ q, f.opcode.toNat = twoPow f.fieldWidth * q ∧ twoPow f.fieldWidth * (q + 1) ≤ 0x4800 := by
  have table : ∀ f ∈ all, f.opcode.toNat = twoPow f.fieldWidth * (f.opcode.toNat / twoPow f.fieldWidth) ∧
      twoPow f.fieldWidth * (f.opcode.toNat / twoPow f.fieldWidth + 1) ≤ 0x4800 := by decide +kernel
  exact ⟨_, table f (mem_all f)⟩

/-- **A halfword made of fixed bits and fields** is their sum. -/
theorem toNat_word (f : Form) {n : Nat} (h : n < twoPow f.fieldWidth) :
    (f.opcode ||| BitVec.ofNat 16 n).toNat = f.opcode.toNat + n ∧ f.opcode.toNat + n < 0x4800 := by
  obtain ⟨q, above, below⟩ := f.opcode_above
  rw [Nat.mul_succ] at below
  have narrow : n < 65536 := by omega
  constructor
  · rw [BitVec.toNat_or, BitVec.toNat_ofNat, Nat.mod_eq_of_lt narrow, above]
    exact (Nat.two_pow_add_eq_or_of_lt h q).symm
  · omega

/-- A halfword made of fixed bits and fields has the fixed bits. -/
theorem matches_word (f : Form) {n : Nat} (h : n < twoPow f.fieldWidth) : f.Matches (f.opcode ||| BitVec.ofNat 16 n) := by
  have fixed : ∀ f ∈ all, f.opcode &&& f.mask = f.opcode := by decide
  unfold Matches
  apply BitVec.eq_of_getLsbD_eq
  intro j hj
  have kept := congrArg (BitVec.getLsbD · j) (fixed f (mem_all f))
  simp only [BitVec.getLsbD_and, f.getLsbD_mask j hj] at kept
  rw [BitVec.getLsbD_and, BitVec.getLsbD_or, BitVec.getLsbD_ofNat, f.getLsbD_mask j hj]
  by_cases low : j < f.fieldWidth
  · simpa [Nat.not_le.mpr low] using kept
  · have high : n.testBit j = false :=
      Nat.testBit_lt_two_pow (Nat.lt_of_lt_of_le h (Nat.pow_le_pow_right (by decide) (by omega)))
    simpa [high] using kept

end Form

/-! ## Operands -/

/-- **The operands that a form can hold.** -/
inductive Form.Takes : Form → List Operand → Prop
  | data (op : DataOp) {d m : Nat} (hd : d < 8) (hm : m < 8) : Takes (.data op) [.register d, .register m]
  | addSub (op : AddSub) {d n m : Nat} (hd : d < 8) (hn : n < 8) (hm : m < 8) :
    Takes (.addSub op) [.register d, .register n, .register m]
  | addSubImmediate (op : AddSub) {d n v : Nat} (hd : d < 8) (hn : n < 8) (hv : v < 8) :
    Takes (.addSubImmediate op) [.register d, .register n, .immediate v]
  | byte (op : ByteOp) {d v : Nat} (hd : d < 8) (hv : v < 256) : Takes (.byte op) [.register d, .immediate v]
  | high (op : HighOp) {d m : Nat} (hd : d < 16) (hm : m < 16) : Takes (.high op) [.register d, .register m]

theorem lowFault?_eq_none {code : Nat} : lowFault? code = none ↔ code < 8 := by
  unfold lowFault? isLow
  split <;> simp_all

theorem immediateFault?_eq_none {v bits : Nat} : immediateFault? v bits = none ↔ v < twoPow bits := by
  unfold immediateFault?
  split <;> simp_all

namespace Form

/-- **Operands that pass the checks of a form are operands that it can hold.** -/
theorem takes_of_faultless {f : Form} {ops : List Operand} (accepted : f.shape.accepts ops = true)
    (clean : f.fault? ops = none) : f.Takes ops := by
  cases f with
  | data op =>
    unfold shape Shape.accepts at accepted
    split at accepted <;> simp_all [Form.fault?, lowFault?_eq_none]
    exact .data op clean.1 clean.2
  | addSub op =>
    unfold shape Shape.accepts at accepted
    split at accepted <;> simp_all [Form.fault?, lowFault?_eq_none]
    exact .addSub op clean.1 clean.2.1 clean.2.2
  | addSubImmediate op =>
    unfold shape Shape.accepts at accepted
    split at accepted <;> simp_all [Form.fault?, lowFault?_eq_none, immediateFault?_eq_none]
    exact .addSubImmediate op clean.1 clean.2.1 clean.2.2
  | byte op =>
    unfold shape Shape.accepts at accepted
    split at accepted <;> simp_all [Form.fault?, lowFault?_eq_none, immediateFault?_eq_none]
    exact .byte op clean.1 clean.2
  | high op =>
    unfold shape Shape.accepts at accepted
    split at accepted <;> simp_all [Form.fault?]
    rename_i d m
    by_cases outside : 16 ≤ d ∨ 16 ≤ m
    · simp [outside] at clean
    · exact .high op (by omega) (by omega)

namespace Takes

variable {f : Form} {ops : List Operand}

/-- The operands fit in the fields. -/
theorem fieldBits_lt (h : f.Takes ops) : f.fieldBits ops < twoPow f.fieldWidth := by
  cases h <;> simp only [fieldBits, fieldWidth, shape, twoPow, Nat.pow_eq, Nat.reducePow] <;> omega

/-- **The operands are read back.** -/
theorem operands_eq (h : f.Takes ops) : f.operands (f.opcode ||| BitVec.ofNat 16 (f.fieldBits ops)) = ops := by
  obtain ⟨word, -⟩ := f.toNat_word h.fieldBits_lt
  obtain ⟨q, above, -⟩ := f.opcode_above
  unfold operands
  rw [word, above]
  cases h <;> simp only [fieldBits, fieldWidth, shape, twoPow, Nat.pow_eq, Nat.reducePow, List.cons.injEq,
    Operand.register.injEq, Operand.immediate.injEq, and_true] <;> omega

end Takes

end Form

/-! ## Halfwords -/

/-- **What an instruction needs to be encoded**, in a block or outside of one. -/
structure Instruction.Encodes (inst : Instruction) (inBlock : Bool) (f : Form) : Prop where
  form : inst.form = some f
  takes : f.Takes inst.ops
  clean : f.fault? inst.ops = none
  low : (if inBlock then Instruction.highRegister? inst.ops else none) = none

/-- The halfword of a form and operands that it can hold. -/
def Form.word (f : Form) (ops : List Operand) : Halfword := f.opcode ||| BitVec.ofNat 16 (f.fieldBits ops)

theorem Instruction.encodes_of_halfword {inst : Instruction} {inBlock : Bool} {bits : Halfword}
    (h : inst.halfword inBlock = .ok bits) : ∃ f, inst.Encodes inBlock f ∧ bits = f.word inst.ops := by
  unfold halfword at h
  split at h
  · cases h
  · rename_i f form
    split at h
    · cases h
    · rename_i accepted
      split at h
      · cases h
      · rename_i clean
        split at h
        · cases h
        · rename_i low
          cases h
          have accepted : f.shape.accepts inst.ops = true := by simpa using accepted
          exact ⟨f, ⟨form, Form.takes_of_faultless accepted clean, clean, low⟩, rfl⟩

namespace Instruction.Encodes

variable {inst : Instruction} {inBlock : Bool} {f : Form}

/-- **The halfword of an instruction is decoded as the instruction**, under its condition. -/
theorem decodeHalfword (h : inst.Encodes inBlock f) :
    T32.decodeHalfword (f.word inst.ops) inst.cond inBlock = .ok inst := by
  have operands : f.operands (f.word inst.ops) = inst.ops := h.takes.operands_eq
  have found : formOf? (f.word inst.ops) = some f := Form.formOf?_of_matches (f.matches_word h.takes.fieldBits_lt)
  unfold T32.decodeHalfword reservedOperands?
  simp only [found, operands, h.clean, h.low]
  rw [← h.form]

/-- The halfword of an instruction is neither an IT halfword nor the first one of a 32-bit instruction. -/
theorem plain (h : inst.Encodes inBlock f) : inBlockSpace (f.word inst.ops) = false ∧ isWide (f.word inst.ops) = false := by
  obtain ⟨word, below⟩ := f.toNat_word h.takes.fieldBits_lt
  have small : (f.word inst.ops).toNat < 0x4800 := by
    unfold Form.word
    omega
  constructor
  · unfold inBlockSpace
    rw [beq_eq_false_iff_ne]
    intro same
    have := congrArg BitVec.toNat same
    simp [BitVec.toNat_ushiftRight, Nat.shiftRight_eq_div_pow] at this
    omega
  · unfold isWide
    rw [decide_eq_false_iff_not, BitVec.toNat_ushiftRight, Nat.shiftRight_eq_div_pow]
    omega

/-- **A step over the halfword of an instruction gives the instruction**, where the open block has its condition. -/
theorem streamStep (h : inst.Encodes inBlock f) (offset : Nat) (block : Block) (cond : block.pending.headD .al = inst.cond)
    (pending : decide (block.pending ≠ []) = inBlock) :
    T32.streamStep offset block (f.word inst.ops) = .decoded inst { block with pending := block.pending.tail } := by
  obtain ⟨space, wide⟩ := h.plain
  unfold T32.streamStep
  simp only [space, wide, Bool.false_eq_true, false_and, if_false, cond, pending, h.decodeHalfword]

end Instruction.Encodes

namespace Instruction

variable {inst : Instruction}

theorem isConditional_eq_true : inst.isConditional = true ↔ inst.cond ≠ .al := bne_iff_ne

theorem isConditional_eq_false : inst.isConditional = false ↔ inst.cond = .al := bne_eq_false_iff_eq

/-- **The bytes of an instruction** are those of its halfword, behind the IT of its condition. -/
theorem encode_cases {bytes : List Byte} (h : inst.encode = .ok bytes) :
    ∃ f, inst.Encodes inst.isConditional f ∧ inst.cond ≠ .nv ∧
      bytes = (if inst.isConditional then halfwordBytes (itHalfword inst.cond) else []) ++ halfwordBytes (f.word inst.ops) := by
  unfold encode at h
  split at h
  · cases h
  · rename_i valid
    split at h
    · cases h
    · rename_i bits halfword
      cases h
      obtain ⟨f, encodes, rfl⟩ := encodes_of_halfword halfword
      exact ⟨f, encodes, valid, rfl⟩

end Instruction

/-! ## Streams -/

/-- A halfword is put together from its bytes. -/
theorem append_halfwordBytes (bits : Halfword) : ((bits >>> 8).setWidth 8 : Byte) ++ (bits.setWidth 8 : Byte) = bits := by
  apply BitVec.eq_of_getLsbD_eq
  intro j hj
  rw [BitVec.getLsbD_append]
  by_cases low : j < 8
  · simp [low]
  · simp [low, show j - 8 < 8 by omega, show 8 + (j - 8) = j by omega]

/-- The IT halfword of a condition opens a block of one instruction. -/
theorem streamStep_itHalfword {c : Condition} (h : c ≠ .nv) (offset : Nat) :
    streamStep offset {} (itHalfword c) = .opened { length := 1, pending := [c] } := by
  cases c with
  | nv => exact absurd rfl h
  | _ => rfl

/-- Behind the IT of its condition a halfword that can stand in a block is one instruction. -/
theorem decodeSingle_block {inst : Instruction} {f : Form} (h : inst.Encodes true f) (valid : inst.cond ≠ .nv) :
    decodeSingle (halfwordBytes (itHalfword inst.cond) ++ halfwordBytes (f.word inst.ops)) = .ok inst := by
  have step := h.streamStep 2 { length := 1, pending := [inst.cond] } rfl rfl
  unfold decodeSingle decodeStream
  simp [halfwordBytes, decodeFrom, append_halfwordBytes, streamStep_itHalfword valid, step, Stream.single]

/-- **The bytes of an instruction are decoded as the instruction.** -/
theorem decodeSingle_of_encode {inst : Instruction} {bytes : List Byte} (h : inst.encode = .ok bytes) :
    decodeSingle bytes = .ok inst := by
  obtain ⟨f, encodes, valid, rfl⟩ := inst.encode_cases h
  cases conditional : inst.isConditional with
  | false =>
    rw [conditional] at encodes
    have step := encodes.streamStep 0 {} (Instruction.isConditional_eq_false.mp conditional).symm rfl
    unfold decodeSingle decodeStream
    simp [halfwordBytes, decodeFrom, append_halfwordBytes, step, Stream.single, conditional]
  | true =>
    rw [conditional] at encodes
    exact decodeSingle_block encodes valid

end ArmToolkit.T32
