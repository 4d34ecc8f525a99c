import ArmToolkit.Proofs.MovedImmediate
import ArmToolkit.Proofs.PredicatedMacro

/-!
# `Proofs.LaneWrites` — instructions that replace all lanes of a vector register

## Contents
- **One instruction.** `ReplacesLanes` says what an instruction puts into the lanes of a vector register. It does so where
  it is emitted (`ReplacesLanes.emits`), and where its word has been tried out (`ReplacesLanes.tried`).
- **The instructions.** Copies of immediates and of general registers, operations with an immediate and on two vectors,
  and whole copies.
- **Byte immediates.** A word that was found for an immediate holds the immediate, shifted or not
  (`Assembler.byteImmediate?_eq_some`).
- **Cut immediates.** Immediates that are cut to a lane, as signed or as unsigned numbers, have the bits of the lane.
- **Copies of an immediate.** Immediates of any value go through a general register that is as wide as the lanes need
  (`Assembler.acquireForLane_emits`, `Registers.Wrote.setWidth_general`). `Assembler.dup_emits`: an immediate of any value
  is copied to every lane.
-/

namespace ArmToolkit.A64

/-! ## One instruction -/

/-- **An instruction on plain operands that replaces all lanes of a vector register**, and what it puts there. -/
structure ReplacesLanes (f : Form) (ops : List Operand) (l : LaneSize) (zd : Nat)
    (value : Registers → Nat → BitVec l.bits) : Prop where
  accepted : f.accepts ops = true
  plain : ∀ op ∈ ops, op.IsPlain
  vector : f.NeedsLength
  code : zd < 32
  writes : ∀ vl core, Semantics.executeVector f vl ops core =
    Semantics.registersOnly core (Semantics.onAll vl core.regs l zd (value core.regs))

namespace ReplacesLanes

variable {a : Assembler} {f : Form} {ops : List Operand} {l : LaneSize} {zd : Nat} {value : Registers → Nat → BitVec l.bits}

/-- An instruction that replaces lanes is encoded where its checks pass. -/
theorem encodes (h : ReplacesLanes f ops l zd value) (checks : ∀ c ∈ f.checks, c.Passes f ops) :
    Instruction.Encodes f .al ops := .of_plain h.accepted h.plain checks

/-- The word of an instruction that replaces lanes is a straight line. -/
theorem straight (h : ReplacesLanes f ops l zd value) (encodes : Instruction.Encodes f .al ops) {sim : Simulator}
    {vl : VectorLength} (configured : sim.core.regs.vl = some vl) :
    ∃ after, sim.Straight [Instruction.word f .al ops] after ∧
      Core.Replaced vl l sim.core after.core zd (value sim.core.regs) := by
  have done := (h.vector.execute .al ops configured).trans (h.writes vl sim.core)
  exact ⟨_, .one encodes h.plain done, Core.replaced_onAll h.code _ sim.nextPc⟩

/-- The word of an instruction that replaces lanes leaves the new lanes in the register. -/
theorem word_emits (h : ReplacesLanes f ops l zd value) (encodes : Instruction.Encodes f .al ops) :
    a.Emits (a.append [Instruction.word f .al ops]) fun vl core after =>
      Core.Sets vl l core after zd (value core.regs) := by
  refine ⟨_, rfl, fun sim vl configured => ?_⟩
  obtain ⟨after, straight, replaced⟩ := h.straight encodes configured
  exact ⟨after, straight.executeWords?, replaced.length.trans configured, replaced.toSets⟩

/-- **An instruction whose checks pass** is emitted. -/
theorem emits (h : ReplacesLanes f ops l zd value) (checks : ∀ c ∈ f.checks, c.Passes f ops) :
    a.Emits (a.emit f.mnemonic ops) fun vl core after => Core.Sets vl l core after zd (value core.regs) := by
  rw [Assembler.emit_of_encodes (h.encodes checks)]
  exact h.word_emits (h.encodes checks)

/-- **An instruction that was tried out** is emitted as the word that was found. -/
theorem tried (h : ReplacesLanes f ops l zd value) {w : Word} (found : Assembler.tryEncode? f.mnemonic ops = some w) :
    a.Emits (a.dc32 w) fun vl core after => Core.Sets vl l core after zd (value core.regs) := by
  obtain ⟨encodes, rfl⟩ := Assembler.tryEncode?_eq_some h.accepted found
  rw [Assembler.dc32_eq_append]
  exact h.word_emits encodes

end ReplacesLanes

/-! ## The instructions -/

section

variable {l : LaneSize} {zd zn zm : Nat}

/-- An immediate is copied to every lane. -/
theorem dupImm_replaces (hzd : zd < 32) (v : BitVec 64) (s : Nat) :
    ReplacesLanes .dupImm [.ofZ ⟨zd, some l⟩, .shiftedImm v s] l zd fun _ _ => (v <<< s).setWidth l.bits where
  accepted := rfl
  plain := by
    simp only [List.forall_mem_cons]
    exact ⟨.register (.vector _ hzd), .immediate v s, List.forall_mem_nil _⟩
  vector _ _ _ := rfl
  code := hzd
  writes _ _ := rfl

/-- A bitmask immediate is copied to every lane. -/
theorem dupm_replaces (hzd : zd < 32) (v : BitVec 64) :
    ReplacesLanes .dupm [.ofZ ⟨zd, some l⟩, .ofImm v] l zd fun _ _ => v.setWidth l.bits where
  accepted := rfl
  plain := by
    simp only [List.forall_mem_cons]
    exact ⟨.register (.vector _ hzd), .immediate v 0, List.forall_mem_nil _⟩
  vector _ _ _ := rfl
  code := hzd
  writes _ _ := rfl

/-- A general register is copied to every lane. -/
theorem dupScalar_replaces (hzd : zd < 32) {tmp : XReg} (code : tmp.code < 32) :
    ReplacesLanes .dupScalar [.ofZ ⟨zd, some l⟩, .ofX tmp] l zd fun r _ =>
      (r.general (.ofX tmp) .stack).setWidth l.bits where
  accepted := by
    obtain ⟨n, width⟩ := tmp
    cases width <;> rfl
  plain := by
    simp only [List.forall_mem_cons]
    exact ⟨.register (.vector _ hzd), .general tmp code, List.forall_mem_nil _⟩
  vector _ _ _ := rfl
  code := hzd
  writes _ _ := rfl

/-- Every lane is combined with an immediate. -/
theorem immediate_replaces (hzd : zd < 32) (op : ImmediateOp) (v : BitVec 64) (s : Nat) :
    ReplacesLanes (.immediate op) [.ofZ ⟨zd, some l⟩, .ofZ ⟨zd, some l⟩, .shiftedImm v s] l zd fun r i =>
      Semantics.withImmediate op (r.zLane zd l.bits i) (v <<< s) where
  accepted := rfl
  plain := by
    simp only [List.forall_mem_cons]
    exact ⟨.register (.vector _ hzd), .register (.vector _ hzd), .immediate v s, List.forall_mem_nil _⟩
  vector _ _ _ := rfl
  code := hzd
  writes _ _ := rfl

/-- Every lane is combined with a bitmask immediate. -/
theorem bitmask_replaces (hzd : zd < 32) (op : BitmaskOp) (v : BitVec 64) :
    ReplacesLanes (.bitmask op) [.ofZ ⟨zd, some l⟩, .ofZ ⟨zd, some l⟩, .ofImm v] l zd fun r i =>
      op.op.apply (r.zLane zd l.bits i) (v.setWidth l.bits) where
  accepted := rfl
  plain := by
    simp only [List.forall_mem_cons]
    exact ⟨.register (.vector _ hzd), .register (.vector _ hzd), .immediate v 0, List.forall_mem_nil _⟩
  vector _ _ _ := rfl
  code := hzd
  writes _ _ := rfl

/-- The operands of an operation on two vectors. -/
def vectorOps (l : LaneSize) (zd zn zm : Nat) : List Operand :=
  [.ofZ ⟨zd, some l⟩, .ofZ ⟨zn, some l⟩, .ofZ ⟨zm, some l⟩]

theorem vectorOps_plain (hzd : zd < 32) (hzn : zn < 32) (hzm : zm < 32) : ∀ op ∈ vectorOps l zd zn zm, op.IsPlain := by
  simp only [vectorOps, List.forall_mem_cons]
  exact ⟨.register (.vector _ hzd), .register (.vector _ hzn), .register (.vector _ hzm), List.forall_mem_nil _⟩

/-- Two vectors are combined lane by lane. -/
theorem unpredicated_replaces (hzd : zd < 32) (hzn : zn < 32) (hzm : zm < 32) (op : UnpredicatedOp) :
    ReplacesLanes (.unpredicated op) (vectorOps l zd zn zm) l zd fun r i =>
      op.op.apply (r.zLane zn l.bits i) (r.zLane zm l.bits i) where
  accepted := rfl
  plain := vectorOps_plain hzd hzn hzm
  vector _ _ _ := rfl
  code := hzd
  writes vl core := congrArg (Semantics.registersOnly core) (Semantics.unpredicated_eq_lanewise vl _ core.regs op.op)

/-- The operation of a bitmask on two vectors. -/
def BitmaskOp.bitwise : BitmaskOp → BitwiseOp
  | orr => .orr
  | eor => .eor
  | and => .and

theorem BitmaskOp.op_bitwise (op : BitmaskOp) : op.bitwise.op = op.op := by cases op <;> rfl

/-- **Two vectors are combined bit by bit**, whatever size their lanes are read at. -/
theorem bitwise_replaces (hzd : zd < 32) (hzn : zn < 32) (hzm : zm < 32) (op : BitmaskOp) (l : LaneSize) :
    ReplacesLanes (.bitwise op.bitwise) (vectorOps .d zd zn zm) l zd fun r i =>
      op.op.apply (r.zLane zn l.bits i) (r.zLane zm l.bits i) where
  accepted := rfl
  plain := vectorOps_plain hzd hzn hzm
  vector _ _ _ := rfl
  code := hzd
  writes vl core := by
    refine congrArg (Semantics.registersOnly core) ((Semantics.unpredicated_eq_lanewise vl _ core.regs _).trans ?_)
    rw [BitmaskOp.op_bitwise]
    refine Semantics.onAll_regroup vl core.regs fun j _ => op.getLsbD_apply ?_ ?_
    · exact (Registers.getLsbD_zLane_div core.regs zn .d j).trans (Registers.getLsbD_zLane_div core.regs zn l j).symm
    · exact (Registers.getLsbD_zLane_div core.regs zm .d j).trans (Registers.getLsbD_zLane_div core.regs zm l j).symm

/-- A vector is copied, whatever size its lanes are read at. -/
theorem movprfx_replaces (hzd : zd < 32) (hzn : zn < 32) (l : LaneSize) :
    ReplacesLanes .movprfx [.ofZ ⟨zd, none⟩, .ofZ ⟨zn, none⟩] l zd fun r => r.zLane zn l.bits where
  accepted := rfl
  plain := by
    simp only [List.forall_mem_cons]
    exact ⟨.register (.vector _ hzd), .register (.vector _ hzn), List.forall_mem_nil _⟩
  vector _ _ _ := rfl
  code := hzd
  writes vl core := by
    have bytes : vl.lanes .b = vl.bytes := Nat.div_one vl.bytes
    have copied : Semantics.onAll vl core.regs .b zd (core.regs.zLane zn LaneSize.b.bits) =
        Semantics.onAll vl core.regs l zd (core.regs.zLane zn l.bits) := Semantics.onAll_copy vl core.regs (fun _ => rfl) l
    rw [← copied, Semantics.onAll, bytes]
    rfl

end

/-! ## Byte immediates -/

/-- An immediate that is shifted by a byte is what it was divided from. -/
theorem byteShifted?_eq_some {lane : Option LaneSize} {imm v : BitVec 64} (h : byteShifted? lane imm = some v) :
    v <<< 8 = imm := by
  obtain ⟨⟨-, -, whole⟩, ⟨⟩⟩ := Option.ite_none_right_eq_some.mp h
  have shift : BitVec.twoPow 64 8 = BitVec.ofInt 64 256 := by decide
  rw [BitVec.shiftLeft_eq_mul_twoPow, shift, ← BitVec.ofInt_mul, Int.ediv_mul_cancel (Int.dvd_of_emod_eq_zero whole),
    BitVec.ofInt_toInt]

/-- **A word that was found for an immediate** holds it, shifted or not. -/
theorem Assembler.byteImmediate?_eq_some {m : Mnemonic} {ops : List Operand} {lane : Option LaneSize} {imm : BitVec 64}
    {w : Word} (h : byteImmediate? m ops lane imm = some w) :
    ∃ v s, tryEncode? m (ops ++ [.shiftedImm v s]) = some w ∧ v <<< s = imm := by
  unfold byteImmediate? at h
  cases plain : tryEncode? m (ops ++ [.ofImm imm]) with
  | some w' =>
    rw [plain] at h
    cases h
    exact ⟨imm, 0, plain, BitVec.shiftLeft_zero imm⟩
  | none =>
    rw [plain] at h
    obtain ⟨v, shifted, found⟩ := Option.bind_eq_some_iff.mp h
    exact ⟨v, 8, found, byteShifted?_eq_some shifted⟩

/-! ## Cut immediates -/

/-- The lanes of vector instructions are no wider than an immediate. -/
theorem Form.bits_le_of_bhsd {l : LaneSize} (allowed : l ∈ Form.bhsd) : l.bits ≤ 64 := by
  have table : ∀ l ∈ Form.bhsd, l.bits ≤ 64 := by decide
  exact table l allowed

section

variable {l : LaneSize}

/-- An immediate cut to a lane as a signed number has the bits of the lane. -/
theorem setWidth_laneSigned (allowed : l ∈ Form.bhsd) (imm : BitVec 64) :
    (laneSigned (some l) imm).setWidth l.bits = imm.setWidth l.bits := by
  have narrow := Form.bits_le_of_bhsd allowed
  apply BitVec.eq_of_getLsbD_eq
  intro j hj
  rw [laneSigned, laneBits, BitVec.getLsbD_setWidth, BitVec.getLsbD_signExtend, if_pos hj, decide_eq_true hj,
    decide_eq_true (by omega : j < 64), Bool.true_and, Bool.true_and]

/-- An immediate cut to a lane as an unsigned number has the bits of the lane. -/
theorem setWidth_laneUnsigned (allowed : l ∈ Form.bhsd) (imm : BitVec 64) :
    (laneUnsigned (some l) imm).setWidth l.bits = imm.setWidth l.bits := by
  have narrow := Form.bits_le_of_bhsd allowed
  apply BitVec.eq_of_getLsbD_eq
  intro j hj
  rw [laneUnsigned, laneBits, BitVec.getLsbD_setWidth, BitVec.getLsbD_and,
    BitmaskImmediate.getLsbD_onesBelow _ (by omega : j < 64), BitVec.getLsbD_setWidth, decide_eq_true hj, Bool.and_true]

end

/-- What is put into lanes behind a change of general registers alone. -/
theorem Core.Sets.of_wrote {vl : VectorLength} {l : LaneSize} {core mid after : Core} {zd code : Nat} {v : BitVec 64}
    {value : Nat → BitVec l.bits} (wrote : core.regs.Wrote mid.regs code v) (sets : Core.Sets vl l mid after zd value) :
    Core.Sets vl l core after zd value :=
  ⟨fun p => (sets.predicate p).trans (wrote.pBits p), sets.written,
    fun z other i hi => (sets.kept z other i hi).trans (wrote.zLane z l.bits i)⟩

/-! ## Copies of an immediate -/

/-- The general register of a code, as wide as lanes of a size need. -/
def XReg.forLane (l : LaneSize) (code : Nat) : XReg := ⟨code, if isDouble (some l) then .x else .w⟩

section

variable {l : LaneSize} {code : Nat}

/-- A general register for lanes is as wide as the lanes at least. -/
theorem XReg.bits_le_forLane (code : Nat) (allowed : l ∈ Form.bhsd) : l.bits ≤ (XReg.forLane l code).width.bits := by
  have table : ∀ l ∈ Form.bhsd, l.bits ≤ (if isDouble (some l) then Width.x else .w).bits := by decide
  exact table l allowed

/-- A general register for lanes has the width that instructions on the lanes ask for. -/
theorem XReg.widthFault?_forLane : Slot.widthFault? (some l) (.ofX (.forLane l code)) = none := by
  cases l <;> rfl

/-- **An immediate that was moved to a general register for lanes** has the bits of the lane. -/
theorem Registers.Wrote.setWidth_general {r after : Registers} {v : BitVec 64}
    (wrote : r.Wrote after code ((XReg.forLane l code).width.cut v)) (hc : code < 31) (allowed : l ∈ Form.bhsd) (c : Code31) :
    (after.general (.ofX (.forLane l code)) c).setWidth l.bits = v.setWidth l.bits := by
  rw [Registers.general_ofX]
  show (Width.cut _ (after.read code c)).setWidth _ = _
  rw [wrote.read hc, Width.cut_cut, Width.setWidth_cut _ (XReg.bits_le_forLane code allowed)]

end

namespace Assembler

variable {a : Assembler} {l : LaneSize} {zd : Nat}

/-- **What is done with a general scratch register** of the width that lanes need. -/
theorem acquireForLane_emits {body : XReg → Assembler → Assembler} {effect : VectorLength → Core → Core → Prop}
    (free : ∃ k < 31, a.pools.has .general k = true)
    (works : ∀ code < 31, ∀ b : Assembler, b.Emits (body (.forLane l code) b) effect) :
    a.Emits (a.inScope fun a => a.acquireForLane (some l) body) effect := by
  obtain ⟨code, hcode, lowest⟩ := ScratchPools.lowest?_general free
  refine Emits.inScope (a.pools.remove .general code) ?_
  unfold acquireForLane withScratch acquire
  rw [lowest]
  exact works code hcode _

/-- An immediate is moved to a general register for lanes. -/
theorem moveForLane_emits (a : Assembler) {code : Nat} (hcode : code < 31) (imm : BitVec 64) :
    a.Emits (a.moveImmediate (.forLane l code) imm) fun _ core after =>
      core.regs.Wrote after.regs code ((XReg.forLane l code).width.cut imm) := by
  have hrd : (XReg.forLane l code).code < 31 := hcode
  exact (moveImmediate_loads hrd imm).emits a

/-- An immediate is copied through a general register that is as wide as the lanes need. -/
theorem dupThrough_emits {code : Nat} (hcode : code < 31) (allowed : l ∈ Form.bhsd) (hzd : zd < 32) (value : BitVec 64) :
    a.Emits ((a.moveImmediate (.forLane l code) value).emit .dup [.ofZ ⟨zd, some l⟩, .ofX (.forLane l code)])
      fun vl core after => Core.Sets vl l core after zd fun _ => value.setWidth l.bits := by
  have hrn : (XReg.forLane l code).code < 32 := Nat.lt_succ_of_lt hcode
  have replaces := dupScalar_replaces (l := l) hzd hrn
  have checks : ∀ c ∈ Form.dupScalar.checks, c.Passes .dupScalar [.ofZ ⟨zd, some l⟩, .ofX (.forLane l code)] := by
    simp only [Form.checks, List.forall_mem_cons]
    refine ⟨⟨l, allowed, rfl⟩, ?_, List.forall_mem_nil _⟩
    rintro s ⟨⟩
    exact XReg.widthFault?_forLane
  refine ((moveForLane_emits a hcode value).trans (replaces.emits checks)).mono fun vl core after done => ?_
  obtain ⟨mid, wrote, sets⟩ := done
  rw [wrote.setWidth_general hcode allowed .stack] at sets
  exact sets.of_wrote wrote

/-- **An immediate of any value is copied to every lane.** -/
theorem dup_emits (allowed : l ∈ Form.bhsd) (hzd : zd < 32) (free : ∃ k < 31, a.pools.has .general k = true)
    (imm : BitVec 64) :
    a.Emits (a.dup ⟨zd, some l⟩ imm) fun vl core after => Core.Sets vl l core after zd fun _ => imm.setWidth l.bits := by
  rw [← setWidth_laneSigned allowed imm]
  unfold dup
  dsimp only
  generalize laneSigned (some l) imm = value
  cases bytes : byteImmediate? .dup [.ofZ ⟨zd, some l⟩] (some l) value with
  | some w =>
    obtain ⟨v, s, tried, rfl⟩ := byteImmediate?_eq_some bytes
    exact (dupImm_replaces hzd v s).tried tried
  | none =>
    -- what neither immediate form takes goes through a general register
    cases mask : tryEncode? .dupm [.ofZ ⟨zd, some l⟩, .ofImm value] with
    | some w => exact (dupm_replaces hzd value).tried mask
    | none => exact acquireForLane_emits free fun code hcode b => dupThrough_emits hcode allowed hzd value

end Assembler

end ArmToolkit.A64
