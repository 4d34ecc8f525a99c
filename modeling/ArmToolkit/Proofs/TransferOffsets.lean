import ArmToolkit.Proofs.Frames
import ArmToolkit.Proofs.MovedImmediate
import ArmToolkit.Proofs.ScratchPools

/-!
# `Proofs.TransferOffsets` — a load or store at any multiple of a register length

An offset that has no encoding is split: the address is moved in vector lengths, a bounded number of them in each step,
and the last instruction has the rest. An offset is counted in register lengths, of which a vector length has one or
eight, so that the number of vector lengths is rounded away from zero.

## Contents
- **Registers.** `LengthRegister`: the two kinds of registers whose length is not fixed, with what an access to them does.
- **Numbers.** Everything that is computed for an offset of 64 bits fits in 64 bits (`fits_transferNumbers`), the rest is
  encoded (`rest_bounds`), and so is every step (`mem_lengthSteps`). There are as many steps as it takes
  (`length_lengthSteps`), and they add up (`total_lengthSteps`).
- **Steps.** One instruction moves the address by one step (`reaches_step`), and the whole sequence by the sum
  (`moveAddress_reaches`).
- **The macro.** `transfer_reaches`: the last instruction accesses the address that was asked for.
-/

namespace ArmToolkit.A64

/-! ## Registers -/

/-- **A register whose length is that of the vectors, or follows from it.** -/
inductive LengthRegister
  | vector (zt : ZReg)
  | predicate (pt : PReg)

namespace LengthRegister

/-- The register is one of the register file. -/
def Exists : LengthRegister → Prop
  | vector zt => zt.code < 32
  | predicate pt => pt.code < 16

/-- The number of registers that are as long as a vector. -/
def unit : LengthRegister → Int
  | vector _ => 1
  | predicate _ => 8

/-- The length in bytes. -/
def bytes (vl : VectorLength) : LengthRegister → Nat
  | vector _ => vl.bytes
  | predicate _ => vl.predicateBytes

/-- The register as it stands in a load or store. -/
def operand : LengthRegister → Operand
  | vector zt => .ofZ zt.unsized
  | predicate pt => .ofP pt.plain

/-- The form of a load or store of the register. -/
def form (access : Access) : LengthRegister → Form
  | vector _ => .transferZ access
  | predicate _ => .transferP access

/-- The macro that loads or stores the register at any multiple of its length. -/
def call (access : Access) (base : XReg) (offset : BitVec 64) : LengthRegister → MacroCall
  | vector zt => .transferVector access zt base offset
  | predicate pt => .transferPredicate access pt base offset

/-- **The access at an address**: the whole register is loaded or stored. -/
def accessAt (access : Access) (vl : VectorLength) (address : BitVec 64) (core : Core) : LengthRegister → TransferResult
  | vector zt =>
    match access with
    | .load =>
      Semantics.loading core address vl.bytes fun bytes =>
        core.regs.mapLanes zt.code 8 vl.bytes fun i => bytes.getD i 0
    | .store => Semantics.storing core address (bytesOf vl.bytes (core.regs.zBits zt.code))
  | predicate pt =>
    match access with
    | .load =>
      Semantics.loading core address vl.predicateBytes fun bytes =>
        core.regs.setP pt.code (putLanes 8 (core.regs.pBits pt.code) vl.predicateBytes fun i => bytes.getD i 0)
    | .store => Semantics.storing core address (bytesOf vl.predicateBytes (core.regs.pBits pt.code))

/-- The operands of a load or store at a multiple of the length. -/
def ops (r : LengthRegister) (base : Nat) (offset : Int) : List Operand := [r.operand, .mulVl base (Slot.intImm offset)]

variable {r : LengthRegister}

/-- A vector is as long as `unit` registers. -/
theorem unit_mul_bytes (r : LengthRegister) (vl : VectorLength) : r.unit * r.bytes vl = vl.bytes := by
  cases r with
  | vector zt => exact Int.one_mul _
  | predicate pt =>
    have whole := vl.predicateBytes_mul_eight
    show (8 : Int) * vl.predicateBytes = vl.bytes
    omega

theorem isPlain (hr : r.Exists) : r.operand.IsPlain := by
  cases r with
  | vector zt => exact .register (.vector zt.unsized hr)
  | predicate pt => exact .register (.predicate pt.plain hr)

theorem ops_plain (hr : r.Exists) {base : Nat} (hbase : base < 32) (offset : Int) :
    ∀ op ∈ r.ops base offset, op.IsPlain := by
  simp only [ops, List.forall_mem_cons]
  exact ⟨isPlain hr, .memory base _ hbase, List.forall_mem_nil _⟩

/-- **A load or store with a small offset** is encoded. -/
theorem ops_encodes (hr : r.Exists) (access : Access) {base : Nat} (hbase : base < 32) {offset : Int}
    (low : -256 ≤ offset) (high : offset ≤ 255) :
    Instruction.Encodes (r.form access) .al (r.ops base offset) := by
  have fits : Slot.vectorOffsetFault? 9 (.mulVl base (Slot.intImm offset)) = none := by
    have value : (Slot.intImm offset).toInt = offset := by
      refine Slot.toInt_intImm ?_ ?_
      · exact Int.le_trans (by decide) low
      · exact Int.lt_of_le_of_lt high (by decide)
    unfold Slot.vectorOffsetFault? Operand.value Operand.mulVl
    rw [value, if_pos ⟨low, Int.lt_of_le_of_lt high (by decide)⟩]
  refine .of_plain (by cases r <;> cases access <;> rfl) (ops_plain hr hbase offset) ?_
  cases r with
  | vector zt =>
    simp only [form, Form.checks, List.forall_mem_cons]
    refine ⟨rfl, ?_, List.forall_mem_nil _⟩
    rintro s ⟨⟩
    exact fits
  | predicate pt =>
    simp only [form, Form.checks, List.forall_mem_cons]
    refine ⟨rfl, ?_, List.forall_mem_nil _⟩
    rintro s ⟨⟩
    exact fits

/-- The instruction **accesses the address** that its base and its offset give. -/
theorem execute_ops (r : LengthRegister) (access : Access) {vl : VectorLength} {core : Core}
    (configured : core.regs.vl = some vl) (base : Nat) (offset : Int) :
    Semantics.execute (r.form access) .al (r.ops base offset) core =
      (r.accessAt access vl (core.regs.read base .stack + Slot.intImm offset * BitVec.ofNat 64 (r.bytes vl))
        core).outcome := by
  cases r with
  | vector zt =>
    have vector : (Form.transferZ access).NeedsLength := Form.needsLength_of_isVector rfl
    exact vector.execute .al _ configured
  | predicate pt =>
    have vector : (Form.transferP access).NeedsLength := Form.needsLength_of_isVector rfl
    exact vector.execute .al _ configured

/-- The load or store **leaves the general registers** as they are. -/
theorem read_of_execute_ops {access : Access} {base : Nat} {offset : Int} {core after : Core} {flow : Flow}
    (done : Semantics.execute (r.form access) .al (r.ops base offset) core = .done after flow) (code : Nat) :
    after.regs.read code .stack = core.regs.read code .stack := by
  have frame := Semantics.frame_execute done
  cases r <;> cases access <;> exact frame.read_stack nofun nofun

/-- **What is encoded is decoded again.** -/
theorem decode_ops (hr : r.Exists) (access : Access) {base : Nat} (hbase : base < 32) {offset : Int}
    (low : -256 ≤ offset) (high : offset ≤ 255) :
    Instruction.decode (Instruction.word (r.form access) .al (r.ops base offset)) =
      .ok ⟨some (r.form access), .al, r.ops base offset⟩ := by
  refine (ops_encodes hr access hbase low high).decode_of_plain (ops_plain hr hbase offset) ?_ ?_
  · cases r <;> rfl
  · cases r <;> simp [form, Form.slots, Form.plain, Slot.qualified]

end LengthRegister

namespace Assembler

/-! ## Numbers -/

/-- A number that 64 bits hold, with its sign. -/
def FitsSigned (z : Int) : Prop := -9223372036854775808 ≤ z ∧ z ≤ 9223372036854775807

/-- The numbers of vector lengths that are left after each step. -/
def lengthsLeft (vls : Int) : List Int → List Int
  | [] => []
  | step :: steps => (vls - step) :: lengthsLeft (vls - step) steps

/-- **Every number that is computed for an offset**: the excess and its absolute value, which is divided by the unit and
    rounded up, the vector lengths and how many units they are, the rest, and what the steps leave. -/
def transferNumbers (offset unit : Int) : List Int :=
  let excess := offset - clampInt (-256) 255 offset
  let distance := if 0 < excess then excess else -excess
  let vls := lengthsMoved offset unit
  [excess, distance, distance + unit, distance + unit - 1, (distance + unit - 1) / unit, vls, vls * unit,
    offset - vls * unit] ++ lengthsLeft vls (lengthSteps vls)

/-- The sum of some steps. -/
def total (steps : List Int) : Int := steps.foldr (· + ·) 0

/-- The number of steps that a number of vector lengths takes: 31 up and 32 down at a time. -/
def stepCount (vls : Int) : Nat := if 0 ≤ vls then (vls.toNat + 30) / 31 else (vls.natAbs + 31) / 32

/-- **Every step can be made** by an instruction. -/
theorem mem_lengthSteps (vls : Int) : ∀ step ∈ lengthSteps vls, -32 ≤ step ∧ step ≤ 31 := by
  induction vls using lengthSteps.induct with
  | case1 =>
    rw [lengthSteps]
    exact List.forall_mem_nil _
  | case2 vls more step ih =>
    rw [lengthSteps, dif_neg more, List.forall_mem_cons]
    refine ⟨?_, ih⟩
    unfold clampInt
    omega

/-- **The steps add up.** -/
theorem total_lengthSteps (vls : Int) : total (lengthSteps vls) = vls := by
  induction vls using lengthSteps.induct with
  | case1 =>
    rw [lengthSteps]
    rfl
  | case2 vls more step ih =>
    rw [lengthSteps, dif_neg more]
    show step + total (lengthSteps (vls - step)) = vls
    rw [ih]
    omega

theorem length_lengthSteps (vls : Int) : (lengthSteps vls).length = stepCount vls := by
  induction vls using lengthSteps.induct with
  | case1 =>
    rw [lengthSteps]
    rfl
  | case2 vls more step ih =>
    rw [lengthSteps, dif_neg more, List.length_cons, ih]
    have clamped : step = clampInt (-32) 31 vls := rfl
    unfold clampInt at clamped
    unfold stepCount
    by_cases up : 0 ≤ vls
    · rw [if_pos up, if_pos (by omega)]
      omega
    · rw [if_neg up]
      split <;> omega

/-- What is left is nearer to zero after each step. -/
theorem mem_lengthsLeft (vls : Int) :
    ∀ z ∈ lengthsLeft vls (lengthSteps vls), (0 ≤ z ∧ z ≤ vls) ∨ (vls ≤ z ∧ z ≤ 0) := by
  induction vls using lengthSteps.induct with
  | case1 =>
    rw [lengthSteps]
    exact List.forall_mem_nil _
  | case2 vls more step ih =>
    have clamped : step = clampInt (-32) 31 vls := rfl
    unfold clampInt at clamped
    rw [lengthSteps, dif_neg more]
    refine List.forall_mem_cons.mpr ⟨?_, fun z hz => ?_⟩
    · show (0 ≤ vls - step ∧ vls - step ≤ vls) ∨ (vls ≤ vls - step ∧ vls - step ≤ 0)
      omega
    · have := ih z hz
      omega

section

variable {offset unit : Int}

/-- **How far an offset is moved**: not at all if it can be encoded, or else beyond the nearest offset that can, and by
    less than a vector length beyond it. -/
theorem lengthsMoved_cases (offset : Int) (units : unit = 1 ∨ unit = 8) :
    (-256 ≤ offset ∧ offset ≤ 255 ∧ lengthsMoved offset unit = 0) ∨
      (255 < offset ∧ offset - 255 ≤ lengthsMoved offset unit * unit ∧
        lengthsMoved offset unit * unit < offset - 255 + unit) ∨
      (offset < -256 ∧ lengthsMoved offset unit * unit ≤ offset + 256 ∧
        offset + 256 - unit < lengthsMoved offset unit * unit) := by
  unfold lengthsMoved clampInt
  dsimp only
  rcases units with rfl | rfl
  · split <;> omega
  · split <;> omega

/-- **The rest of an offset is encoded.** -/
theorem rest_bounds (offset : Int) (units : unit = 1 ∨ unit = 8) :
    -256 ≤ offset - lengthsMoved offset unit * unit ∧ offset - lengthsMoved offset unit * unit ≤ 255 := by
  have moved := lengthsMoved_cases offset units
  rcases units with rfl | rfl <;> omega

/-- **No computation overflows**, whatever the offset of 64 bits. -/
theorem fits_transferNumbers (units : unit = 1 ∨ unit = 8) (fits : FitsSigned offset) :
    ∀ z ∈ transferNumbers offset unit, FitsSigned z := by
  have moved := lengthsMoved_cases offset units
  have left := mem_lengthsLeft (lengthsMoved offset unit)
  unfold FitsSigned at fits ⊢
  intro z hz
  rcases List.mem_append.mp hz with hz | hz
  · unfold clampInt at hz
    simp only [List.mem_cons, List.not_mem_nil, or_false] at hz
    -- the quotient is between zero and its dividend
    rcases units with rfl | rfl
    · split at hz <;> omega
    · split at hz <;> omega
  · have near := left z hz
    rcases units with rfl | rfl <;> omega

end

/-! ## Steps -/

/-- **A word that moves an address** by some vector lengths. -/
def IsStep (addr : Nat) (w : Word) : Prop :=
  ∃ (src : XReg) (step : Int), -32 ≤ step ∧ step ≤ 31 ∧
    Instruction.decode w = .ok ⟨some .addvl, .al, [.ofX (.x addr), .ofX src, .ofImm (Slot.intImm step)]⟩

/-- **Words that leave in an address register** what is in a source register and some vector lengths more. -/
def Reaches (body : Assembler → Assembler) (addr : Nat) (src : XReg) (steps : List Int) : Prop :=
  ∃ ws, (∀ a : Assembler, body a = a.append ws) ∧ ws.length = steps.length ∧ (∀ w ∈ ws, IsStep addr w) ∧
    ∀ (sim : Simulator) (vl : VectorLength), sim.core.regs.vl = some vl →
      ∃ after, sim.Straight ws after ∧ sim.core.regs.Wrote after.core.regs addr
        (sim.core.regs.read src.code .stack + Slot.intImm (total steps) * BitVec.ofNat 64 vl.bytes)

/-- The operands of a step. -/
def stepOps (addr : Nat) (src : XReg) (step : Int) : List Operand :=
  [.ofX (.x addr), .ofX src, .ofImm (Slot.intImm step)]

section

variable {addr : Nat} {src : XReg} {step : Int}

theorem stepOps_plain (haddr : addr < 31) (hsrc : src.code < 32) : ∀ op ∈ stepOps addr src step, op.IsPlain := by
  simp only [stepOps, List.forall_mem_cons]
  exact ⟨.general _ (Nat.lt_of_lt_of_le haddr (by decide)), .general src hsrc, .immediate _ 0, List.forall_mem_nil _⟩

theorem stepOps_encodes (haddr : addr < 31) (hsrc : src.code < 32) (wide : src.width = .x) (low : -32 ≤ step)
    (high : step ≤ 31) : Instruction.Encodes .addvl .al (stepOps addr src step) := by
  obtain ⟨code, width⟩ := src
  obtain rfl : width = .x := wide
  have value : (Slot.intImm step).toInt = step := by
    refine Slot.toInt_intImm ?_ ?_
    · exact Int.le_trans (by decide) low
    · exact Int.lt_of_le_of_lt high (by decide)
  refine .of_plain rfl (stepOps_plain haddr hsrc) ?_
  simp only [Form.checks, List.forall_mem_cons]
  refine ⟨?_, List.forall_mem_nil _⟩
  rintro s ⟨⟩
  have inRange : rangeFault? (Slot.intImm step).toInt (-32) 31 = none := by
    rw [value]
    exact if_pos ⟨low, high⟩
  exact orElse_eq_none.mpr ⟨inRange, rfl⟩

/-- **One step** adds its multiple of the vector length. -/
theorem reaches_step (haddr : addr < 31) (hsrc : src.code < 32) (wide : src.width = .x) (low : -32 ≤ step)
    (high : step ≤ 31) : Reaches (fun a => a.emit .addvl (stepOps addr src step)) addr src [step] := by
  have encodes := stepOps_encodes haddr hsrc wide low high
  have plain : ∀ op ∈ stepOps addr src step, op.IsPlain := stepOps_plain haddr hsrc
  refine ⟨_, fun a => emit_of_encodes encodes, rfl, ?_, fun sim vl configured => ?_⟩
  · rw [List.forall_mem_singleton]
    exact ⟨src, step, low, high, encodes.decode_of_plain plain rfl (by decide)⟩
  · have vector : Form.addvl.NeedsLength := Form.needsLength_of_isVector rfl
    refine Simulator.Straight.write encodes plain sim ((vector.execute .al _ configured).trans ?_)
    have one : total [step] = step := Int.add_zero step
    have whole : (Operand.ofX src) = .ofX ⟨src.code, .x⟩ := by rw [← wide]
    have source : sim.core.regs.general (.ofX src) .stack = sim.core.regs.read src.code .stack := by
      rw [Registers.general_ofX, wide, Width.cut_x]
    refine congrArg (Semantics.registersOnly sim.core) ((Registers.setGeneral_ofX ..).trans ?_)
    show sim.core.regs.write addr (Width.x.cut (sim.core.regs.general (.ofX src) .stack + _)) .stack = _
    rw [source, Width.cut_x, one, Registers.write_of_lt _ haddr, Registers.write_of_lt _ haddr]
    rfl

end

/-- **The sequence of steps.** After the first one the address is its own source. -/
theorem moveAddress_reaches {addr : Nat} (haddr : addr < 31) {src : XReg} (hsrc : src.code < 32) (wide : src.width = .x)
    {step : Int} {steps : List Int} (inRange : ∀ s ∈ step :: steps, -32 ≤ s ∧ s ≤ 31) :
    Reaches (fun a => moveAddress (.x addr) a src (step :: steps)) addr src (step :: steps) := by
  -- by the steps behind the first, whose source is the address itself
  induction steps generalizing src step with
  | nil =>
    obtain ⟨low, high⟩ := inRange step List.mem_cons_self
    exact reaches_step haddr hsrc wide low high
  | cons next steps ih =>
    obtain ⟨⟨low, high⟩, others⟩ := List.forall_mem_cons.mp inRange
    obtain ⟨ws, emitted, length, moves, runs⟩ := reaches_step haddr hsrc wide low high
    obtain ⟨ws', emitted', length', moves', runs'⟩ := ih (show (XReg.x addr).code < 32 from Nat.lt_succ_of_lt haddr) rfl others
    refine ⟨ws ++ ws', fun a => ?_, ?_, fun w hw => (List.mem_append.mp hw).elim (moves w) (moves' w),
      fun sim vl configured => ?_⟩
    · show moveAddress (.x addr) (a.emit .addvl (stepOps addr src step)) (.x addr) (next :: steps) = _
      rw [show a.emit .addvl _ = _ from emitted a, ← append_append]
      exact emitted' _
    · rw [List.length_append, length, length']
      exact Nat.add_comm _ _
    · obtain ⟨mid, straight, wrote⟩ := runs sim vl configured
      obtain ⟨after, straight', wrote'⟩ := runs' mid vl (wrote.same.2.2.trans configured)
      have here : mid.core.regs.read (XReg.x addr).code .stack = _ := wrote.read haddr .stack
      have one : total [step] = step := Int.add_zero step
      have sum : Slot.intImm (total (step :: next :: steps)) = Slot.intImm step + Slot.intImm (total (next :: steps)) :=
        BitVec.ofInt_add ..
      refine ⟨after, straight.trans straight', ?_⟩
      rw [here, BitVec.add_assoc, ← BitVec.add_mul, one, ← sum] at wrote'
      exact wrote.trans haddr wrote'

/-! ## The macro -/

section

variable {a : Assembler} {r : LengthRegister} {base : XReg}

/-- The macro, with the operands named. -/
theorem expand_call (a : Assembler) (r : LengthRegister) (access : Access) (base : XReg) (offset : BitVec 64) :
    a.expand (r.call access base offset) = a.transferAt access.mnemonic r.operand base offset.toInt r.unit := by
  cases r <;> rfl

/-- A number of units as an offset in bytes: what is moved in vector lengths, and the rest. -/
theorem moved_add_rest (r : LengthRegister) (vl : VectorLength) (offset : BitVec 64) (vls : Int) :
    Slot.intImm vls * BitVec.ofNat 64 vl.bytes + Slot.intImm (offset.toInt - vls * r.unit) * BitVec.ofNat 64 (r.bytes vl) =
      offset * BitVec.ofNat 64 (r.bytes vl) := by
  have length : BitVec.ofNat 64 vl.bytes = Slot.intImm r.unit * BitVec.ofNat 64 (r.bytes vl) := by
    rw [← BitVec.ofInt_natCast, ← BitVec.ofInt_natCast, ← r.unit_mul_bytes vl]
    exact BitVec.ofInt_mul ..
  have moved : Slot.intImm (vls * r.unit) = Slot.intImm vls * Slot.intImm r.unit := BitVec.ofInt_mul ..
  have whole : Slot.intImm (vls * r.unit) + Slot.intImm (offset.toInt - vls * r.unit) = offset := by
    rw [Slot.intImm, Slot.intImm, ← BitVec.ofInt_add, show vls * r.unit + (offset.toInt - vls * r.unit) = offset.toInt by omega]
    exact BitVec.ofInt_toInt
  rw [length, ← BitVec.mul_assoc, ← moved, ← BitVec.add_mul, whole]

theorem unit_cases (r : LengthRegister) : r.unit = 1 ∨ r.unit = 8 := by
  cases r with
  | vector => exact .inl rfl
  | predicate => exact .inr rfl

/-- **Words that bring an address into a register** of the scratch pool, or that are not needed: the address is that of a
    base and some vector lengths, and nothing changes but the program counter and a general register of the pool. -/
def Addresses (pools : ScratchPools) (ws : List Word) (addr : Nat) (base : XReg) (vls : Int) : Prop :=
  ∀ (sim : Simulator) (vl : VectorLength), sim.core.regs.vl = some vl → ∃ mid, sim.Straight ws mid ∧
    mid.core.regs.read addr .stack = sim.core.regs.read base.code .stack + Slot.intImm vls * BitVec.ofNat 64 vl.bytes ∧
    mid.core.regs = { sim.core.regs with x := mid.core.regs.x, pc := mid.core.regs.pc } ∧
    ∀ code, pools.has .general code = false → mid.core.regs.read code .stack = sim.core.regs.read code .stack

/-- No words are needed where the base is the address. -/
theorem addresses_nil (pools : ScratchPools) (base : XReg) : Addresses pools [] base.code base 0 := by
  intro sim vl configured
  have none : Slot.intImm 0 * BitVec.ofNat 64 vl.bytes = 0 := BitVec.zero_mul
  refine ⟨sim, .nil sim, ?_, rfl, fun code _ => rfl⟩
  rw [none]
  exact (BitVec.add_zero _).symm

/-- Steps bring the address into a register of the pool. -/
theorem addresses_of_reaches {addr : Nat} {steps : List Int} {pools : ScratchPools}
    (haddr : addr < 31) (pooled : pools.has .general addr = true) {ws : List Word}
    (runs : ∀ (sim : Simulator) (vl : VectorLength), sim.core.regs.vl = some vl →
      ∃ after, sim.Straight ws after ∧ sim.core.regs.Wrote after.core.regs addr
        (sim.core.regs.read base.code .stack + Slot.intImm (total steps) * BitVec.ofNat 64 vl.bytes)) :
    Addresses pools ws addr base (total steps) := by
  intro sim vl configured
  obtain ⟨mid, straight, wrote⟩ := runs sim vl configured
  refine ⟨mid, straight, wrote.read haddr .stack, ?_, fun code unpooled => ?_⟩
  · obtain ⟨pc, same⟩ := wrote
    rw [same, Registers.write_of_lt _ haddr]
  · have other : addr ≠ code := by
      rintro rfl
      rw [pooled] at unpooled
      cases unpooled
    exact wrote.read_of_ne haddr other .stack

/-- **The words of the macro**: steps, and one load or store with the rest of the offset. -/
theorem transferAt_eq_append (hr : r.Exists) (access : Access) (wide : base.width = .x) (hbase : base.code < 32)
    (free : ∃ k < 31, a.pools.has .general k = true) (offset : Int) :
    ∃ (moves : List Word) (addr : Nat), addr < 32 ∧
      a.transferAt access.mnemonic r.operand base offset r.unit = a.append (moves ++
        [Instruction.word (r.form access) .al (r.ops addr (offset - lengthsMoved offset r.unit * r.unit))]) ∧
      moves.length = stepCount (lengthsMoved offset r.unit) ∧ (∀ w ∈ moves, IsStep addr w) ∧
      Addresses a.pools moves addr base (lengthsMoved offset r.unit) := by
  have form : (r.form access).mnemonic = access.mnemonic := by cases r <;> rfl
  obtain ⟨low, high⟩ := rest_bounds offset (unit_cases r)
  have last : ∀ {addr : Nat}, addr < 32 → ∀ a : Assembler, a.emit access.mnemonic
      (r.ops addr (offset - lengthsMoved offset r.unit * r.unit)) = a.append [_] := fun haddr a =>
    form ▸ emit_of_encodes (LengthRegister.ops_encodes hr access haddr low high)
  unfold transferAt
  by_cases near : -256 ≤ offset ∧ offset ≤ 255
  · rw [if_pos near]
    have zero : lengthsMoved offset r.unit = 0 := by
      have := lengthsMoved_cases offset (unit_cases r)
      omega
    have emitted := last hbase a
    rw [zero, Int.zero_mul, Int.sub_zero] at emitted ⊢
    exact ⟨[], base.code, hbase, emitted, rfl, List.forall_mem_nil _, addresses_nil _ _⟩
  · rw [if_neg near]
    obtain ⟨code, hcode, lowest⟩ := ScratchPools.lowest?_general free
    have inRange := mem_lengthSteps (lengthsMoved offset r.unit)
    have steps := total_lengthSteps (lengthsMoved offset r.unit)
    have count := length_lengthSteps (lengthsMoved offset r.unit)
    cases sequence : lengthSteps (lengthsMoved offset r.unit) with
    | nil =>
      -- the offset would have been encoded
      have moved := lengthsMoved_cases offset (unit_cases r)
      rw [sequence] at steps
      rw [← steps, show total [] = 0 from rfl, Int.zero_mul] at moved
      omega
    | cons step more =>
      rw [sequence] at inRange steps count
      obtain ⟨moves, emitted, length, each, runs⟩ := moveAddress_reaches hcode hbase wide inRange
      have pooled := (ScratchPools.lowest?_spec lowest).1
      refine ⟨moves, code, Nat.lt_succ_of_lt hcode, ?_, length.trans count, each, ?_⟩
      · have moved := emitted { a with pools := a.pools.remove .general code }
        refine @inScope_eq_append a _ (a.pools.remove .general code) _ ((withScratch_of_lowest lowest _).trans ?_)
        rw [sequence, show moveAddress _ _ base _ = _ from moved, ← append_append]
        exact last (Nat.lt_succ_of_lt hcode) _
      · rw [← steps]
        exact addresses_of_reaches hcode pooled runs

/-- **A load or store at any multiple of a register length.** The register exists, the base is a 64-bit register or the
    stack pointer that is not in the scratch pool, and there is a general scratch register. Nothing that is computed for
    the offset overflows 64 bits. No error is recorded: the words are steps of at most 32 vector lengths, as many as it
    takes, and one load or store with an offset that can be encoded. Executing the steps from any state with a vector
    length changes nothing but the program counter and general registers of the pool, and then the last word accesses
    the address that is the base and as many register lengths. The base is as it was, also in the end. -/
theorem transfer_reaches (hr : r.Exists) (access : Access) (wide : base.width = .x) (hbase : base.code < 32)
    (free : ∃ k < 31, a.pools.has .general k = true) (unpooled : a.pools.has .general base.code = false)
    (offset : BitVec 64) :
    (∀ z ∈ transferNumbers offset.toInt r.unit, FitsSigned z) ∧
    ∃ (moves : List Word) (last : Word) (addr : Nat) (rest : Int),
      a.expand (r.call access base offset) = { a with code := a.code ++ (moves ++ [last]) } ∧
      moves.length = stepCount (lengthsMoved offset.toInt r.unit) ∧ (∀ w ∈ moves, IsStep addr w) ∧
      -256 ≤ rest ∧ rest ≤ 255 ∧ Instruction.decode last = .ok ⟨some (r.form access), .al, r.ops addr rest⟩ ∧
      ∀ (sim : Simulator) (vl : VectorLength), sim.core.regs.vl = some vl →
        ∃ mid, sim.executeWords? moves = some mid ∧
          mid.core = { sim.core with
            regs := { sim.core.regs with x := mid.core.regs.x, pc := mid.core.regs.pc } } ∧
          (∀ code, a.pools.has .general code = false →
            mid.core.regs.read code .stack = sim.core.regs.read code .stack) ∧
          Semantics.execute (r.form access) .al (r.ops addr rest) mid.core =
            (r.accessAt access vl
              (sim.core.regs.read base.code .stack + offset * BitVec.ofNat 64 (r.bytes vl)) mid.core).outcome ∧
          ∀ after, mid.executeWord? last = some after →
            after.core.regs.read base.code .stack = sim.core.regs.read base.code .stack := by
  have fits : FitsSigned offset.toInt := by
    have low := BitVec.le_toInt offset
    have high := BitVec.toInt_lt (x := offset)
    unfold FitsSigned
    omega
  refine ⟨fits_transferNumbers (unit_cases r) fits, ?_⟩
  obtain ⟨low, high⟩ := rest_bounds offset.toInt (unit_cases r)
  obtain ⟨moves, addr, haddr, emitted, length, each, runs⟩ := transferAt_eq_append hr access wide hbase free offset.toInt
  have decoded := LengthRegister.decode_ops hr access haddr low high
  refine ⟨moves, _, addr, _, (expand_call ..).trans emitted, length, each, low, high, decoded, fun sim vl configured => ?_⟩
  obtain ⟨mid, straight, address, regs, kept⟩ := runs sim vl configured
  have configured' : mid.core.regs.vl = some vl := by
    rw [regs]
    exact configured
  -- what the address lacks is made up by the offset of the access
  have accessed := r.execute_ops access configured' addr (offset.toInt - lengthsMoved offset.toInt r.unit * r.unit)
  rw [address, BitVec.add_assoc, moved_add_rest] at accessed
  refine ⟨mid, straight.executeWords?, congrArg₂ Core.mk regs straight.core.1, kept, accessed, fun after run => ?_⟩
  obtain ⟨core, flow, done, rfl⟩ := Simulator.done_of_executeWord? decoded run
  exact (LengthRegister.read_of_execute_ops done _).trans (kept _ unpooled)

/-- A predicate stored as far below the stack pointer as an offset of 64 bits goes. -/
theorem transfer_reaches_lowest :
    let a : Assembler := {}
    let r : LengthRegister := .predicate ⟨3, none, none⟩
    let lowest : BitVec 64 := 0x8000000000000000
    (∀ z ∈ transferNumbers (-9223372036854775808) 8, FitsSigned z) ∧
    ∃ (moves : List Word) (last : Word) (addr : Nat) (rest : Int),
      a.expand (.transferPredicate .store ⟨3, none, none⟩ (.x 31) lowest) =
        { a with code := a.code ++ (moves ++ [last]) } ∧
      moves.length = stepCount (lengthsMoved (-9223372036854775808) 8) ∧ (∀ w ∈ moves, IsStep addr w) ∧
      -256 ≤ rest ∧ rest ≤ 255 ∧ Instruction.decode last = .ok ⟨some (.transferP .store), .al, r.ops addr rest⟩ ∧
      ∀ (sim : Simulator) (vl : VectorLength), sim.core.regs.vl = some vl →
        ∃ mid, sim.executeWords? moves = some mid ∧
          mid.core = { sim.core with
            regs := { sim.core.regs with x := mid.core.regs.x, pc := mid.core.regs.pc } } ∧
          (∀ code, a.pools.has .general code = false →
            mid.core.regs.read code .stack = sim.core.regs.read code .stack) ∧
          Semantics.execute (.transferP .store) .al (r.ops addr rest) mid.core =
            (r.accessAt .store vl
              (sim.core.regs.sp + lowest * BitVec.ofNat 64 vl.predicateBytes) mid.core).outcome ∧
          ∀ after, mid.executeWord? last = some after →
            after.core.regs.read 31 .stack = sim.core.regs.sp :=
  @transfer_reaches {} (.predicate ⟨3, none, none⟩) (.x 31) (by decide : 3 < 16) .store rfl (by decide : 31 < 32)
    ⟨16, by decide, by decide⟩ (by decide) 0x8000000000000000

end

end Assembler

end ArmToolkit.A64
