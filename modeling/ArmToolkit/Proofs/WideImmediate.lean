import ArmToolkit.A64.MacroCall
import ArmToolkit.Proofs.LaneWrites

/-!
# `Proofs.WideImmediate` — operations with an immediate of any value

An operation with an immediate overwrites its source, and takes few immediates. The macro copies the source in front,
shifts or negates the immediate where that helps, and otherwise works with a scratch vector that holds the immediate in
every lane. Whichever way is taken, every lane is combined with the immediate cut to the lane.

## Contents
- **Operations.** `WideOp`: the operations that the two macros take, and what they need.
- **Cut immediates.** Immediates that are the same in a lane, the negated one included
  (`ImmediateOp.apply_negated`).
- **Encoded immediates.** The source is copied, and the destination combined with an immediate that was found a word
  (`Assembler.encoded_emits`).
- **Scratch registers.** `Assembler.withVectorImmediate_emits`: what is done with a scratch vector that holds the immediate.
  Operations that only exist with a predicate get one that has all lanes active (`Assembler.governed_emits`).
- **The macros.** What their words leave in the lanes of the destination (`Assembler.wideImmediate_emits`,
  `Assembler.logicalImmediate_emits`), and both as one statement (`Assembler.immediate_computes`).
-/

namespace ArmToolkit.A64

/-! ## Operations -/

/-- **An operation with an immediate of any value**, arithmetic or bitwise. -/
inductive WideOp
  | arithmetic (op : ImmediateOp)
  | bitwise (op : BitmaskOp)

namespace WideOp

/-- What it computes. -/
def op : WideOp → ElementOp
  | arithmetic op => op.op
  | bitwise op => op.op

/-- The macro with its operands. -/
def call (op : WideOp) (zd zn : ZReg) (imm : BitVec 64) : MacroCall :=
  match op with
  | arithmetic op => .immediate op zd zn imm
  | bitwise op => .bitmask op zd zn imm

/-- Whether it takes the immediate modulo the lane. The signed saturating operations take its exact value. -/
def wraps : WideOp → Bool
  | arithmetic op => op ≠ .sqadd && op ≠ .sqsub
  | bitwise _ => true

/-- Whether it combines two vectors under a predicate alone. -/
def isGoverned : WideOp → Bool
  | arithmetic op => op.unpredicated?.isNone
  | bitwise _ => false

end WideOp

/-- **What is left where every lane of a vector is combined with an immediate.** -/
def Core.Combines (op : ElementOp) (l : LaneSize) (zd zn : Nat) (imm : BitVec l.bits) (vl : VectorLength)
    (core after : Core) : Prop :=
  ∀ i < vl.lanes l, after.regs.zLane zd l.bits i = op.apply (core.regs.zLane zn l.bits i) imm

/-- **What is left where every lane of a vector is combined with that of another vector.** -/
def Core.CombinesTwo (op : ElementOp) (l : LaneSize) (zd zn zm : Nat) (vl : VectorLength) (core after : Core) : Prop :=
  ∀ i < vl.lanes l, after.regs.zLane zd l.bits i = op.apply (core.regs.zLane zn l.bits i) (core.regs.zLane zm l.bits i)

/-! ## Cut immediates -/

namespace ImmediateOp

variable {op neg : ImmediateOp}

/-- An operation that wraps combines with the immediate cut to the lane. -/
theorem withImmediate_eq (wraps : (WideOp.arithmetic op).wraps = true) {n : Nat} (x : BitVec n) (imm : BitVec 64) :
    Semantics.withImmediate op x imm = op.op.apply x (imm.setWidth n) := by
  cases op with
  | sqadd | sqsub => cases wraps
  | _ => rfl

/-- An operation that does the same with the negated immediate wraps as well. -/
theorem wraps_negated (h : op.negated? = some neg) : (WideOp.arithmetic neg).wraps = true := by
  cases op with
  | add | sub =>
    cases h
    rfl
  | _ => cases h

/-- **The operation that does the same with the negated immediate.** -/
theorem apply_negated (h : op.negated? = some neg) {n : Nat} (x imm : BitVec n) :
    neg.op.apply x (-imm) = op.op.apply x imm := by
  cases op with
  | add =>
    cases h
    exact BitVec.sub_neg ..
  | sub =>
    cases h
    exact BitVec.sub_eq_add_neg x imm |>.symm
  | _ => cases h

/-- An operation that has no form without a predicate has one with a predicate, at every lane size. -/
theorem exists_predicated (h : op.unpredicated? = none) :
    ∃ p : PredicatedOp, p.op = op.op ∧ (Form.predicated p).lanes = Form.bhsd := by
  cases op with
  | subr => exact ⟨.subr, rfl, rfl⟩
  | smax => exact ⟨.smax, rfl, rfl⟩
  | umax => exact ⟨.umax, rfl, rfl⟩
  | smin => exact ⟨.smin, rfl, rfl⟩
  | umin => exact ⟨.umin, rfl, rfl⟩
  | mul => exact ⟨.mul, rfl, rfl⟩
  | _ => cases h

/-- The operation without a predicate is the same operation. -/
theorem op_unpredicated {u : UnpredicatedOp} (h : op.unpredicated? = some u) : u.op = op.op := by
  cases op <;> cases h <;> rfl

end ImmediateOp

/-- **The immediate as the operation reads it** is the same in a lane. -/
theorem Assembler.setWidth_wideOperand {l : LaneSize} (allowed : l ∈ Form.bhsd) (op : ImmediateOp) (imm : BitVec 64) :
    (wideOperand op (some l) imm).setWidth l.bits = imm.setWidth l.bits := by
  cases op with
  | add | sub => exact setWidth_laneUnsigned allowed imm
  | mul => exact setWidth_laneSigned allowed imm
  | _ => rfl

/-! ## Encoded immediates -/

namespace Assembler

variable {a b : Assembler} {l : LaneSize} {zd zn : Nat}

/-- A vector is copied as a whole, or is where it should be. -/
theorem copyWhole_emits (hzd : zd < 32) (hzn : zn < 32) (l : LaneSize) (lane lane' : Option LaneSize) :
    a.Emits (a.copyWhole ⟨zd, lane⟩ ⟨zn, lane'⟩) fun vl core after =>
      Core.Sets vl l core after zd (core.regs.zLane zn l.bits) := by
  unfold copyWhole
  by_cases same : zd = zn
  · rw [if_pos same]
    subst same
    refine (Emits.nothing a).mono fun vl core after still => ?_
    subst still
    exact ⟨fun _ => rfl, fun _ _ => rfl, fun _ _ _ _ => rfl⟩
  · rw [if_neg same]
    refine (movprfx_replaces hzd hzn l).emits ?_
    simp only [Form.checks, List.forall_mem_cons]
    exact ⟨rfl, rfl, List.forall_mem_nil _⟩

/-- **The copy in front, and a word that changes every lane of the destination.** -/
theorem prefixed_emits {w : Word} (g : BitVec l.bits → BitVec l.bits) (hzd : zd < 32) (hzn : zn < 32)
    (operates : ∀ b : Assembler, b.Emits (b.dc32 w) fun vl core after =>
      Core.Sets vl l core after zd fun i => g (core.regs.zLane zd l.bits i)) :
    a.Emits ((a.copyWhole ⟨zd, some l⟩ ⟨zn, some l⟩).dc32 w) fun vl core after =>
      ∀ i < vl.lanes l, after.regs.zLane zd l.bits i = g (core.regs.zLane zn l.bits i) := by
  refine ((copyWhole_emits hzd hzn l _ _).trans (operates _)).mono fun vl core after done i hi => ?_
  obtain ⟨mid, copied, operated⟩ := done
  rw [operated.written i hi, copied.written i hi]

/-- **The copy in front, and an operation on the destination.** -/
theorem encoded_emits {op : ElementOp} {w : Word} {imm : BitVec l.bits} (hzd : zd < 32) (hzn : zn < 32)
    (operates : ∀ b : Assembler, b.Emits (b.dc32 w) fun vl core after =>
      Core.Sets vl l core after zd fun i => op.apply (core.regs.zLane zd l.bits i) imm) :
    a.Emits ((a.copyWhole ⟨zd, some l⟩ ⟨zn, some l⟩).dc32 w) (Core.Combines op l zd zn imm) :=
  prefixed_emits (op.apply · imm) hzd hzn operates

/-- A word that was found for the operation combines every lane with the immediate. -/
theorem destructiveImmediate?_emits {op : ImmediateOp} {imm : BitVec 64} {w : Word} (hzd : zd < 32)
    (wraps : (WideOp.arithmetic op).wraps = true) (found : destructiveImmediate? op ⟨zd, some l⟩ imm = some w)
    (b : Assembler) :
    b.Emits (b.dc32 w) fun vl core after =>
      Core.Sets vl l core after zd fun i => op.op.apply (core.regs.zLane zd l.bits i) (imm.setWidth l.bits) := by
  obtain ⟨v, s, tried, rfl⟩ := byteImmediate?_eq_some found
  refine ((immediate_replaces hzd op v s).tried tried).mono fun vl core after sets => ?_
  simp only [ImmediateOp.withImmediate_eq wraps] at sets
  exact sets

/-- A word that was found for the operation with the negated immediate does the same. -/
theorem negatedImmediate?_emits {op : ImmediateOp} {imm : BitVec 64} {w : Word} (allowed : l ∈ Form.bhsd) (hzd : zd < 32)
    (found : negatedImmediate? op ⟨zd, some l⟩ imm = some w) (b : Assembler) :
    b.Emits (b.dc32 w) fun vl core after =>
      Core.Sets vl l core after zd fun i => op.op.apply (core.regs.zLane zd l.bits i) (imm.setWidth l.bits) := by
  obtain ⟨neg, negated, found⟩ := Option.bind_eq_some_iff.mp found
  refine (destructiveImmediate?_emits hzd (ImmediateOp.wraps_negated negated) found b).mono fun vl core after sets => ?_
  rw [setWidth_laneUnsigned allowed, BitVec.setWidth_neg_of_le (Form.bits_le_of_bhsd allowed)] at sets
  simp only [ImmediateOp.apply_negated negated] at sets
  exact sets

end Assembler

/-! ## Scratch registers -/

/-- **A predicate whose lanes are all active**, and the vectors as they were. -/
structure Core.Activates (l : LaneSize) (p : Nat) (vl : VectorLength) (core after : Core) : Prop where
  active : ∀ i < vl.lanes l, activeLane l.bytes (after.regs.pBits p) i = true
  kept : ∀ z i, after.regs.zLane z l.bits i = core.regs.zLane z l.bits i

/-- The lanes of a predicate that was made of them. -/
theorem activeLane_predicateOf {k count i : Nat} (pos : 0 < k) (fits : count * k ≤ 256) (f : Nat → Bool) (hi : i < count) :
    activeLane k (predicateOf k count f) i = f i := by
  have bit : activeLane k (predicateOf k count f) i = (lane k (predicateOf k count f) i).getLsbD 0 := by
    rw [getLsbD_lane, decide_eq_true pos, Bool.true_and, Nat.add_zero]
    rfl
  rw [bit, predicateOf, lane_ofLanes _ hi fits, laneFlag, BitVec.getLsbD_ofNat, decide_eq_true pos, Bool.true_and]
  cases f i <;> rfl

namespace Assembler

variable {a b c : Assembler} {l : LaneSize} {zd zn : Nat}

/-- All lanes of a predicate become active. -/
theorem ptrue_emits (allowed : l ∈ Form.bhsd) {p : Nat} (hp : p < 16) :
    a.Emits (a.emit .ptrue [.ofP ⟨p, some l, none⟩, .ofPattern 31]) (Core.Activates l p) := by
  have plain : ∀ op ∈ [Operand.ofP ⟨p, some l, none⟩, .ofPattern 31], op.IsPlain := by
    simp only [List.forall_mem_cons]
    exact ⟨.register (.predicate _ hp), .pattern 31, List.forall_mem_nil _⟩
  have encodes : Instruction.Encodes (.ptrue false) .al [.ofP ⟨p, some l, none⟩, .ofPattern 31] := by
    refine .of_plain rfl plain ?_
    simp only [Form.checks, List.forall_mem_cons]
    refine ⟨⟨l, allowed, rfl⟩, ?_, List.forall_mem_nil _⟩
    rintro s ⟨⟩
    rfl
  have emitted := word_emits (a := a) (fun vl r => r.setP p (lowestActive l.bytes (vl.lanes l) (vl.lanes l))) encodes
    plain (fun _ _ _ => rfl) (fun _ _ => rfl) fun _ _ => rfl
  rw [← emit_of_encodes encodes] at emitted
  refine emitted.mono fun vl core after done => ?_
  obtain ⟨pc, rfl⟩ := done
  refine ⟨fun i hi => ?_, fun _ _ => rfl⟩
  have held : (core.regs.setP p (lowestActive l.bytes (vl.lanes l) (vl.lanes l))).pBits p =
      lowestActive l.bytes (vl.lanes l) (vl.lanes l) := by
    rw [Registers.pBits_setP, if_pos ⟨rfl, hp⟩]
  refine (congrArg (activeLane l.bytes · i) held).trans ?_
  rw [lowestActive, activeLane_predicateOf l.bytes_pos (vl.lanes_mul_bytes_le l) _ hi, decide_eq_true hi]

/-- **What is done with a scratch vector** is done where that holds an immediate in every lane. The body may take further
    scratch registers. -/
theorem withVectorImmediate_emits {tmp : Nat} {imm : BitVec 64} {body : ZReg → Assembler → Assembler}
    {effect : VectorLength → Core → Core → Prop} (pools : ScratchPools) (allowed : l ∈ Form.bhsd)
    (free : ∃ k < 31, a.pools.has .general k = true) (taken : a.pools.lowest? .vector = some tmp)
    (works : ∀ b : Assembler, b.pools = a.pools.remove .vector tmp →
      ({ b with pools } : Assembler).Emits (body ⟨tmp, some l⟩ b) effect) :
    a.Emits (a.inScope fun a => a.withVectorImmediate (some l) imm body) fun vl core after =>
      ∃ mid, Core.Sets vl l core mid tmp (fun _ => imm.setWidth l.bits) ∧ effect vl mid after := by
  have copied := dup_emits (a := { a with pools := a.pools.remove .vector tmp }) allowed
    (ScratchPools.lowest?_vector taken).1 free imm
  refine Emits.inScope pools ?_
  unfold withVectorImmediate withScratch acquire
  rw [taken]
  exact (copied.withPools pools).trans (works _ copied.pools)

/-- **An operation with a scratch vector that holds an immediate in every lane** combines with the immediate. -/
theorem scratchVector_emits {op : ElementOp} {tmp : Nat} {imm : BitVec 64} {body : ZReg → Assembler → Assembler}
    (pools : ScratchPools) (allowed : l ∈ Form.bhsd) (free : ∃ k < 31, a.pools.has .general k = true)
    (taken : a.pools.lowest? .vector = some tmp) (apart : zn ≠ tmp)
    (works : ∀ b : Assembler, b.pools = a.pools.remove .vector tmp →
      ({ b with pools } : Assembler).Emits (body ⟨tmp, some l⟩ b) (Core.CombinesTwo op l zd zn tmp)) :
    a.Emits (a.inScope fun a => a.withVectorImmediate (some l) imm body)
      (Core.Combines op l zd zn (imm.setWidth l.bits)) := by
  refine (withVectorImmediate_emits pools allowed free taken works).mono fun vl core after done i hi => ?_
  obtain ⟨mid, held, combined⟩ := done
  rw [combined i hi, held.written i hi, held.kept zn apart i hi]

/-- Two vectors are combined without a predicate. -/
theorem unpredicatedBinary_emits {u : UnpredicatedOp} {op : ElementOp} {tmp : Nat} (allowed : l ∈ Form.bhsd) (hzd : zd < 32)
    (hzn : zn < 32) (htmp : tmp < 32) (same : u.op = op) :
    a.Emits (a.unpredicatedBinary u ⟨zd, some l⟩ ⟨zn, some l⟩ ⟨tmp, some l⟩) (Core.CombinesTwo op l zd zn tmp) := by
  refine ((unpredicated_replaces hzd hzn htmp u).emits ?_).mono fun vl core after sets i hi => ?_
  · simp only [Form.checks, List.forall_mem_cons]
    exact ⟨⟨l, allowed, rfl⟩, rfl, rfl, List.forall_mem_nil _⟩
  · rw [sets.written i hi, same]

/-- Two vectors are combined bit by bit. -/
theorem bitwiseBinary_emits {op : BitmaskOp} {tmp : Nat} (hzd : zd < 32) (hzn : zn < 32) (htmp : tmp < 32) (l : LaneSize) :
    a.Emits (a.emit op.bitwise.op.mnemonic (vectorOps .d zd zn tmp)) (Core.CombinesTwo op.bitwise.op l zd zn tmp) := by
  refine ((bitwise_replaces hzd hzn htmp op l).emits ?_).mono fun vl core after sets i hi => ?_
  · simp only [Form.checks, List.forall_mem_cons]
    exact ⟨⟨.d, List.mem_singleton_self _, rfl⟩, rfl, rfl, List.forall_mem_nil _⟩
  · rw [sets.written i hi, op.op_bitwise]

/-- **The source is copied, and all lanes of the destination are combined with a vector under a predicate.** -/
theorem governed_emits {p : PredicatedOp} {tmp pg : Nat} (allowed : l ∈ Form.bhsd) (lanes : (Form.predicated p).lanes = Form.bhsd)
    (hzd : zd < 32) (hzn : zn < 32) (htmp : tmp < 32) (apart : tmp ≠ zd) (hpg : pg < Form.governingCount) :
    a.Emits (((a.emit .ptrue [.ofP ⟨pg, some l, none⟩, .ofPattern 31]).copyWhole ⟨zd, some l⟩ ⟨zn, some l⟩).predicated p
        ⟨zd, some l⟩ ⟨pg, none, some .merging⟩ ⟨zd, some l⟩ ⟨tmp, some l⟩)
      (Core.CombinesTwo p.op l zd zn tmp) := by
  have activated := ptrue_emits (a := a) allowed (Nat.lt_of_lt_of_le hpg (by decide) : pg < 16)
  have copied := activated.trans (copyWhole_emits hzd hzn l (some l) (some l))
  have operated := copied.trans (predicated_emits (lanes ▸ allowed) hzd hpg htmp)
  refine operated.mono fun vl core after done i hi => ?_
  obtain ⟨copy, ⟨start, activates, copies⟩, operates⟩ := done
  have active : activeLane l.bytes (copy.regs.pBits pg) i = true := by
    rw [copies.predicate]
    exact activates.active i hi
  rw [operates.written i hi, Core.governed_active active, copies.written i hi, copies.kept tmp apart i hi, activates.kept,
    activates.kept]

/-- **An immediate of any value in a scratch vector.** -/
theorem synthesizedImmediate_emits {op : ImmediateOp} (allowed : l ∈ Form.bhsd) (hzd : zd < 32) (hzn : zn < 32)
    (general : ∃ k < 31, a.pools.has .general k = true) (vector : (a.pools.lowest? .vector).isSome = true)
    (governing : (WideOp.arithmetic op).isGoverned = true → (a.pools.lowest? .governing).isSome = true)
    (unpooled : ∀ z ∈ [zd, zn], a.pools.has .vector z = false) (imm : BitVec 64) :
    a.Emits (a.synthesizedImmediate op ⟨zd, some l⟩ ⟨zn, some l⟩ imm)
      (Core.Combines op.op l zd zn (imm.setWidth l.bits)) := by
  obtain ⟨tmp, taken⟩ := Option.isSome_iff_exists.mp vector
  have htmp := (ScratchPools.lowest?_vector taken).1
  have apartD : zd ≠ tmp := (ScratchPools.ne_of_lowest? taken (unpooled zd (by simp))).symm
  have apartN : zn ≠ tmp := (ScratchPools.ne_of_lowest? taken (unpooled zn (by simp))).symm
  unfold synthesizedImmediate
  -- an operation without an unpredicated form is governed by all lanes
  cases form : op.unpredicated? with
  | some u =>
    refine scratchVector_emits (a.pools.remove .vector tmp) allowed general taken apartN fun b kept => ?_
    rw [← kept]
    exact unpredicatedBinary_emits allowed hzd hzn htmp (ImmediateOp.op_unpredicated form)
  | none =>
    obtain ⟨p, same, lanes⟩ := ImmediateOp.exists_predicated form
    obtain ⟨pg, governs⟩ := Option.isSome_iff_exists.mp (governing (by rw [WideOp.isGoverned, form]; rfl))
    refine scratchVector_emits ((a.pools.remove .vector tmp).remove .governing pg) allowed general taken apartN
      fun b kept => ?_
    have lowest : b.pools.lowest? .governing = some pg := by
      rw [kept]
      exact governs
    unfold withScratch acquire
    rw [lowest, kept, ← same]
    exact governed_emits allowed lanes hzd hzn htmp apartD.symm (ScratchPools.lowest?_spec governs).2

end Assembler

/-! ## The macros -/

namespace Assembler

variable {a : Assembler} {l : LaneSize} {zd zn : Nat}

/-- **What the words of an arithmetic macro leave in the lanes of the destination.** -/
theorem wideImmediate_emits {op : ImmediateOp} (allowed : l ∈ Form.bhsd) (hzd : zd < 32) (hzn : zn < 32)
    (wraps : (WideOp.arithmetic op).wraps = true)
    (general : ∃ k < 31, a.pools.has .general k = true) (vector : (a.pools.lowest? .vector).isSome = true)
    (governing : (WideOp.arithmetic op).isGoverned = true → (a.pools.lowest? .governing).isSome = true)
    (unpooled : ∀ z ∈ [zd, zn], a.pools.has .vector z = false) (imm : BitVec 64) :
    a.Emits (a.wideImmediate op ⟨zd, some l⟩ ⟨zn, some l⟩ imm) (Core.Combines op.op l zd zn (imm.setWidth l.bits)) := by
  rw [← setWidth_wideOperand allowed op imm]
  unfold wideImmediate
  dsimp only
  generalize wideOperand op (some l) imm = operand
  cases plain : destructiveImmediate? op ⟨zd, some l⟩ operand with
  | some w => exact encoded_emits hzd hzn (destructiveImmediate?_emits hzd wraps plain)
  | none =>
    cases negated : negatedImmediate? op ⟨zd, some l⟩ operand with
    | some w => exact encoded_emits hzd hzn (negatedImmediate?_emits allowed hzd negated)
    | none => exact synthesizedImmediate_emits allowed hzd hzn general vector governing unpooled operand

/-- **What the words of a bitwise macro leave in the lanes of the destination.** -/
theorem logicalImmediate_emits {op : BitmaskOp} (allowed : l ∈ Form.bhsd) (hzd : zd < 32) (hzn : zn < 32)
    (general : ∃ k < 31, a.pools.has .general k = true) (vector : (a.pools.lowest? .vector).isSome = true)
    (unpooled : ∀ z ∈ [zd, zn], a.pools.has .vector z = false) (imm : BitVec 64) :
    a.Emits (a.logicalImmediate op ⟨zd, some l⟩ ⟨zn, some l⟩ imm)
      (Core.Combines op.op l zd zn (imm.setWidth l.bits)) := by
  rw [← setWidth_laneUnsigned allowed imm]
  unfold logicalImmediate
  dsimp only
  generalize laneUnsigned (some l) imm = value
  cases mask : tryEncode? op.op.mnemonic [.ofZ ⟨zd, some l⟩, .ofZ ⟨zd, some l⟩, .ofImm value] with
  | some w => exact encoded_emits hzd hzn fun b => (bitmask_replaces hzd op value).tried mask
  | none =>
    obtain ⟨tmp, taken⟩ := Option.isSome_iff_exists.mp vector
    have htmp := (ScratchPools.lowest?_vector taken).1
    have apart : zn ≠ tmp := (ScratchPools.ne_of_lowest? taken (unpooled zn (by simp))).symm
    refine scratchVector_emits (a.pools.remove .vector tmp) allowed general taken apart fun b kept => ?_
    rw [← kept, ← BitmaskOp.op_bitwise]
    exact bitwiseBinary_emits hzd hzn htmp l

/-- **A macro with an immediate computes its operation with an immediate of any value.** Both vectors exist and are viewed
    at one lane size, and may be the same; there are a general scratch register below code 31 and a vector scratch
    register, and for an operation that only exists with a predicate one that can govern; neither vector is in the pool.
    No error is recorded, and executing the emitted words in order, from any state with a vector length, leaves in every
    lane of the destination the operation of the source as it was and of the immediate cut to the lane. -/
theorem immediate_computes (op : WideOp) {zd zn : ZReg} (views : zd.lane = some l ∧ zn.lane = some l)
    (allowed : l ∈ Form.bhsd) (codes : zd.code < 32 ∧ zn.code < 32) (wraps : op.wraps = true)
    (general : ∃ k < 31, a.pools.has .general k = true) (vector : (a.pools.lowest? .vector).isSome = true)
    (governing : op.isGoverned = true → (a.pools.lowest? .governing).isSome = true)
    (unpooled : ∀ z ∈ [zd, zn], a.pools.has .vector z.code = false) (imm : BitVec 64) :
    ∃ ws : List Word,
      (a.expand (op.call zd zn imm)).code = a.code ++ ws ∧ (a.expand (op.call zd zn imm)).errors = a.errors ∧
      ∀ (sim : Simulator) (vl : VectorLength), sim.core.regs.vl = some vl →
        ∃ after, sim.executeWords? ws = some after ∧ ∀ i < vl.lanes l,
          after.core.regs.zLane zd.code l.bits i =
            op.op.apply (sim.core.regs.zLane zn.code l.bits i) (imm.setWidth l.bits) := by
  obtain ⟨zd, lane⟩ := zd
  obtain ⟨zn, lane'⟩ := zn
  obtain ⟨rfl, rfl⟩ := views
  -- neither vector is the scratch register
  have clear : ∀ z ∈ [zd, zn], a.pools.has .vector z = false := by
    intro z hz
    simp only [List.mem_cons, List.not_mem_nil, or_false] at hz
    rcases hz with rfl | rfl
    · exact unpooled ⟨z, some l⟩ (by simp)
    · exact unpooled ⟨z, some l⟩ (by simp)
  have emitted : a.Emits (a.expand (op.call ⟨zd, some l⟩ ⟨zn, some l⟩ imm))
      (Core.Combines op.op l zd zn (imm.setWidth l.bits)) := by
    cases op with
    | arithmetic op => exact wideImmediate_emits allowed codes.1 codes.2 wraps general vector governing clear imm
    | bitwise op => exact logicalImmediate_emits allowed codes.1 codes.2 general vector clear imm
  obtain ⟨ws, code, runs⟩ := emitted
  refine ⟨ws, by rw [code]; rfl, by rw [code]; rfl, fun sim vl configured => ?_⟩
  obtain ⟨after, run, -, lanes⟩ := runs sim vl configured
  exact ⟨after, run, lanes⟩

/-- The greatest of a vector and a number that no byte immediate holds, with a free governing predicate. -/
theorem immediate_computes_smax :
    let a : Assembler := ({} : Assembler).includeScratch .governing 3
    let zd : ZReg := ⟨2, some .h⟩
    ∃ ws : List Word,
      (a.expand (.immediate .smax zd zd 0x12345)).code = a.code ++ ws ∧
      (a.expand (.immediate .smax zd zd 0x12345)).errors = a.errors ∧
      ∀ (sim : Simulator) (vl : VectorLength), sim.core.regs.vl = some vl →
        ∃ after, sim.executeWords? ws = some after ∧ ∀ i < vl.lanes .h,
          after.core.regs.zLane 2 16 i = ElementOp.smax.apply (sim.core.regs.zLane 2 16 i) 0x2345 :=
  immediate_computes (l := .h) (.arithmetic .smax) ⟨rfl, rfl⟩ (by decide) (by decide) rfl ⟨16, by decide, by decide⟩
    (by decide) (fun _ => by decide) (by decide) 0x12345

end Assembler

end ArmToolkit.A64
