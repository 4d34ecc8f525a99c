import ArmToolkit.Proofs.Reachable
import ArmToolkit.Proofs.VisibleLanes

/-!
# `Proofs.Confined` — instructions read and write within the vector length

## Contents
- **General registers, vectors, predicates.** What an instruction does to register files that agree below the vector length
  keeps them so; one lemma a function.
- **Transfers.** They move the same bytes and fault alike.
- **Instructions.** `Semantics.Confined` is what the checks of the encoder say about the indices of an instruction
  (`Semantics.confined_of_encodes`); with it, the outcomes agree (`Semantics.agree_execute`).
-/

namespace ArmToolkit.A64

open Text (Byte)

namespace Semantics

variable {vl : VectorLength} {r s : Registers} (ops : List Operand) (h : r.AgreeBelow vl s)

include h

/-! ## General registers -/

theorem agree_moveWide (op : MoveWideOp) : (moveWide op ops r).AgreeBelow vl (moveWide op ops s) := by
  unfold moveWide
  dsimp only
  rw [h.general]
  exact h.setGeneral ..

theorem agree_writeSum {n : Nat} (op : AddSubOp) (rd : Operand) (c : Code31) (sum : BitVec n × Flags) :
    (writeSum op rd c sum r).AgreeBelow vl (writeSum op rd c sum s) := by
  unfold writeSum
  cases op.setsFlags with
  | true => exact (h.withFlags sum.2).setGeneral ..
  | false => exact h.setGeneral ..

theorem agree_addSubImm (op : AddSubOp) (width : Width) :
    (addSubImm op width ops r).AgreeBelow vl (addSubImm op width ops s) := by
  unfold addSubImm
  rw [h.general]
  exact agree_writeSum h ..

theorem agree_addSubShifted (op : AddSubOp) (width : Width) :
    (addSubShifted op width ops r).AgreeBelow vl (addSubShifted op width ops s) := by
  unfold addSubShifted shiftedRegister
  rw [h.general, h.general]
  exact agree_writeSum h ..

theorem agree_writeLogical {n : Nat} (op : LogicalOp) (rd : Operand) (c : Code31) (a b : BitVec n) :
    (writeLogical op rd c a b r).AgreeBelow vl (writeLogical op rd c a b s) := by
  unfold writeLogical
  split
  · exact (h.withFlags _).setGeneral ..
  · exact h.setGeneral ..

theorem agree_logicalImm (op : LogicalOp) (width : Width) :
    (logicalImm op width ops r).AgreeBelow vl (logicalImm op width ops s) := by
  unfold logicalImm
  rw [h.general]
  exact agree_writeLogical h ..

theorem agree_logicalShifted (op : LogicalOp) (width : Width) :
    (logicalShifted op width ops r).AgreeBelow vl (logicalShifted op width ops s) := by
  unfold logicalShifted shiftedRegister
  rw [h.general, h.general]
  exact agree_writeLogical h ..

theorem agree_readFlags : (readFlags ops r).AgreeBelow vl (readFlags ops s) := by
  unfold readFlags
  rw [h.flags]
  exact h.setGeneral ..

theorem agree_writeFlags : (writeFlags ops r).AgreeBelow vl (writeFlags ops s) := by
  unfold writeFlags
  rw [h.general]
  exact h.withFlags _

theorem agree_moveToScalar : (moveToScalar ops r).AgreeBelow vl (moveToScalar ops s) := by
  unfold moveToScalar
  rw [h.general]
  exact h.writeScalar ..

omit h in
theorem scalarBits_le (op : Operand) : scalarBits op ≤ 128 := by
  unfold scalarBits
  split
  · exact LaneSize.bits_le _
  · decide

theorem agree_moveFromScalar : (moveFromScalar ops r).AgreeBelow vl (moveFromScalar ops s) := by
  unfold moveFromScalar
  rw [h.scalar _ (scalarBits_le _)]
  exact h.setGeneral ..

/-- An element of the lowest 128 bits is in every vector. -/
theorem agree_moveElement
    (inside : (arg ops 2).imm.toNat * scalarBits (arg ops 0) + scalarBits (arg ops 0) ≤ 128) :
    (moveElement ops r).AgreeBelow vl (moveElement ops s) := by
  have visible := vl.bounds.1
  unfold moveElement Registers.zLane
  dsimp only
  rw [(h.z _).lane (by omega)]
  exact h.writeScalar ..

theorem branchTarget_eq (op : Operand) : branchTarget op r = branchTarget op s := by
  unfold branchTarget
  rw [h.pc]

theorem zeroTest_eq (test : ZeroTest) (op : Operand) : zeroTest test op r = zeroTest test op s := by
  unfold zeroTest
  rw [h.general]

/-! ## Vectors -/

theorem agree_predicated (op : ElementOp) : (predicated vl ops r op).AgreeBelow vl (predicated vl ops s op) := by
  apply h.onActive
  intro i hi
  rw [h.zLane _ hi, h.zLane _ hi]

theorem agree_unpredicated (op : ElementOp) : (unpredicated vl ops r op).AgreeBelow vl (unpredicated vl ops s op) := by
  rw [unpredicated_eq_lanewise, unpredicated_eq_lanewise]
  apply h.onAll
  intro i hi
  rw [h.zLane _ hi, h.zLane _ hi]

theorem agree_immediate (op : ImmediateOp) : (immediate vl ops r op).AgreeBelow vl (immediate vl ops s op) := by
  apply h.onAll
  intro i hi
  rw [h.zLane _ hi]

theorem agree_bitmask (op : BitmaskOp) : (bitmask vl ops r op).AgreeBelow vl (bitmask vl ops s op) := by
  apply h.onAll
  intro i hi
  rw [h.zLane _ hi]

theorem agree_multiplyAdd (negated : Bool) :
    (multiplyAdd vl ops r negated).AgreeBelow vl (multiplyAdd vl ops s negated) := by
  apply h.onActive
  intro i hi
  dsimp only
  rw [h.zLane _ hi, h.zLane _ hi, h.zLane _ hi]

theorem agree_multiplyInto (negated : Bool) :
    (multiplyInto vl ops r negated).AgreeBelow vl (multiplyInto vl ops s negated) := by
  apply h.onActive
  intro i hi
  dsimp only
  rw [h.zLane _ hi, h.zLane _ hi, h.zLane _ hi]

theorem agree_broadcast {a b : BitVec 64} (same : a = b) : (broadcast vl ops r a).AgreeBelow vl (broadcast vl ops s b) := by
  rw [same]
  exact h.onAll _ fun _ _ => rfl

theorem agree_copyActive {a b : BitVec 64} (same : a = b) :
    (copyActive vl ops r a).AgreeBelow vl (copyActive vl ops s b) := by
  rw [same]
  exact h.onActive _ _ _ fun _ _ => rfl

theorem scalarValue_eq (i : Nat) : scalarValue ops r i = scalarValue ops s i := by
  unfold scalarValue
  rw [h.scalar _ (LaneSize.bits_le _)]

theorem agree_select : (select vl ops r).AgreeBelow vl (select vl ops s) := by
  apply h.onAll
  intro i hi
  rw [h.active _ hi, h.zLane _ hi]

theorem agree_movprfx : (movprfx vl ops r).AgreeBelow vl (movprfx vl ops s) := by
  apply h.mapBytes
  intro i hi
  exact h.zLane _ (l := .b) (vl.lanes_b ▸ hi)

theorem agree_movprfxPredicated : (movprfxPredicated vl ops r).AgreeBelow vl (movprfxPredicated vl ops s) :=
  h.onActive _ _ _ fun _ hi => h.zLane _ hi

theorem indexTerm_eq (i : Nat) : indexTerm ops r i = indexTerm ops s i := by
  unfold indexTerm
  dsimp only
  rw [h.general]

theorem agree_index : (index vl ops r).AgreeBelow vl (index vl ops s) := by
  apply h.onAll
  intro i hi
  rw [indexTerm_eq ops h, indexTerm_eq ops h]

/-- **A rearrangement looks at lanes of the vector length alone**, if the lanes come in pairs. -/
theorem agree_permute (op : PermuteOp) (pairs : vl.lanes (laneAt ops 0) % 2 = 0) :
    (permute vl ops r op).AgreeBelow vl (permute vl ops s op) := by
  apply h.onAll
  intro i hi
  have lane : ∀ z k, k < vl.lanes (laneAt ops 0) → r.zLane z (laneAt ops 0).bits k = s.zLane z (laneAt ops 0).bits k :=
    fun z _ hk => h.zLane z hk
  unfold permuteLane
  cases op with
  | tbl =>
    dsimp only
    rw [lane _ _ hi]
    split
    · exact lane _ _ ‹_›
    · rfl
  | zip1 | zip2 | trn1 | trn2 =>
    dsimp only
    split
    · exact lane _ _ (by omega)
    · exact lane _ _ (by omega)
  | uzp1 | uzp2 =>
    dsimp only
    split
    · exact lane _ _ ‹_›
    · exact lane _ _ (by omega)

theorem agree_reverse : (reverse vl ops r).AgreeBelow vl (reverse vl ops s) :=
  h.onAll _ fun _ hi => h.zLane _ (by omega)

theorem agree_insert {a b : BitVec 64} (same : a = b) : (insert vl ops r a).AgreeBelow vl (insert vl ops s b) := by
  rw [same]
  apply h.onAll
  intro i hi
  split
  · rfl
  · exact h.zLane _ (by omega)

theorem agree_duplicate : (duplicate vl ops r).AgreeBelow vl (duplicate vl ops s) := by
  apply h.onAll
  intro _ _
  split
  · exact h.zLane _ ‹_›
  · rfl

theorem agree_reduction (op : ReductionOp) : (reduction vl ops r op).AgreeBelow vl (reduction vl ops s op) := by
  have elements : ∀ i ∈ activeLanes (laneAt ops 2).bytes (s.pBits (regAt ops 1)) (vl.lanes (laneAt ops 2)),
      r.zLane (regAt ops 2) (laneAt ops 2).bits i = s.zLane (regAt ops 2) (laneAt ops 2).bits i :=
    fun i hi => h.zLane _ (List.mem_range.mp (List.mem_filter.mp hi).1)
  unfold reduction
  dsimp only
  rw [h.activeLanes, List.map_congr_left elements]
  exact h.writeScalar ..

/-! ## Predicates -/

theorem agree_compareLanes (rel : Relation) (l : LaneSize) {a b : Nat → BitVec l.bits} (same : ∀ i < vl.lanes l, a i = b i) :
    (compareLanes vl ops r rel l a).AgreeBelow vl (compareLanes vl ops s rel l b) := by
  refine h.setTested l _ (h.p _) ?_
  rw [predicateOf_congr fun i hi => by rw [h.active _ hi, h.zLane _ hi, same i hi]]
  exact .refl _ _

theorem agree_compareVectors (rel : Relation) :
    (compareVectors vl ops r rel).AgreeBelow vl (compareVectors vl ops s rel) :=
  agree_compareLanes ops h rel _ fun _ hi => h.zLane _ hi

theorem agree_compareImmediate (rel : Relation) :
    (compareImmediate vl ops r rel).AgreeBelow vl (compareImmediate vl ops s rel) :=
  agree_compareLanes ops h rel _ fun _ _ => rfl

theorem agree_loopTest (onDifference : Bool) : (loopTest ops r onDifference).AgreeBelow vl (loopTest ops s onDifference) := by
  unfold loopTest
  rw [h.general, h.general, h.flags]
  exact h.withFlags _

theorem agree_ptrue (setsFlags : Bool) : (ptrue vl ops r setsFlags).AgreeBelow vl (ptrue vl ops s setsFlags) := by
  unfold ptrue
  cases setsFlags with
  | true => exact h.setTested _ _ (.refl _ _) (.refl _ _)
  | false => exact h.setP _ (.refl _ _)

theorem agree_pfalse : (pfalse ops r).AgreeBelow vl (pfalse ops s) := h.setP _ (.refl _ _)

theorem agree_ptest : (ptest vl ops r).AgreeBelow vl (ptest vl ops s) := by
  unfold ptest
  rw [(h.p _).predicateTest (h.p _) (by decide) (by omega)]
  exact h.withFlags _

theorem agree_pfirst : (pfirst vl ops r).AgreeBelow vl (pfirst vl ops s) := by
  refine h.setTested _ _ (h.p _) ?_
  rw [h.activeLanes]
  split
  · exact (h.p _).setLane _ _
  · exact h.p _

theorem agree_pnext : (pnext vl ops r).AgreeBelow vl (pnext vl ops s) := by
  refine h.setTested _ _ (h.p _) ?_
  rw [h.activeLanes, h.activeLanes]
  exact .refl _ _

theorem agree_predicateLogic (op : PredicateOp) :
    (predicateLogic vl ops r op).AgreeBelow vl (predicateLogic vl ops s op) := by
  have result : predicateOf 1 vl.bytes (fun i =>
        predicateLane op (activeLane 1 (r.pBits (regAt ops 1)) i) (activeLane 1 (r.pBits (regAt ops 2)) i)
          (activeLane 1 (r.pBits (regAt ops 3)) i)) =
      predicateOf 1 vl.bytes fun i =>
        predicateLane op (activeLane 1 (s.pBits (regAt ops 1)) i) (activeLane 1 (s.pBits (regAt ops 2)) i)
          (activeLane 1 (s.pBits (regAt ops 3)) i) := by
    refine predicateOf_congr fun i hi => ?_
    rw [(h.p _).activeLane (by omega), (h.p _).activeLane (by omega), (h.p _).activeLane (by omega)]
  unfold predicateLogic
  dsimp only
  rw [result]
  split
  · exact h.setTested _ _ (h.p _) (.refl _ _)
  · exact h.setP _ (.refl _ _)

theorem activeCount_eq (l : LaneSize) (p : Nat) : activeCount vl r l p = activeCount vl s l p := by
  unfold activeCount
  rw [h.activeLanes]

theorem agree_cntp : (cntp vl ops r).AgreeBelow vl (cntp vl ops s) := by
  have both : ∀ i ∈ activeLanes (laneAt ops 2).bytes (s.pBits (regAt ops 1)) (vl.lanes (laneAt ops 2)),
      activeLane (laneAt ops 2).bytes (r.pBits (regAt ops 2)) i = activeLane (laneAt ops 2).bytes (s.pBits (regAt ops 2)) i :=
    fun i hi => h.active _ (List.mem_range.mp (List.mem_filter.mp hi).1)
  unfold cntp
  dsimp only
  rw [h.activeLanes, List.filter_congr both]
  exact h.setGeneral ..

theorem agree_countX (op : CountOp) : (countX vl ops r op).AgreeBelow vl (countX vl ops s op) := by
  unfold countX operandCount
  rw [h.general, activeCount_eq h]
  exact h.setGeneral ..

theorem wordCount_eq (op : CountOp) : wordCount vl ops r op = wordCount vl ops s op := by
  unfold wordCount operandCount
  rw [h.read, activeCount_eq h]

theorem agree_countW (op : CountOp) : (countW vl ops r op).AgreeBelow vl (countW vl ops s op) := by
  unfold countW
  rw [wordCount_eq ops h]
  exact h.write ..

theorem agree_countExtended (op : CountOp) : (countExtended vl ops r op).AgreeBelow vl (countExtended vl ops s op) := by
  unfold countExtended
  rw [wordCount_eq ops h]
  exact h.write ..

theorem agree_countZ (op : CountOp) : (countZ vl ops r op).AgreeBelow vl (countZ vl ops s op) := by
  unfold countZ
  dsimp only
  rw [activeCount_eq h]
  apply h.onAll
  intro i hi
  rw [h.zLane _ hi]

theorem agree_elementCount (op : Counting) (e : Element) :
    (elementCount vl ops r op e).AgreeBelow vl (elementCount vl ops s op e) := by
  unfold elementCount
  rw [h.general]
  exact h.setGeneral ..

theorem agree_rdvl : (rdvl vl ops r).AgreeBelow vl (rdvl vl ops s) := h.setGeneral ..

theorem agree_addvl : (addvl vl ops r).AgreeBelow vl (addvl vl ops s) := by
  unfold addvl
  rw [h.general]
  exact h.setGeneral ..

end Semantics

/-! ## Transfers -/

/-- **Registers that agree below the vector length**, and the same memory. -/
structure Core.AgreeBelow (vl : VectorLength) (c d : Core) : Prop where
  regs : c.regs.AgreeBelow vl d.regs
  mem : c.mem = d.mem

/-- Two transfers that agree: both succeed, or both fault alike. -/
inductive TransferResult.AgreeBelow (vl : VectorLength) : TransferResult → TransferResult → Prop
  | done {c d : Core} (same : c.AgreeBelow vl d) : AgreeBelow vl (.done c) (.done d)
  | fault (why : AccessFault) {c d : Core} (same : c.AgreeBelow vl d) : AgreeBelow vl (.fault why c) (.fault why d)

/-- **Two outcomes that agree**: execution goes on at the same place, or ends with the same fault. -/
inductive Outcome.AgreeBelow (vl : VectorLength) : Outcome → Outcome → Prop
  | done {c d : Core} (same : c.AgreeBelow vl d) (flow : Flow) : AgreeBelow vl (.done c flow) (.done d flow)
  | fault (why : Fault) {c d : Core} (same : c.AgreeBelow vl d) : AgreeBelow vl (.fault why c) (.fault why d)

theorem TransferResult.AgreeBelow.outcome {vl : VectorLength} {t u : TransferResult} (h : t.AgreeBelow vl u) :
    t.outcome.AgreeBelow vl u.outcome := by
  cases h with
  | done same => exact .done same .next
  | fault why same => exact .fault (.access why) same

namespace Semantics

variable {vl : VectorLength} {c d : Core} (ops : List Operand) (h : c.AgreeBelow vl d)

include h

theorem agree_loading (address : BitVec 64) (n : Nat) {use use' : List Byte → Registers}
    (same : ∀ bytes, (use bytes).AgreeBelow vl (use' bytes)) :
    (loading c address n use).AgreeBelow vl (loading d address n use') := by
  unfold loading
  rw [h.mem]
  split
  · exact .done ⟨same _, rfl⟩
  · exact .fault _ h

theorem agree_storing (address : BitVec 64) (bytes : List Byte) :
    (storing c address bytes).AgreeBelow vl (storing d address bytes) := by
  unfold storing
  rw [h.mem]
  split
  · exact .done ⟨h.regs, rfl⟩
  · exact .fault _ h

theorem address_eq (mem : Operand) (unit : Nat) : address mem unit c.regs = address mem unit d.regs := by
  unfold address
  rw [h.regs.read]

theorem agree_transfer (access : Access) (size : TransferSize) :
    (transfer access size ops c).AgreeBelow vl (transfer access size ops d) := by
  unfold transfer
  dsimp only
  rw [address_eq h, h.regs.general]
  cases access with
  | load => exact agree_loading h _ _ fun _ => h.regs.setGeneral ..
  | store => exact agree_storing h ..

theorem agree_transferScalar (access : Access) (l : LaneSize) :
    (transferScalar access l ops c).AgreeBelow vl (transferScalar access l ops d) := by
  have narrow : l.bytes * 8 ≤ vl.bits := by
    have visible := vl.bounds.1
    cases l <;> simp only [LaneSize.bytes] <;> omega
  unfold transferScalar
  dsimp only
  rw [address_eq h, (h.regs.z _).bytesOf narrow]
  cases access with
  | load => exact agree_loading h _ _ fun _ => h.regs.writeScalar ..
  | store => exact agree_storing h ..

theorem agree_transferZ (access : Access) : (transferZ access vl ops c).AgreeBelow vl (transferZ access vl ops d) := by
  unfold transferZ
  dsimp only
  rw [address_eq h, (h.regs.z _).bytesOf (Nat.le_of_eq vl.bytes_mul_eight)]
  cases access with
  | load => exact agree_loading h _ _ fun _ => h.regs.mapBytes _ fun _ _ => rfl
  | store => exact agree_storing h ..

theorem agree_transferP (access : Access) : (transferP access vl ops c).AgreeBelow vl (transferP access vl ops d) := by
  have width := vl.predicateBytes_mul_eight
  unfold transferP
  dsimp only
  rw [address_eq h, (h.regs.p _).bytesOf (Nat.le_of_eq width)]
  cases access with
  | load =>
    refine agree_loading h _ _ fun bytes => h.regs.setP _ ?_
    rw [← width]
    exact .putLanes _ _ (width ▸ vl.bytes_le) fun _ _ => rfl
  | store => exact agree_storing h ..

theorem agree_loadElements (l : LaneSize) : (loadElements l vl ops c).AgreeBelow vl (loadElements l vl ops d) := by
  unfold loadElements
  dsimp only
  rw [address_eq h, h.regs.activeLanes, h.mem]
  split
  · exact .fault _ h
  · exact .done ⟨h.regs.onActive _ _ _ fun _ _ => rfl, rfl⟩

/-- Lanes of the vector length are stored alike. -/
theorem agree_storeLanes (l : LaneSize) {v w : ZBits} (same : SameBelow vl.bits v w) (base : BitVec 64) {lanes : List Nat}
    (inside : ∀ i ∈ lanes, i < vl.lanes l) :
    (storeLanes l v base c lanes).AgreeBelow vl (storeLanes l w base d lanes) := by
  induction lanes generalizing c d with
  | nil => exact .done h
  | cons i lanes ih =>
    obtain ⟨here, inside⟩ := List.forall_mem_cons.mp inside
    have first := agree_storing h (laneAddress base l i) (bytesOf l.bytes (lane l.bits w i))
    unfold storeLanes
    rw [same.lane (vl.lane_fits here)]
    generalize storing c (laneAddress base l i) (bytesOf l.bytes (lane l.bits w i)) = t at first
    generalize storing d (laneAddress base l i) (bytesOf l.bytes (lane l.bits w i)) = u at first
    cases first with
    | done next => exact ih next inside
    | fault why left => exact .fault why left

theorem agree_storeElements (l : LaneSize) : (storeElements l vl ops c).AgreeBelow vl (storeElements l vl ops d) := by
  unfold storeElements
  dsimp only
  rw [address_eq h, h.regs.activeLanes]
  exact agree_storeLanes h l (h.regs.z _) _ fun i hi => List.mem_range.mp (List.mem_filter.mp hi).1

/-! ## Instructions -/

theorem agree_registersOnly {r s : Registers} (same : r.AgreeBelow vl s) :
    (registersOnly c r).AgreeBelow vl (registersOnly d s) := by
  have next : Core.AgreeBelow vl { c with regs := r } { d with regs := s } := ⟨same, h.mem⟩
  exact .done next .next

/-- **What the checks of the encoder say about indices**: an element is one of the lowest 128 bits, and lanes that are
    rearranged are those of integers. -/
structure Confined (f : Form) (ops : List Operand) : Prop where
  element : f = .moveElement → (arg ops 2).imm.toNat * scalarBits (arg ops 0) + scalarBits (arg ops 0) ≤ 128
  pairs : ∀ op, f = .permute op → laneAt ops 0 ∈ Form.bhsd

variable {f : Form} {ops}

theorem agree_executeVector (confined : Confined f ops) :
    (executeVector f vl ops c).AgreeBelow vl (executeVector f vl ops d) := by
  have hr := h.regs
  -- only permutations ask for more than agreement: the lanes come in pairs
  cases f with
  | predicated op => exact agree_registersOnly h (agree_predicated ops hr op.op)
  | reduction op => exact agree_registersOnly h (agree_reduction ops hr op)
  | multiplyAdd negated => exact agree_registersOnly h (agree_multiplyAdd ops hr negated)
  | multiplyInto negated => exact agree_registersOnly h (agree_multiplyInto ops hr negated)
  | unpredicated op => exact agree_registersOnly h (agree_unpredicated ops hr op.op)
  | permute op => exact agree_registersOnly h (agree_permute ops hr op (vl.lanes_even (confined.pairs op rfl)))
  | bitwise op => exact agree_registersOnly h (agree_unpredicated ops hr op.op)
  | movprfx => exact agree_registersOnly h (agree_movprfx ops hr)
  | movprfxPredicated => exact agree_registersOnly h (agree_movprfxPredicated ops hr)
  | index => exact agree_registersOnly h (agree_index ops hr)
  | addvl => exact agree_registersOnly h (agree_addvl ops hr)
  | rdvl => exact agree_registersOnly h (agree_rdvl ops hr)
  | elementCount op e => exact agree_registersOnly h (agree_elementCount ops hr op e)
  | dupScalar => exact agree_registersOnly h (agree_broadcast ops hr (hr.general ..))
  | dupImm | dupm => exact agree_registersOnly h (agree_broadcast ops hr rfl)
  | dupIndex => exact agree_registersOnly h (agree_duplicate ops hr)
  | insrScalar => exact agree_registersOnly h (agree_insert ops hr (hr.general ..))
  | insrSimd => exact agree_registersOnly h (agree_insert ops hr (scalarValue_eq ops hr 1))
  | rev => exact agree_registersOnly h (agree_reverse ops hr)
  | sel => exact agree_registersOnly h (agree_select ops hr)
  | cpyScalar => exact agree_registersOnly h (agree_copyActive ops hr (hr.general ..))
  | cpySimd => exact agree_registersOnly h (agree_copyActive ops hr (scalarValue_eq ops hr 2))
  | cpyImm => exact agree_registersOnly h (agree_copyActive ops hr rfl)
  | bitmask op => exact agree_registersOnly h (agree_bitmask ops hr op)
  | immediate op => exact agree_registersOnly h (agree_immediate ops hr op)
  | compare rel => exact agree_registersOnly h (agree_compareVectors ops hr rel.rel)
  | compareUnsigned rel => exact agree_registersOnly h (agree_compareImmediate ops hr rel.rel)
  | compareSigned rel => exact agree_registersOnly h (agree_compareImmediate ops hr rel.rel)
  | predicateLogic op => exact agree_registersOnly h (agree_predicateLogic ops hr op)
  | ptest => exact agree_registersOnly h (agree_ptest ops hr)
  | pfirst => exact agree_registersOnly h (agree_pfirst ops hr)
  | pnext => exact agree_registersOnly h (agree_pnext ops hr)
  | pfalse => exact agree_registersOnly h (agree_pfalse ops hr)
  | ptrue setsFlags => exact agree_registersOnly h (agree_ptrue ops hr setsFlags)
  | cntp => exact agree_registersOnly h (agree_cntp ops hr)
  | countX op => exact agree_registersOnly h (agree_countX ops hr op)
  | countW op => exact agree_registersOnly h (agree_countW ops hr op.op)
  | countExtended op => exact agree_registersOnly h (agree_countExtended ops hr op.op)
  | countZ op => exact agree_registersOnly h (agree_countZ ops hr op)
  | cterm onDifference => exact agree_registersOnly h (agree_loopTest ops hr onDifference)
  | transferP a => exact (agree_transferP ops h a).outcome
  | transferZ a => exact (agree_transferZ ops h a).outcome
  | ld1 e => exact (agree_loadElements ops h e.lane).outcome
  | st1 e => exact (agree_storeElements ops h e.lane).outcome
  | _ => exact agree_registersOnly h hr

/-- **Instructions read and write within the vector length.** -/
theorem agree_execute (confined : Confined f ops) (cond : Condition) :
    (execute f cond ops c).AgreeBelow vl (execute f cond ops d) := by
  have hr := h.regs
  -- both sides have the length, so both are refused or both are executed with it
  by_cases vector : f.isVector = true
  · rw [Form.needsLength_of_isVector vector, Form.needsLength_of_isVector vector, hr.length, hr.lengthToo]
    exact agree_executeVector h confined
  · cases f with
    | moveWide op _ => exact agree_registersOnly h (agree_moveWide ops hr op)
    | addSubImm op width => exact agree_registersOnly h (agree_addSubImm ops hr op width)
    | addSubShifted op width => exact agree_registersOnly h (agree_addSubShifted ops hr op width)
    | logicalShifted op width => exact agree_registersOnly h (agree_logicalShifted ops hr op width)
    | logicalImm op width => exact agree_registersOnly h (agree_logicalImm ops hr op width)
    | nop => exact agree_registersOnly h hr
    | readFlags => exact agree_registersOnly h (agree_readFlags ops hr)
    | writeFlags => exact agree_registersOnly h (agree_writeFlags ops hr)
    | transfer a size => exact (agree_transfer ops h a size).outcome
    | transferScalar a l => exact (agree_transferScalar ops h a l).outcome
    | moveToScalar => exact agree_registersOnly h (agree_moveToScalar ops hr)
    | moveFromScalar => exact agree_registersOnly h (agree_moveFromScalar ops hr)
    | moveElement => exact agree_registersOnly h (agree_moveElement ops hr (confined.element rfl))
    | hlt => exact .done h .halt
    | branch =>
      unfold execute
      dsimp only
      rw [branchTarget_eq hr]
      exact .done h _
    | branchCond =>
      unfold execute
      dsimp only
      rw [branchTarget_eq hr, hr.flags]
      exact .done h _
    | compareBranch =>
      unfold execute
      dsimp only
      rw [branchTarget_eq hr, zeroTest_eq hr]
      exact .done h _
    | ret =>
      unfold execute
      dsimp only
      rw [hr.general]
      exact .done h _
    | _ => exact absurd rfl vector

omit h in
/-- The index of an element of the lowest 128 bits. -/
theorem element_inside {l : LaneSize} {v : BitVec 64} (low : 0 ≤ v.toInt) (high : v.toInt ≤ 16 / twoPow l.log2 - 1) :
    v.toNat * l.bits + l.bits ≤ 128 := by
  have elements : 16 / twoPow l.log2 * l.bits = 128 := by cases l <;> rfl
  have number := Slot.toNat_eq_toInt low
  have count : ((16 / twoPow l.log2 : Nat) : Int) = 16 / (twoPow l.log2 : Int) := Int.natCast_ediv ..
  have below : v.toNat + 1 ≤ 16 / twoPow l.log2 := by omega
  have room := Nat.mul_le_mul_right l.bits below
  rwa [Nat.succ_mul, elements] at room

omit h in
/-- **Operands that are encoded stay within the vector length.** -/
theorem confined_of_encodes {cond : Condition} (encodes : Instruction.Encodes f cond ops) : Confined f ops where
  element := by
    rintro rfl
    obtain ⟨l, -, lane⟩ := encodes.passes (c := .laneAllowed 0) (by decide)
    have index := encodes.passes (c := .value 2) (by decide) .scalarIndex rfl
    obtain ⟨low, high⟩ := rangeFault?_eq_none.mp (orElse_eq_none.mp index).1
    have size : Form.moveElement.lane ops = some l := lane
    rw [size] at high
    unfold scalarBits
    rw [lane]
    exact element_inside low high
  pairs := by
    rintro op rfl
    obtain ⟨l, allowed, lane⟩ := encodes.passes (f := .permute op) (c := .laneAllowed 0) (.head _)
    unfold laneAt
    rw [lane]
    exact allowed

end Semantics

end ArmToolkit.A64
