import Mathlib.Data.Finset.Card
import ArmToolkit.Proofs.ElementArithmetic
import ArmToolkit.Proofs.StraightLine
import ArmToolkit.Proofs.VectorInstructions

/-!
# `Proofs.ActiveCounts` — counting active lanes into registers

## Contents
- **Counts.** `activeIn` is the set of the lanes that are active in some predicates; what instructions count are its members
  (`Semantics.activeCount_eq`).
- **Exact results.** `CountOp.Exact` says what a value adjusted by a count has to be, as an integer. There is one such value
  (`CountOp.Exact.unique`), it is the one that instructions give (`CountOp.adjust_exact`), and 64-bit words alone have room to
  compute it (`CountOp.onWords_eq`).
- **Instructions.** `Simulator.execute_counts`: `cntp`, the forms on one general register (`Form.scalarCount?`) and those on
  the lanes of a vector.
-/

namespace ArmToolkit.A64

open BitmaskImmediate (onesBelow)

/-! ## Counts -/

/-- **The lanes that are active** in all of some predicates. -/
def activeIn (vl : VectorLength) (l : LaneSize) (ps : List PBits) : Finset Nat :=
  (Finset.range (vl.lanes l)).filter fun i => ∀ p ∈ ps, activeLane l.bytes p i = true

/-- Numbers that a test picks are counted by their set. -/
theorem length_filter_range (n : Nat) (test : Nat → Bool) :
    ((List.range n).filter test).length = ((Finset.range n).filter fun i => test i = true).card := by
  rw [Finset.card, Finset.filter_val, Finset.range_val, Multiset.range, Multiset.filter_coe, Multiset.coe_card]
  simp

/-- What is counted of one predicate are its active lanes. -/
theorem length_activeLanes (vl : VectorLength) (l : LaneSize) (p : PBits) :
    (activeLanes l.bytes p (vl.lanes l)).length = (activeIn vl l [p]).card := by
  rw [activeLanes, length_filter_range]
  simp [activeIn]

/-- What is counted of two predicates are the lanes that are active in both. -/
theorem length_governedLanes (vl : VectorLength) (l : LaneSize) (pg pn : PBits) :
    ((activeLanes l.bytes pg (vl.lanes l)).filter fun i => activeLane l.bytes pn i).length =
      (activeIn vl l [pg, pn]).card := by
  rw [activeLanes, List.filter_filter, length_filter_range]
  simp [activeIn, and_comm]

/-- There are at most as many active lanes as a register has bytes. -/
theorem card_activeIn_le (vl : VectorLength) (l : LaneSize) (ps : List PBits) : (activeIn vl l ps).card ≤ 256 := by
  have lanes : vl.lanes l ≤ vl.lanes l * l.bytes := Nat.le_mul_of_pos_right _ l.bytes_pos
  calc (activeIn vl l ps).card
      ≤ (Finset.range (vl.lanes l)).card := Finset.card_filter_le _ _
    _ = vl.lanes l := Finset.card_range _
    _ ≤ 256 := lanes.trans (vl.lanes_mul_bytes_le l)

/-! ## Exact results -/

namespace CountOp

variable {n : Nat}

/-- **What a value adjusted by a count has to be.** -/
def Exact (op : CountOp) (v : BitVec n) (count : Nat) (r : BitVec n) : Prop :=
  match op with
  | incp => (r.toNat : Int) = (v.toNat + count) % twoPow n
  | decp => (r.toNat : Int) = (v.toNat - count) % twoPow n
  | sqincp => r.toInt = nearestSigned n (v.toInt + count)
  | sqdecp => r.toInt = nearestSigned n (v.toInt - count)
  | uqincp => (r.toNat : Int) = nearestUnsigned n (v.toNat + count)
  | uqdecp => (r.toNat : Int) = nearestUnsigned n (v.toNat - count)

/-- A value is adjusted by a count in one way only. -/
theorem Exact.unique {op : CountOp} {v r r' : BitVec n} {count : Nat} (h : op.Exact v count r) (h' : op.Exact v count r') :
    r = r' := by
  have unsigned : ∀ {z : Int}, (r.toNat : Int) = z → (r'.toNat : Int) = z → r = r' := fun first second =>
    BitVec.eq_of_toNat_eq (Int.ofNat_inj.mp (first.trans second.symm))
  cases op with
  | incp | decp | uqincp | uqdecp => exact unsigned h h'
  | sqincp | sqdecp => exact BitVec.eq_of_toInt_eq (h.trans h'.symm)

/-- The value that an instruction gives. -/
def adjusted (op : CountOp) (v : BitVec n) (count : Nat) : BitVec n := op.overflow.adjust op.decrements v count

/-- A sum that wraps is exact modulo the range. -/
theorem toNat_add_ofInt (v : BitVec n) (z : Int) : ((v + BitVec.ofInt n z).toNat : Int) = (v.toNat + z) % twoPow n := by
  have sum : v + BitVec.ofInt n z = BitVec.ofInt n (v.toNat + z) := by
    rw [BitVec.ofInt_add, BitVec.ofInt_natCast, BitVec.ofNat_toNat, BitVec.setWidth_eq]
  have positive : (twoPow n : Int) ≠ 0 := by exact_mod_cast Nat.ne_of_gt (twoPow_pos n)
  rw [sum, BitVec.toNat_ofInt]
  exact Int.toNat_of_nonneg (Int.emod_nonneg _ positive)

/-- **The value is exact.** -/
theorem adjusted_exact (positive : 0 < n) (op : CountOp) (v : BitVec n) (count : Nat) :
    op.Exact v count (op.adjusted v count) := by
  cases op with
  | incp | decp => exact toNat_add_ofInt v _
  | sqincp | sqdecp => exact toInt_clampSigned positive _
  | uqincp | uqdecp => exact toNat_clampUnsigned _

/-- **The arithmetic of a machine that has 64-bit words alone**: the value is zero- or sign-extended from its bits, sums may
    leave it or the word, and the result is cut to the bits. -/
def onWords (op : CountOp) (bits : Nat) (value count : BitVec 64) : BitVec 64 :=
  let result :=
    match op.overflow with
    | .wrap => wrapped op.decrements value count
    | .signed => saturating bits op.decrements (signedWord bits value) count
    | .unsigned => saturatingUnsigned bits op.decrements value count
  result &&& onesBelow bits

/-- The exact sum or difference with a count. -/
theorem combined_eq (subtracts : Bool) (x : Int) (count : Nat) :
    combined subtracts x count = x + if subtracts then -(count : Int) else count := by
  cases subtracts <;> rfl

/-- **Words give the same value**, where the count is in the range of the bits. -/
theorem onWords_eq (positive : 0 < n) (narrow : n ≤ 64) (op : CountOp) (v : BitVec n) {count : Nat} (small : count ≤ 256)
    (fits : count < twoPow n) :
    (op.onWords n (v.setWidth 64) (BitVec.ofNat 64 count)).setWidth n = op.adjusted v count := by
  have word : (BitVec.ofNat 64 count).toNat = count := Nat.mod_eq_of_lt (by omega)
  have signed : (BitVec.ofNat 64 count).toInt = count := by
    rw [BitVec.toInt_eq_toNat_of_lt (by omega), word]
  unfold onWords
  simp only [and_onesBelow, setWidth_extended narrow]
  unfold adjusted Overflow.adjust
  -- a count is at most 256, so the word of it is its value for either sign
  cases op.overflow with
  | wrap =>
    have count_bits : (BitVec.ofNat 64 count).setWidth n = BitVec.ofNat n count := by
      apply BitVec.eq_of_toNat_eq
      rw [BitVec.toNat_setWidth, word, BitVec.toNat_ofNat]
    simp only [wrapped]
    cases op.decrements with
    | true =>
      simp only [if_true]
      rw [setWidth_sub narrow, setWidth_extended narrow, count_bits, BitVec.ofInt_neg, BitVec.ofInt_natCast,
        BitVec.sub_eq_add_neg]
    | false =>
      simp only [Bool.false_eq_true, if_false]
      rw [BitVec.setWidth_add _ _ narrow, setWidth_extended narrow, count_bits, BitVec.ofInt_natCast]
  | signed =>
    have room : -(twoPow 62 : Int) ≤ (BitVec.ofNat 64 count).toInt ∧ (BitVec.ofNat 64 count).toInt < twoPow 62 := by
      rw [signed]
      have large : (256 : Int) < twoPow 62 := by decide
      omega
    simp only
    rw [setWidth_saturating positive narrow _ v fun _ => room, signed, combined_eq]
  | unsigned =>
    have value : (BitVec.ofNat n count).toNat = count := Nat.mod_eq_of_lt fits
    have element : BitVec.ofNat 64 count = (BitVec.ofNat n count).setWidth 64 := by
      apply BitVec.eq_of_toNat_eq
      rw [BitVec.toNat_setWidth_of_le narrow, word, value]
    simp only
    rw [element, setWidth_saturatingUnsigned narrow, value, combined_eq]

end CountOp

/-! ## Instructions -/

/-- **A count into one general register**: the operation, the number of bits of the register that it works on, and how the
    result is extended to the whole register. -/
structure ScalarCount where
  op : CountOp
  bits : Nat
  extend : BitVec bits → BitVec 64

/-- The forms that adjust a general register. -/
def Form.scalarCount? : Form → Option ScalarCount
  | countX op => some ⟨op, 64, id⟩
  | countW op => some ⟨op.op, 32, BitVec.setWidth 64⟩
  | countExtended op => some ⟨op.op, 32, BitVec.signExtend 64⟩
  | _ => none

/-- A form that adjusts a general register works on half of it or on all of it. -/
theorem Form.bits_of_scalarCount {f : Form} {c : ScalarCount} (scalar : f.scalarCount? = some c) :
    32 ≤ c.bits ∧ c.bits ≤ 64 := by
  have sizes : c.bits = 64 ∨ c.bits = 32 := by
    cases f with
    | countX op =>
      cases scalar
      exact .inl rfl
    | countW op | countExtended op =>
      cases scalar
      exact .inr rfl
    | _ => cases scalar
  omega

namespace Registers

variable {op : Operand} (wide : op.kind = .x)

include wide

/-- The value of a 64-bit register is that of the whole register. -/
theorem general_of_x (r : Registers) (c : Code31) : r.general op c = r.read op.reg c := by
  rw [general, wide]
  rfl

/-- What is written to a 64-bit register is written to the whole register. -/
theorem setGeneral_of_x (r : Registers) (v : BitVec 64) (c : Code31) : r.setGeneral op v c = r.write op.reg v c := by
  rw [setGeneral, wide]
  rfl

end Registers

namespace Simulator

open Semantics (laneAt regAt)

/-- **What an instruction leaves that gives a value to a general register**: it succeeds, and the register has the value.
    Code 31 has no register, and nothing is written. All else stays but for the program counter. -/
structure PutsGeneral (sim : Simulator) (inst : Instruction) (value : BitVec 64) : Prop where
  succeeds : (sim.execute inst).failure = none
  result : regAt inst.ops 0 ≠ 31 → (sim.execute inst).sim.core.regs.read (regAt inst.ops 0) .zero = value
  others : ∀ c, c ≠ regAt inst.ops 0 → ∀ k, (sim.execute inst).sim.core.regs.read c k = sim.core.regs.read c k
  dropped : regAt inst.ops 0 = 31 → (sim.execute inst).sim.core.regs.x = sim.core.regs.x
  kept : (sim.execute inst).sim.core = { sim.core with
    regs := { sim.core.regs with x := (sim.execute inst).sim.core.regs.x, pc := (sim.execute inst).sim.core.regs.pc } }

variable {sim : Simulator} {inst : Instruction} {f : Form} {vl : VectorLength} {l : LaneSize}

/-- An instruction that writes the general register of its first operand. -/
theorem putsGeneral (formed : inst.form = some f) (code : regAt inst.ops 0 < 32) {value : BitVec 64}
    (executed : Semantics.execute f inst.cond inst.ops sim.core = Semantics.registersOnly sim.core
      (sim.core.regs.write (regAt inst.ops 0) value .zero)) : sim.PutsGeneral inst value := by
  obtain ⟨succeeds, left⟩ := execute_done formed executed
  have core : (sim.execute inst).sim.core = { sim.core with
      regs := { sim.core.regs.write (regAt inst.ops 0) value .zero with pc := sim.nextPc } } := by rw [left]; rfl
  by_cases last : regAt inst.ops 0 = 31
  · have unwritten : sim.core.regs.write (regAt inst.ops 0) value .zero = sim.core.regs := by rw [last]; rfl
    rw [unwritten] at core
    exact ⟨succeeds, absurd last, fun c _ k => by rw [core]; rfl, fun _ => by rw [core], by rw [core]⟩
  · have inside : regAt inst.ops 0 < 31 := by omega
    have wrote : sim.core.regs.Wrote (sim.execute inst).sim.core.regs (regAt inst.ops 0) value := ⟨_, by rw [core]⟩
    refine ⟨succeeds, fun _ => wrote.read inside .zero, fun c other k => wrote.read_of_ne inside (Ne.symm other) k,
      fun same => absurd same last, ?_⟩
    rw [core, Registers.write_of_lt _ inside]

/-- A 64-bit destination that is accepted. -/
theorem Accepts.destination {field : Field} (h : sim.Accepts inst f vl l)
    (slot : f.slots[0]? = some (.general field .x .zero)) (five : field.width = 5) :
    (arg inst.ops 0).kind = .x ∧ regAt inst.ops 0 < 32 := by
  have accepts : ((arg inst.ops 0).kind == .x) = true := h.passes.accepts_slot slot
  have fits := (h.passes.keepsRegister slot field rfl).1
  rw [five] at fits
  exact ⟨beq_iff_eq.mp accepts, fits⟩

/-- A scalar form counts the lanes of its predicate. -/
theorem Accepts.counted {c : ScalarCount} (scalar : f.scalarCount? = some c) (h : sim.Accepts inst f vl l) :
    laneAt inst.ops 1 = l := by
  cases f with
  | countX op | countW op | countExtended op => exact (h.size Sizing.noConfusion List.mem_cons_self).2
  | _ => cases scalar

/-- A scalar form adds the number of active lanes to its register, or subtracts it. -/
theorem Accepts.putsCount {c : ScalarCount} (scalar : f.scalarCount? = some c) (h : sim.Accepts inst f vl l) :
    sim.PutsGeneral inst (c.extend (c.op.adjusted ((sim.core.regs.read (regAt inst.ops 0) .zero).setWidth c.bits)
      (activeIn vl l [sim.core.regs.pBits (regAt inst.ops 1)]).card)) := by
  have lane := h.counted scalar
  have count : Semantics.operandCount vl inst.ops sim.core.regs 1 =
      (activeIn vl l [sim.core.regs.pBits (regAt inst.ops 1)]).card := by
    rw [← length_activeLanes, ← lane]
    rfl
  rw [← count]
  cases f with
  | countX op =>
    cases scalar
    obtain ⟨wide, code⟩ := h.destination rfl rfl
    refine putsGeneral h.formed code ((h.execute rfl).trans ?_)
    show Semantics.registersOnly sim.core (Semantics.countX vl inst.ops sim.core.regs op) = _
    rw [Semantics.countX, Registers.setGeneral_of_x wide, Registers.general_of_x wide, BitVec.setWidth_eq]
    rfl
  | countW op | countExtended op =>
    cases scalar
    have code : regAt inst.ops 0 < 32 := (h.passes.keepsRegister (i := 0) rfl _ rfl).1
    exact putsGeneral h.formed code (h.execute rfl)
  | _ => cases scalar

/-- `cntp` counts the lanes of its last operand. -/
theorem Accepts.tallied (h : sim.Accepts inst .cntp vl l) : laneAt inst.ops 2 = l :=
  (h.size Sizing.noConfusion (List.mem_cons_of_mem _ List.mem_cons_self)).2

/-- `cntp` writes the number of lanes that are active in both of its predicates. -/
theorem Accepts.putsTally (h : sim.Accepts inst .cntp vl l) :
    sim.PutsGeneral inst (BitVec.ofNat 64
      (activeIn vl l [sim.core.regs.pBits (regAt inst.ops 1), sim.core.regs.pBits (regAt inst.ops 2)]).card) := by
  have lane := h.tallied
  obtain ⟨wide, code⟩ := h.destination rfl rfl
  refine putsGeneral h.formed code ((h.execute rfl).trans ?_)
  show Semantics.registersOnly sim.core (Semantics.cntp vl inst.ops sim.core.regs) = _
  rw [Semantics.cntp, Registers.setGeneral_of_x wide, lane, length_governedLanes]
  rfl

/-- What the vector form leaves. -/
theorem Accepts.putsCounts {op : CountOp} (h : sim.Accepts inst (.countZ op) vl l) :
    sim.PutsLanes inst vl l fun i => op.adjusted (sim.core.regs.zLane (regAt inst.ops 0) l.bits i)
      (activeIn vl l [sim.core.regs.pBits (regAt inst.ops 1)]).card := by
  have lane : laneAt inst.ops 0 = l := (h.size Sizing.noConfusion List.mem_cons_self).2
  have code : regAt inst.ops 0 < 32 := (h.passes.keepsRegister (i := 0) rfl _ rfl).1
  refine h.putsLanes code ((h.execute rfl).trans ?_)
  show Semantics.registersOnly sim.core (Semantics.countZ vl inst.ops sim.core.regs op) = _
  subst lane
  rw [← length_activeLanes]
  rfl

/-- **Counts are exact**, at every vector length and lane size and whatever the predicates hold.
    `cntp` writes the number of the lanes that are active in both predicates. The forms on one general register leave the one
    exact result in it, of the whole register or of its lower half extended to it; code 31 reads zero and is not written. The
    vector form leaves it in every lane, and keeps what is above the lanes. The result is also what 64-bit words give. -/
theorem execute_counts (sim : Simulator) :
    (∀ inst vl l, sim.Accepts inst .cntp vl l → laneAt inst.ops 2 = l ∧ ∃ v : BitVec 64,
      v.toNat = (activeIn vl l [sim.core.regs.pBits (regAt inst.ops 1), sim.core.regs.pBits (regAt inst.ops 2)]).card ∧
        sim.PutsGeneral inst v) ∧
    (∀ inst f c vl l, f.scalarCount? = some c → sim.Accepts inst f vl l →
      let count := (activeIn vl l [sim.core.regs.pBits (regAt inst.ops 1)]).card
      let old := (sim.core.regs.read (regAt inst.ops 0) .zero).setWidth c.bits
      laneAt inst.ops 1 = l ∧ (regAt inst.ops 0 = 31 → old = 0) ∧ ∃ r : BitVec c.bits,
        (∀ r', c.op.Exact old count r' ↔ r' = r) ∧
        r = (c.op.onWords c.bits (old.setWidth 64) (BitVec.ofNat 64 count)).setWidth c.bits ∧
        sim.PutsGeneral inst (c.extend r)) ∧
    ∀ inst op vl l, sim.Accepts inst (.countZ op) vl l →
      let count := (activeIn vl l [sim.core.regs.pBits (regAt inst.ops 1)]).card
      let old := sim.core.regs.zLane (regAt inst.ops 0) l.bits
      laneAt inst.ops 0 = l ∧ ∃ value : Nat → BitVec l.bits,
        (∀ i, ∀ r', op.Exact (old i) count r' ↔ r' = value i) ∧
        (∀ i, value i = (op.onWords l.bits ((old i).setWidth 64) (BitVec.ofNat 64 count)).setWidth l.bits) ∧
        sim.PutsLanes inst vl l value := by
  -- every result is stated as the only exact one
  have only : ∀ {n} (_ : 0 < n) (op : CountOp) (v : BitVec n) count r', op.Exact v count r' ↔ r' = op.adjusted v count := by
    intro n positive op v count r'
    have exact := op.adjusted_exact positive v count
    exact ⟨fun other => other.unique exact, fun same => same ▸ exact⟩
  refine ⟨?_, ?_, ?_⟩
  · intro inst vl l h
    refine ⟨h.tallied, _, ?_, h.putsTally⟩
    exact Nat.mod_eq_of_lt (Nat.lt_of_le_of_lt (card_activeIn_le _ _ _) (by decide))
  · intro inst f c vl l scalar h count old
    obtain ⟨wide, narrow⟩ := Form.bits_of_scalarCount scalar
    have small : count ≤ 256 := card_activeIn_le _ _ _
    have room : 256 < twoPow c.bits := Nat.lt_of_lt_of_le (by decide) (twoPow_le wide)
    refine ⟨h.counted scalar, fun last => ?_, _, only (by omega) c.op old count,
      (c.op.onWords_eq (by omega) narrow old small (by omega)).symm, h.putsCount scalar⟩
    show (sim.core.regs.read _ _).setWidth _ = 0
    rw [last]
    exact BitVec.setWidth_zero _ _
  · intro inst op vl l h count old
    obtain ⟨allowed, lane⟩ := h.size Sizing.noConfusion List.mem_cons_self
    have wide : 16 ≤ l.bits ∧ l.bits ≤ 64 := by
      have table : ∀ l ∈ (Form.countZ op).lanes, 16 ≤ l.bits ∧ l.bits ≤ 64 := by cases op <;> decide
      exact table l allowed
    have small : count ≤ 256 := card_activeIn_le _ _ _
    have room : 256 < twoPow l.bits := Nat.lt_of_lt_of_le (by decide) (twoPow_le wide.1)
    exact ⟨lane, _, fun i => only l.bits_pos op (old i) count,
      fun i => (op.onWords_eq l.bits_pos wide.2 (old i) small (by omega)).symm, h.putsCounts⟩

/-- Two halfword lanes are active in `p1`, and one of them in `p0` as well. A word that is next to the greatest one is brought
    into range, below zeros that are its sign; a halfword lane that is one goes down to zero. -/
theorem execute_counts_corners :
    let regs : Registers := (((Registers.zero (VectorLength.ofBits? 256)).setP 0 0xc).setP 1 0x5).setZLane 3 16 0 1
    let sim : Simulator := ⟨⟨256, 1, 0, false⟩, ⟨regs.write 2 0xffffffff7ffffffe .zero, .empty⟩, 0, false, none⟩
    let count : Instruction := ⟨some .cntp, .al, [.ofX ⟨5, .x⟩, .ofP ⟨0, none, none⟩, .ofP ⟨1, some .h, none⟩]⟩
    let up : Instruction := ⟨some (.countExtended .sqincp), .al, [.ofX ⟨2, .x⟩, .ofP ⟨1, some .h, none⟩, .ofX ⟨2, .w⟩]⟩
    let down : Instruction := ⟨some (.countZ .uqdecp), .al, [.ofZ ⟨3, some .h⟩, .ofP ⟨1, none, none⟩]⟩
    ((sim.execute count).sim.core.regs.read 5 .zero).toNat = 1 ∧
      (sim.execute up).sim.core.regs.read 2 .zero = 0x7fffffff ∧ (sim.execute down).sim.core.regs.zLane 3 16 0 = 0 := by
  intro regs sim count up down
  have configured : sim.core.regs.vl = some ⟨256, rfl⟩ := rfl
  have governing : sim.core.regs.pBits 0 = 0xc := by decide
  have counted : sim.core.regs.pBits 1 = 0x5 := by decide
  have word : (sim.core.regs.read 2 .zero).setWidth 32 = 0x7ffffffe := by decide
  have element : sim.core.regs.zLane 3 16 0 = 1 := by
    show lane 16 (Registers.zBits (Registers.setZ _ 3 _) 3) 0 = 1
    rw [Registers.zBits_setZ, if_pos ⟨rfl, by decide⟩]
    exact lane_setLane_self _ _ _ (by decide)
  clear_value sim
  have both : (activeIn ⟨256, rfl⟩ .h [0xc, 0x5]).card = 1 := (length_governedLanes _ _ _ _).symm.trans (by decide)
  have two : (activeIn ⟨256, rfl⟩ .h [0x5]).card = 2 := (length_activeLanes _ _ _).symm.trans (by decide)
  refine ⟨?_, ?_, ?_⟩
  · obtain ⟨-, v, number, puts⟩ := (execute_counts sim).1 count _ .h ⟨⟨_, rfl⟩, rfl, rfl, configured⟩
    have number : v.toNat = (activeIn _ .h [sim.core.regs.pBits 0, sim.core.regs.pBits 1]).card := number
    rw [governing, counted, both] at number
    rw [← number]
    exact congrArg BitVec.toNat (puts.result (by decide))
  · obtain ⟨-, -, r, exact, -, puts⟩ :=
      (execute_counts sim).2.1 up (.countExtended .sqincp) _ _ .h rfl ⟨⟨_, rfl⟩, rfl, rfl, configured⟩
    have exact : ∀ r' : BitVec 32, CountOp.sqincp.Exact ((sim.core.regs.read 2 .zero).setWidth 32)
      (activeIn _ .h [sim.core.regs.pBits 1]).card r' ↔ r' = r := exact
    rw [counted, two, word] at exact
    have greatest : 0x7fffffff = r := (exact _).mp (by unfold CountOp.Exact; decide)
    have left := puts.result (by decide)
    rw [← greatest] at left
    exact left
  · obtain ⟨-, value, exact, -, puts⟩ := (execute_counts sim).2.2 down .uqdecp _ .h ⟨⟨_, rfl⟩, rfl, rfl, configured⟩
    have exact : ∀ r', CountOp.uqdecp.Exact (sim.core.regs.zLane 3 16 0) (activeIn _ .h [sim.core.regs.pBits 1]).card r' ↔
        r' = value 0 := exact 0
    rw [counted, two, element] at exact
    have least : 0 = value 0 := (exact _).mp (by unfold CountOp.Exact; decide)
    exact (puts.lanes 0 (by decide)).trans least.symm

end Simulator

end ArmToolkit.A64
