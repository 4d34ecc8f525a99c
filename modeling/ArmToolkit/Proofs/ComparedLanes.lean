import ArmToolkit.Proofs.TestedPredicates
import ArmToolkit.Proofs.WideImmediate

/-!
# `Proofs.ComparedLanes` — compares by any relation, with a vector or an immediate of any value

Two vectors are compared by six relations. For the other four the macro swaps the two. An immediate is part of the
instruction if it is in the range of the relation, which is signed for some and unsigned for the others. The macro puts all
other immediates into a scratch vector.

## Contents
- **Relations.** Swapped relations (`Relation.holds_swapped`), and the form of each with an immediate.
- **Compares.** `Core.Compares`: the lanes that a compare sets, and its flags.
- **Instructions.** What compares of two vectors and with an immediate leave.
- **The macros.** What their words leave (`Assembler.compare_emits`, `Assembler.compareImmediate_emits`), and both as one
  statement (`Assembler.compare_computes`).
-/

namespace ArmToolkit.A64

/-! ## Relations -/

namespace Relation

variable {rel rel' : Relation} {n : Nat}

/-- **The swapped relation** holds of the swapped elements. -/
theorem holds_swapped (h : rel.swapped? = some rel') (x y : BitVec n) : rel'.holds y x = rel.holds x y := by
  cases rel with
  | lt | le | lo | ls =>
    cases h
    rfl
  | _ => cases h

/-- The swapped relation is one of those that two vectors can be compared by. -/
theorem exists_vector_swapped (h : rel.swapped? = some rel') : ∃ v : VectorRelation, v.rel = rel' := by
  cases rel with
  | lt =>
    cases h
    exact ⟨.gt, rfl⟩
  | le =>
    cases h
    exact ⟨.ge, rfl⟩
  | lo =>
    cases h
    exact ⟨.hi, rfl⟩
  | ls =>
    cases h
    exact ⟨.hs, rfl⟩
  | _ => cases h

/-- A relation that is not swapped is one of those that two vectors can be compared by. -/
theorem exists_vector (h : rel.swapped? = none) : ∃ v : VectorRelation, v.rel = rel := by
  cases rel with
  | eq => exact ⟨.eq, rfl⟩
  | ne => exact ⟨.ne, rfl⟩
  | gt => exact ⟨.gt, rfl⟩
  | ge => exact ⟨.ge, rfl⟩
  | hi => exact ⟨.hi, rfl⟩
  | hs => exact ⟨.hs, rfl⟩
  | _ => cases h

/-- **The compare with an immediate**: relations of unsigned numbers take unsigned immediates, and the others signed ones. -/
def immediateForm : Relation → Form
  | eq => .compareSigned .eq
  | ne => .compareSigned .ne
  | gt => .compareSigned .gt
  | ge => .compareSigned .ge
  | lt => .compareSigned .lt
  | le => .compareSigned .le
  | hi => .compareUnsigned .hi
  | hs => .compareUnsigned .hs
  | lo => .compareUnsigned .lo
  | ls => .compareUnsigned .ls

end Relation

/-! ## Compares -/

/-- **What a compare leaves**: the lowest bit of every governed lane in which the relation holds, and no other bit; flags that
    describe the result seen through the governing predicate; and all other predicates as they were. -/
structure Core.Compares (rel : Relation) (l : LaneSize) (pd pg : Nat) (x y : Nat → BitVec l.bits) (vl : VectorLength)
    (core after : Core) : Prop where
  bits : ∀ j, (after.regs.pBits pd).getLsbD j = true ↔
    ∃ i, Governed l.bytes (vl.lanes l) (core.regs.pBits pg) i ∧ rel.holds (x i) (y i) = true ∧ j = i * l.bytes
  flags : Describes after.regs.flags l.bytes (vl.lanes l) (core.regs.pBits pg) (after.regs.pBits pd)
  kept : ∀ p, p ≠ pd → after.regs.pBits p = core.regs.pBits p

namespace Core.Compares

variable {rel : Relation} {l : LaneSize} {pd pg : Nat} {x y : Nat → BitVec l.bits} {vl : VectorLength} {core mid after : Core}

/-- The lanes of a compare that is executed. -/
theorem of_tests (tests : Core.Tests vl l core after pd (core.regs.pBits pg) (predicateOf l.bytes (vl.lanes l) fun i =>
      activeLane l.bytes (core.regs.pBits pg) i && rel.holds (x i) (y i))) :
    Compares rel l pd pg x y vl core after where
  bits j := by
    rw [tests.written, getLsbD_predicateOf l.bytes_pos (vl.lanes_mul_bytes_le l)]
    simp only [Bool.and_eq_true, Governed]
    constructor
    · rintro ⟨i, hi, place, active, holds⟩
      exact ⟨i, ⟨hi, active⟩, holds, place⟩
    · rintro ⟨i, ⟨hi, active⟩, holds, place⟩
      exact ⟨i, hi, place, active, holds⟩
  flags := by
    rw [tests.written]
    exact tests.flags
  kept := tests.kept

/-- The relation is swapped with the elements. -/
theorem swapped {rel' : Relation} (h : rel.swapped? = some rel') (compares : Compares rel' l pd pg y x vl core after) :
    Compares rel l pd pg x y vl core after where
  bits := by
    simp only [← Relation.holds_swapped h]
    exact compares.bits
  flags := compares.flags
  kept := compares.kept

/-- **A compare with a vector that has been filled before.** -/
theorem of_sets {zn tmp : Nat} {value : Nat → BitVec l.bits} (apart : zn ≠ tmp) (filled : Core.Sets vl l core mid tmp value)
    (compares : Compares rel l pd pg (mid.regs.zLane zn l.bits) (mid.regs.zLane tmp l.bits) vl mid after) :
    Compares rel l pd pg (core.regs.zLane zn l.bits) value vl core after where
  bits j := by
    rw [compares.bits j, filled.predicate]
    refine exists_congr fun i => and_congr_right fun governed => ?_
    rw [filled.kept zn apart i governed.1, filled.written i governed.1]
  flags := by
    rw [← filled.predicate pg]
    exact compares.flags
  kept p other := (compares.kept p other).trans (filled.predicate p)

end Core.Compares

/-! ## Instructions -/

namespace Assembler

variable {a : Assembler} {l : LaneSize} {pd pg zn zm : Nat}

/-- The operands of a compare with an operand. -/
def compareOps (l : LaneSize) (pd pg zn : Nat) (op : Operand) : List Operand :=
  [.ofP ⟨pd, some l, none⟩, .ofP ⟨pg, none, some .zeroing⟩, .ofZ ⟨zn, some l⟩, op]

theorem compareOps_plain {op : Operand} (hpd : pd < 16) (hpg : pg < Form.governingCount) (hzn : zn < 32) (plain : op.IsPlain) :
    ∀ op' ∈ compareOps l pd pg zn op, op'.IsPlain := by
  simp only [compareOps, List.forall_mem_cons]
  exact ⟨.register (.predicate _ hpd), .register (isRegister_governing hpg), .register (.vector _ hzn), plain,
    List.forall_mem_nil _⟩

/-- **Two vectors are compared** by one of the relations that there are for vectors. -/
theorem vectorCompare_emits (allowed : l ∈ Form.bhsd) (hpd : pd < 16) (hpg : pg < Form.governingCount) (hzn : zn < 32)
    (hzm : zm < 32) (v : VectorRelation) :
    a.Emits (a.emit v.rel.mnemonic (compareOps l pd pg zn (.ofZ ⟨zm, some l⟩))) fun vl core after =>
      Core.Compares v.rel l pd pg (core.regs.zLane zn l.bits) (core.regs.zLane zm l.bits) vl core after := by
  have plain := compareOps_plain (l := l) hpd hpg hzn (.register (.vector ⟨zm, some l⟩ hzm))
  have encodes : Instruction.Encodes (.compare v) .al (compareOps l pd pg zn (.ofZ ⟨zm, some l⟩)) := by
    refine .of_plain rfl plain ?_
    simp only [Form.checks, List.forall_mem_cons]
    exact ⟨⟨l, allowed, rfl⟩, rfl, hpg, rfl, List.forall_mem_nil _⟩
  have emitted := word_emits (a := a)
    (fun vl r => Semantics.compareVectors vl (compareOps l pd pg zn (.ofZ ⟨zm, some l⟩)) r v.rel) encodes plain
    (fun _ _ _ => rfl) (fun _ _ => rfl) fun _ _ => rfl
  rw [← emit_of_encodes encodes] at emitted
  refine emitted.mono fun vl core after done => ?_
  obtain ⟨pc, rfl⟩ := done
  exact .of_tests (Core.tests_setTested hpd _ _ pc)

/-- **A word that was found for a compare with an immediate** compares with the immediate cut to the lane. -/
theorem triedCompare_emits {rel : Relation} {imm : BitVec 64} {w : Word} (hpd : pd < 16) (hpg : pg < Form.governingCount)
    (hzn : zn < 32) (found : tryEncode? rel.mnemonic (compareOps l pd pg zn (.ofImm imm)) = some w) :
    a.Emits (a.dc32 w) fun vl core after =>
      Core.Compares rel l pd pg (core.regs.zLane zn l.bits) (fun _ => imm.setWidth l.bits) vl core after := by
  have plain := compareOps_plain (l := l) hpd hpg hzn (.immediate imm 0)
  have mnemonic : rel.immediateForm.mnemonic = rel.mnemonic := by cases rel <;> rfl
  have accepted : rel.immediateForm.accepts (compareOps l pd pg zn (.ofImm imm)) = true := by cases rel <;> rfl
  have executed : ∀ vl core, Semantics.executeVector rel.immediateForm vl (compareOps l pd pg zn (.ofImm imm)) core =
      Semantics.registersOnly core (Semantics.compareImmediate vl (compareOps l pd pg zn (.ofImm imm)) core.regs rel) := by
    intro vl core
    cases rel <;> rfl
  obtain ⟨encodes, rfl⟩ := tryEncode?_eq_some accepted (mnemonic ▸ found)
  rw [dc32_eq_append]
  have emitted := word_emits (a := a)
    (fun vl r => Semantics.compareImmediate vl (compareOps l pd pg zn (.ofImm imm)) r rel) encodes plain
    (fun _ _ _ => by cases rel <;> rfl) executed fun _ _ => rfl
  refine emitted.mono fun vl core after done => ?_
  obtain ⟨pc, rfl⟩ := done
  exact .of_tests (Core.tests_setTested hpd _ _ pc)

end Assembler

/-! ## The macros -/

/-- **What a vector is compared with**: another vector, or an immediate. -/
inductive Comparand
  | vector (zm : ZReg)
  | immediate (imm : BitVec 64)

namespace Comparand

/-- The macro with its operands. -/
def call (comparand : Comparand) (rel : Relation) (pd pg : PReg) (zn : ZReg) : MacroCall :=
  match comparand with
  | vector zm => .compare rel pd pg zn zm
  | immediate imm => .compareImmediate rel pd pg zn imm

/-- The element that lane `i` is compared with. An immediate is cut to the lane. -/
def element (comparand : Comparand) (l : LaneSize) (r : Registers) (i : Nat) : BitVec l.bits :=
  match comparand with
  | vector zm => r.zLane zm.code l.bits i
  | immediate imm => imm.setWidth l.bits

/-- What is asked of a comparand: a vector exists and is viewed at the lane size, and an immediate is any number where there are
    scratch registers that it can be put into. The vector that is compared is none of these. -/
def Fits (comparand : Comparand) (l : LaneSize) (zn : ZReg) (pools : ScratchPools) : Prop :=
  match comparand with
  | vector zm => zm.lane = some l ∧ zm.code < 32
  | immediate _ =>
    (∃ k < 31, pools.has .general k = true) ∧ (pools.lowest? .vector).isSome = true ∧ pools.has .vector zn.code = false

end Comparand

namespace Assembler

variable {a : Assembler} {rel : Relation} {l : LaneSize} {pd zn zm : Nat} {pg : PReg}

/-- **What the words of a compare of two vectors leave**, by any relation. -/
theorem compare_emits (allowed : l ∈ Form.bhsd) (hpd : pd < 16) (hpg : pg.code < Form.governingCount) (hzn : zn < 32)
    (hzm : zm < 32) :
    a.Emits (a.compare rel ⟨pd, some l, none⟩ pg ⟨zn, some l⟩ ⟨zm, some l⟩) fun vl core after =>
      Core.Compares rel l pd pg.code (core.regs.zLane zn l.bits) (core.regs.zLane zm l.bits) vl core after := by
  unfold compare
  cases swaps : rel.swapped? with
  | some rel' =>
    obtain ⟨v, rfl⟩ := Relation.exists_vector_swapped swaps
    refine (vectorCompare_emits allowed hpd hpg hzm hzn v).mono fun vl core after compares => ?_
    exact compares.swapped swaps
  | none =>
    obtain ⟨v, rfl⟩ := Relation.exists_vector swaps
    exact vectorCompare_emits allowed hpd hpg hzn hzm v

/-- **What the words of a compare with an immediate leave**, whatever its value. -/
theorem compareImmediate_emits (allowed : l ∈ Form.bhsd) (hpd : pd < 16) (hpg : pg.code < Form.governingCount) (hzn : zn < 32)
    (general : ∃ k < 31, a.pools.has .general k = true) (vector : (a.pools.lowest? .vector).isSome = true)
    (unpooled : a.pools.has .vector zn = false) (imm : BitVec 64) :
    a.Emits (a.compareImmediate rel ⟨pd, some l, none⟩ pg ⟨zn, some l⟩ imm) fun vl core after =>
      Core.Compares rel l pd pg.code (core.regs.zLane zn l.bits) (fun _ => imm.setWidth l.bits) vl core after := by
  unfold compareImmediate
  cases found : tryEncode? rel.mnemonic [.ofP ⟨pd, some l, none⟩, .ofP pg.zeroing, .ofZ ⟨zn, some l⟩, .ofImm imm] with
  | some w => exact triedCompare_emits hpd hpg hzn found
  | none =>
    -- the immediate is in no range, and a scratch vector takes its place
    obtain ⟨tmp, taken⟩ := Option.isSome_iff_exists.mp vector
    have htmp := (ScratchPools.lowest?_vector taken).1
    have compares (b : Assembler) (kept : b.pools = a.pools.remove .vector tmp) :
        ({ b with pools := a.pools.remove .vector tmp } : Assembler).Emits
          (b.compare rel ⟨pd, some l, none⟩ pg ⟨zn, some l⟩ ⟨tmp, some l⟩) fun vl core after =>
            Core.Compares rel l pd pg.code (core.regs.zLane zn l.bits) (core.regs.zLane tmp l.bits) vl core after := by
      rw [← kept]
      exact compare_emits allowed hpd hpg hzn htmp
    refine (withVectorImmediate_emits _ allowed general taken compares).mono fun vl core after done => ?_
    obtain ⟨mid, sets, compares⟩ := done
    exact compares.of_sets ((ScratchPools.ne_of_lowest? taken unpooled).symm) sets

/-- **A compare sets the active lanes in which its relation holds**, for all ten relations, with a vector and with an
    immediate of any value. The destination is viewed at the lane size of the vectors and may be the governing predicate,
    which is one of the lowest eight, whatever its qualifier. Nothing of the assembler changes but its code: no error is
    recorded, and the pools are as they were. Executing the words in order, from any state with a vector length, leaves the
    lowest bit of every lane that was active and in the relation and no other bit, and the flags that describe this result
    seen through the governing predicate as it was. No other predicate changes. -/
theorem compare_computes (a : Assembler) (rel : Relation) (comparand : Comparand) (pd pg : PReg) (zn : ZReg)
    (views : pd.lane = some l ∧ pd.qualifier = none ∧ zn.lane = some l) (allowed : l ∈ Form.bhsd)
    (codes : pd.code < 16 ∧ zn.code < 32) (governs : pg.code < Form.governingCount) (fits : comparand.Fits l zn a.pools) :
    ∃ ws : List Word,
      a.expand (comparand.call rel pd pg zn) = { a with code := a.code ++ ws } ∧
      ∀ (sim : Simulator) (vl : VectorLength), sim.core.regs.vl = some vl →
        ∃ after, sim.executeWords? ws = some after ∧
          (∀ bit, (after.core.regs.pBits pd.code).getLsbD bit = true ↔
            ∃ i, Governed l.bytes (vl.lanes l) (sim.core.regs.pBits pg.code) i ∧
              rel.Orders (rel.reading (sim.core.regs.zLane zn.code l.bits i))
                (rel.reading (comparand.element l sim.core.regs i)) ∧ bit = i * l.bytes) ∧
          Describes after.core.regs.flags l.bytes (vl.lanes l) (sim.core.regs.pBits pg.code)
            (after.core.regs.pBits pd.code) ∧
          ∀ p, p ≠ pd.code → after.core.regs.pBits p = sim.core.regs.pBits p := by
  obtain ⟨pd, lane, qualifier⟩ := pd
  obtain ⟨zn, lane'⟩ := zn
  obtain ⟨rfl, rfl, rfl⟩ := views
  -- an immediate is compared like a vector that holds it in every lane
  have emitted : a.Emits (a.expand (comparand.call rel ⟨pd, some l, none⟩ pg ⟨zn, some l⟩)) fun vl core after =>
      Core.Compares rel l pd pg.code (core.regs.zLane zn l.bits) (comparand.element l core.regs) vl core after := by
    cases comparand with
    | vector zm =>
      obtain ⟨zm, lane⟩ := zm
      obtain ⟨rfl, hzm⟩ := fits
      exact compare_emits allowed codes.1 governs codes.2 hzm
    | immediate imm =>
      obtain ⟨general, vector, unpooled⟩ := fits
      exact compareImmediate_emits allowed codes.1 governs codes.2 general vector unpooled imm
  obtain ⟨ws, code, runs⟩ := emitted
  refine ⟨ws, code, ?_⟩
  intro sim vl configured
  obtain ⟨after, run, -, compares⟩ := runs sim vl configured
  refine ⟨after, run, ?_, compares.flags, compares.kept⟩
  intro bit
  simp only [← Relation.holds_iff]
  exact compares.bits bit

/-- Bytes that are below 200 as unsigned numbers: the number is beyond the immediates of the instruction, and the result is
    written over the governing predicate. -/
theorem compare_computes_below :
    let a : Assembler := {}
    let pd : PReg := ⟨3, some .b, none⟩
    let zn : ZReg := ⟨0, some .b⟩
    ∃ ws : List Word,
      a.expand (.compareImmediate .lo pd pd zn 200) = { a with code := a.code ++ ws } ∧
      ∀ (sim : Simulator) (vl : VectorLength), sim.core.regs.vl = some vl →
        ∃ after, sim.executeWords? ws = some after ∧
          ∀ bit, (after.core.regs.pBits 3).getLsbD bit = true ↔
            ∃ i, Governed 1 (vl.lanes .b) (sim.core.regs.pBits 3) i ∧
              ((sim.core.regs.zLane 0 8 i).toNat : Int) < 200 ∧ bit = i * 1 := by
  intro a pd zn
  obtain ⟨ws, emitted, runs⟩ := compare_computes (l := .b) a .lo (.immediate 200) pd pd zn
    ⟨rfl, rfl, rfl⟩ (by decide) (by decide) (by decide) ⟨⟨16, by decide, by decide⟩, by decide, by decide⟩
  refine ⟨ws, emitted, ?_⟩
  intro sim vl configured
  obtain ⟨after, run, bits, -, -⟩ := runs sim vl configured
  exact ⟨after, run, bits⟩

end Assembler

end ArmToolkit.A64
