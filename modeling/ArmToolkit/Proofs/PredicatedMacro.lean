import ArmToolkit.A64.Macro
import ArmToolkit.Proofs.Emitted
import ArmToolkit.Proofs.ScratchPools

/-!
# `Proofs.PredicatedMacro` — predicated operations with any aliasing

A destructive operation overwrites its first source. The macro brings the first source into the destination before, saves
the second one if that would overwrite it, or swaps the two.

## Contents
- **Lanes of a register.** `Core.Sets`: what an instruction leaves when it replaces the lanes of one vector register, and
  `Core.governed`: lanes that a predicate chooses. What is done under a predicate goes behind what chose by it before
  (`Core.Sets.behind`).
- **Instructions.** The three instructions of the macro are encoded, and what each leaves.
- **Operations.** Operations whose sources can be swapped, and operations that do the same with swapped sources.
- **The macro.** What its words leave in the lanes of the destination, for every way that its operands can be aliases
  (`Assembler.predicatedBinary_emits`).
-/

namespace ArmToolkit.A64

/-! ## Lanes of a register -/

namespace Core

/-- **What is left when the lanes of one vector register are replaced**: the new lanes there, the old ones everywhere
    else, and all predicates as they were. -/
structure Sets (vl : VectorLength) (l : LaneSize) (core after : Core) (zd : Nat) (value : Nat → BitVec l.bits) : Prop where
  predicate : ∀ p, after.regs.pBits p = core.regs.pBits p
  written : ∀ i < vl.lanes l, after.regs.zLane zd l.bits i = value i
  kept : ∀ z, z ≠ zd → ∀ i < vl.lanes l, after.regs.zLane z l.bits i = core.regs.zLane z l.bits i

/-- **What is left when the lanes of one vector register are replaced**, and neither a general register nor the vector
    length is written. -/
structure Replaced (vl : VectorLength) (l : LaneSize) (core after : Core) (zd : Nat) (value : Nat → BitVec l.bits) :
    Prop extends Sets vl l core after zd value where
  general : ∀ code c, after.regs.read code c = core.regs.read code c
  length : after.regs.vl = core.regs.vl

/-- **Lanes that a predicate chooses**: the values of a function where it is active, and elsewhere zeros or the lanes of
    the destination. -/
def governed (core : Core) (l : LaneSize) (pg zd : Nat) (zeroing : Bool) (value : Nat → BitVec l.bits) (i : Nat) :
    BitVec l.bits :=
  if activeLane l.bytes (core.regs.pBits pg) i then value i
  else if zeroing then 0
  else core.regs.zLane zd l.bits i

variable {vl : VectorLength} {l : LaneSize} {core mid after : Core} {pg zd zn zm : Nat} {zeroing : Bool}

theorem governed_active {value : Nat → BitVec l.bits} {i : Nat} (h : activeLane l.bytes (core.regs.pBits pg) i = true) :
    core.governed l pg zd zeroing value i = value i := if_pos h

theorem governed_inactive {value : Nat → BitVec l.bits} {i : Nat}
    (h : ¬ activeLane l.bytes (core.regs.pBits pg) i = true) :
    core.governed l pg zd zeroing value i = if zeroing then 0 else core.regs.zLane zd l.bits i := if_neg h

theorem governed_congr {value value' : Nat → BitVec l.bits} (same : ∀ i, value i = value' i) {i : Nat} :
    core.governed l pg zd zeroing value i = core.governed l pg zd zeroing value' i := by
  rw [funext same]

/-- The lanes of one register replaced in all the register file. -/
theorem sets_onAll (hzd : zd < 32) (f : Nat → BitVec l.bits) (pc : BitVec 64) :
    Sets vl l core { core with regs := { Semantics.onAll vl core.regs l zd f with pc } } zd f where
  predicate _ := rfl
  written _ hi := (Semantics.zLane_onAll vl core.regs hzd f zd hi).trans (if_pos rfl)
  kept z other _ hi := (Semantics.zLane_onAll vl core.regs hzd f z hi).trans (if_neg other)

/-- General registers and the vector length are as they were. -/
theorem replaced_onAll (hzd : zd < 32) (f : Nat → BitVec l.bits) (pc : BitVec 64) :
    Replaced vl l core { core with regs := { Semantics.onAll vl core.regs l zd f with pc } } zd f :=
  ⟨sets_onAll hzd f pc, fun _ _ => rfl, rfl⟩

/-- **Active lanes that are replaced behind what chose between them and the others.** In the other lanes the first choice
    stays. -/
theorem Sets.behind {value value' value'' : Nat → BitVec l.bits}
    (first : Sets vl l core mid zd (core.governed l pg zd zeroing value))
    (second : Sets vl l mid after zd (mid.governed l pg zd false value'))
    (same : ∀ i < vl.lanes l, activeLane l.bytes (core.regs.pBits pg) i = true → value' i = value'' i) :
    Sets vl l core after zd (core.governed l pg zd zeroing value'') where
  predicate p := (second.predicate p).trans (first.predicate p)
  written i hi := by
    rw [second.written i hi]
    by_cases active : activeLane l.bytes (core.regs.pBits pg) i = true
    · have still : activeLane l.bytes (mid.regs.pBits pg) i = true := by rw [first.predicate, active]
      rw [governed_active still, governed_active active, same i hi active]
    · have still : ¬ activeLane l.bytes (mid.regs.pBits pg) i = true := by rwa [first.predicate]
      rw [governed_inactive still, governed_inactive active, if_neg Bool.false_ne_true, first.written i hi,
        governed_inactive active]
  kept z other i hi := (second.kept z other i hi).trans (first.kept z other i hi)

/-- **An operation on the destination, after the first source has been brought there.** The second source is another
    register, or the first source has been there before. -/
theorem Sets.operation {apply : BitVec l.bits → BitVec l.bits → BitVec l.bits} (apart : zm ≠ zd ∨ zn = zd)
    (brought : Sets vl l core mid zd (core.governed l pg zd zeroing (core.regs.zLane zn l.bits)))
    (operated : Sets vl l mid after zd
      (mid.governed l pg zd false fun i => apply (mid.regs.zLane zd l.bits i) (mid.regs.zLane zm l.bits i)))
    {i : Nat} (hi : i < vl.lanes l) :
    after.regs.zLane zd l.bits i =
      core.governed l pg zd zeroing (fun i => apply (core.regs.zLane zn l.bits i) (core.regs.zLane zm l.bits i)) i := by
  refine (brought.behind operated fun i hi active => ?_).written i hi
  have first := brought.written i hi
  rw [governed_active active] at first
  -- a second source that is the destination has got its own value
  have second : mid.regs.zLane zm l.bits i = core.regs.zLane zm l.bits i := by
    by_cases same : zm = zd
    · rw [same, first, apart.resolve_left (not_not_intro same)]
    · exact brought.kept zm same i hi
  rw [first, second]

end Core

/-! ## Instructions -/

namespace Assembler

/-- The operands of an operation, whose first source is the destination. -/
def operationOps (l : LaneSize) (zd pg zm : Nat) : List Operand :=
  [.ofZ ⟨zd, some l⟩, .ofP ⟨pg, none, some .merging⟩, .ofZ ⟨zd, some l⟩, .ofZ ⟨zm, some l⟩]

/-- The operands of a copy of active lanes. -/
def copyOps (l : LaneSize) (q : Qualifier) (zd pg zn : Nat) : List Operand :=
  [.ofZ ⟨zd, some l⟩, .ofP ⟨pg, none, some q⟩, .ofZ ⟨zn, some l⟩]

/-- The operands of a copy of all bits. -/
def moveOps (zd zn : Nat) : List Operand := [.ofZ ⟨zd, some .d⟩, .ofZ ⟨zn, some .d⟩, .ofZ ⟨zn, some .d⟩]

variable {a : Assembler} {l : LaneSize} {zd zn zm : Nat} {pg : Nat}

/-- A governing predicate exists. -/
theorem isRegister_governing {q : Option Qualifier} (hpg : pg < Form.governingCount) :
    (Operand.ofP ⟨pg, none, q⟩).IsRegister := .predicate _ (Nat.lt_of_lt_of_le hpg (by decide))

/-- **The operation** replaces the active lanes of its first source, which is the destination. -/
theorem predicated_emits {op : PredicatedOp} (allowed : l ∈ (Form.predicated op).lanes) (hzd : zd < 32)
    (hpg : pg < Form.governingCount) (hzm : zm < 32) :
    a.Emits (a.predicated op ⟨zd, some l⟩ ⟨pg, none, some .merging⟩ ⟨zd, some l⟩ ⟨zm, some l⟩) fun vl core after =>
      Core.Sets vl l core after zd (core.governed l pg zd false fun i =>
        op.op.apply (core.regs.zLane zd l.bits i) (core.regs.zLane zm l.bits i)) := by
  have registers : ∀ op ∈ operationOps l zd pg zm, op.IsRegister := by
    simp only [operationOps, List.forall_mem_cons]
    exact ⟨.vector _ hzd, isRegister_governing hpg, .vector _ hzd, .vector _ hzm, List.forall_mem_nil _⟩
  have checks : ∀ c ∈ (Form.predicated op).checks, c.Passes (.predicated op) (operationOps l zd pg zm) := by
    simp only [Form.checks, List.forall_mem_cons]
    exact ⟨⟨l, allowed, rfl⟩, hpg, rfl, rfl, rfl, List.forall_mem_nil _⟩
  have emitted := emit_registers (a := a) (fun vl r => Semantics.predicated vl (operationOps l zd pg zm) r op.op) rfl
    registers checks (fun _ _ _ => rfl) (fun _ _ => rfl) fun _ _ => rfl
  refine emitted.mono fun vl core after done => ?_
  obtain ⟨pc, rfl⟩ := done
  exact Core.sets_onAll hzd _ pc

/-- **The copy in front** brings the active lanes of a vector to the destination, and zeroes the others or keeps them. -/
theorem copyActive_replaces {q : Qualifier} (allowed : l ∈ Form.bhsd) (hzd : zd < 32) (hpg : pg < Form.governingCount)
    (hzn : zn < 32) :
    a.Emits (a.copyActive ⟨zd, some l⟩ ⟨pg, none, some q⟩ ⟨zn, some l⟩) fun vl core after =>
      Core.Replaced vl l core after zd (core.governed l pg zd (q == .zeroing) (core.regs.zLane zn l.bits)) := by
  have registers : ∀ op ∈ copyOps l q zd pg zn, op.IsRegister := by
    simp only [copyOps, List.forall_mem_cons]
    exact ⟨.vector _ hzd, isRegister_governing hpg, .vector _ hzn, List.forall_mem_nil _⟩
  have checks : ∀ c ∈ Form.movprfxPredicated.checks, c.Passes .movprfxPredicated (copyOps l q zd pg zn) := by
    simp only [Form.checks, List.forall_mem_cons]
    exact ⟨⟨l, allowed, rfl⟩, hpg, rfl, List.forall_mem_nil _⟩
  have emitted := emit_registers (a := a) (fun vl r => Semantics.movprfxPredicated vl (copyOps l q zd pg zn) r) rfl
    registers checks (fun _ _ _ => rfl) (fun _ _ => rfl) fun _ _ => rfl
  refine emitted.mono fun vl core after done => ?_
  obtain ⟨pc, rfl⟩ := done
  cases q with
  | zeroing | merging => exact Core.replaced_onAll hzd _ pc

/-- Copying the active lanes puts the governed lanes into the destination. -/
theorem copyActive_emits {q : Qualifier} (allowed : l ∈ Form.bhsd) (hzd : zd < 32) (hpg : pg < Form.governingCount)
    (hzn : zn < 32) :
    a.Emits (a.copyActive ⟨zd, some l⟩ ⟨pg, none, some q⟩ ⟨zn, some l⟩) fun vl core after =>
      Core.Sets vl l core after zd (core.governed l pg zd (q == .zeroing) (core.regs.zLane zn l.bits)) :=
  (copyActive_replaces allowed hzd hpg hzn).mono fun _ _ _ replaced => replaced.toSets

/-- **The copy of a whole vector** has its lanes, at every size. -/
theorem moveVector_emits (apart : zd ≠ zn) (hzd : zd < 32) (hzn : zn < 32) (l : LaneSize) (lane : Option LaneSize) :
    a.Emits (a.moveVector ⟨zd, none⟩ ⟨zn, lane⟩) fun vl core after =>
      Core.Sets vl l core after zd (core.regs.zLane zn l.bits) := by
  have registers : ∀ op ∈ moveOps zd zn, op.IsRegister := by
    simp only [moveOps, List.forall_mem_cons]
    exact ⟨.vector _ hzd, .vector _ hzn, .vector _ hzn, List.forall_mem_nil _⟩
  have checks : ∀ c ∈ (Form.bitwise .orr).checks, c.Passes (.bitwise .orr) (moveOps zd zn) := by
    simp only [Form.checks, List.forall_mem_cons]
    exact ⟨⟨.d, List.mem_singleton_self _, rfl⟩, rfl, rfl, List.forall_mem_nil _⟩
  have writes : ∀ vl core, Semantics.executeVector (.bitwise .orr) vl (moveOps zd zn) core =
      Semantics.registersOnly core (Semantics.onAll vl core.regs l zd (core.regs.zLane zn l.bits)) := fun vl core =>
    congrArg (Semantics.registersOnly core) (Semantics.onAll_copy vl core.regs (fun _ => BitVec.or_self) l)
  have emitted := emit_registers (a := a) (fun vl r => Semantics.onAll vl r l zd (r.zLane zn l.bits)) rfl registers
    checks (fun _ _ _ => rfl) writes fun _ _ => rfl
  rw [moveVector, if_neg apart]
  refine emitted.mono fun vl core after done => ?_
  obtain ⟨pc, rfl⟩ := done
  exact Core.sets_onAll hzd _ pc

end Assembler

/-! ## Operations -/

namespace PredicatedOp

variable {op rev : PredicatedOp} {n : Nat}

/-- **Sources that can be swapped** give the same result. -/
theorem apply_comm (h : op.commutes = true) (x y : BitVec n) : op.op.apply x y = op.op.apply y x := by
  -- of two numbers the greater is chosen, and equal numbers are equal elements
  cases op with
  | add => exact BitVec.add_comm x y
  | mul => exact BitVec.mul_comm x y
  | and => exact BitVec.and_comm x y
  | orr => exact BitVec.or_comm x y
  | eor => exact BitVec.xor_comm x y
  | smax =>
    show (if x.toInt < y.toInt then y else x) = if y.toInt < x.toInt then x else y
    rcases Int.lt_trichotomy x.toInt y.toInt with less | equal | greater
    · rw [if_pos less, if_neg (by omega)]
    · rw [BitVec.eq_of_toInt_eq equal]
    · rw [if_neg (by omega), if_pos greater]
  | smin =>
    show (if y.toInt < x.toInt then y else x) = if x.toInt < y.toInt then x else y
    rcases Int.lt_trichotomy x.toInt y.toInt with less | equal | greater
    · rw [if_neg (by omega), if_pos less]
    · rw [BitVec.eq_of_toInt_eq equal]
    · rw [if_pos greater, if_neg (by omega)]
  | umax =>
    show (if x.toNat < y.toNat then y else x) = if y.toNat < x.toNat then x else y
    rcases Nat.lt_trichotomy x.toNat y.toNat with less | equal | greater
    · rw [if_pos less, if_neg (by omega)]
    · rw [BitVec.eq_of_toNat_eq equal]
    · rw [if_neg (by omega), if_pos greater]
  | umin =>
    show (if y.toNat < x.toNat then y else x) = if x.toNat < y.toNat then x else y
    rcases Nat.lt_trichotomy x.toNat y.toNat with less | equal | greater
    · rw [if_neg (by omega), if_pos less]
    · rw [BitVec.eq_of_toNat_eq equal]
    · rw [if_pos greater, if_neg (by omega)]
  | sub | subr | sdiv | udiv | sdivr | udivr | bic => cases h

/-- **The operation with swapped sources** gives the same result where the sources are swapped. -/
theorem apply_reversed (h : op.reversed? = some rev) (x y : BitVec n) : rev.op.apply x y = op.op.apply y x := by
  cases op with
  | sub | sdiv | udiv =>
    cases h
    rfl
  | _ => cases h

/-- The operation with swapped sources has the same lane sizes. -/
theorem lanes_reversed (h : op.reversed? = some rev) : (Form.predicated rev).lanes = (Form.predicated op).lanes := by
  cases op with
  | sub | sdiv | udiv =>
    cases h
    rfl
  | _ => cases h

/-- The lane sizes of an operation are ones that lanes can be copied at. -/
theorem lanes_bhsd {l : LaneSize} (h : l ∈ (Form.predicated op).lanes) : l ∈ Form.bhsd := by
  cases op with
  | sdiv | udiv | sdivr | udivr => exact List.mem_cons_of_mem _ (List.mem_cons_of_mem _ h)
  | _ => exact h

end PredicatedOp

/-! ## The macro -/

namespace Assembler

variable {a b : Assembler} {op : PredicatedOp} {l : LaneSize} {zd zn zm : Nat} {pg : PReg}

/-- The first source is in the destination already, and the other lanes are zeroed if the predicate zeroes. -/
theorem zeroInactive_replaces (allowed : l ∈ Form.bhsd) (hzd : zd < 32) (hpg : pg.code < Form.governingCount) :
    a.Emits (a.zeroInactive ⟨zd, some l⟩ pg) fun vl core after =>
      Core.Replaced vl l core after zd (core.governed l pg.code zd pg.isZeroing (core.regs.zLane zd l.bits)) := by
  unfold zeroInactive
  cases zeroing : pg.isZeroing with
  | true => exact copyActive_replaces (q := .zeroing) allowed hzd hpg hzd
  | false =>
    refine (Emits.nothing a).mono fun vl core after same => ?_
    subst same
    exact ⟨⟨fun _ => rfl, fun i _ => (ite_self _).symm, fun _ _ _ _ => rfl⟩, fun _ _ => rfl, rfl⟩

/-- The first source is brought to the destination, and the other lanes are zeroed if the predicate zeroes. -/
theorem copyGoverned_emits (allowed : l ∈ Form.bhsd) (hzd : zd < 32) (hpg : pg.code < Form.governingCount)
    (hzn : zn < 32) :
    a.Emits (a.copyActive ⟨zd, some l⟩ pg.governing ⟨zn, some l⟩) fun vl core after =>
      Core.Sets vl l core after zd (core.governed l pg.code zd pg.isZeroing (core.regs.zLane zn l.bits)) := by
  unfold PReg.governing
  cases zeroing : pg.isZeroing with
  | true => exact copyActive_emits (q := .zeroing) allowed hzd hpg hzn
  | false => exact copyActive_emits (q := .merging) allowed hzd hpg hzn

/-- **The operation behind what brings the first source to the destination.** -/
theorem operation_emits (allowed : l ∈ (Form.predicated op).lanes) (hzd : zd < 32) (hpg : pg.code < Form.governingCount)
    (hzm : zm < 32) (apart : zm ≠ zd ∨ zn = zd)
    (brought : a.Emits b fun vl core mid =>
      Core.Sets vl l core mid zd (core.governed l pg.code zd pg.isZeroing (core.regs.zLane zn l.bits))) :
    a.Emits (b.predicated op ⟨zd, some l⟩ pg.merging ⟨zd, some l⟩ ⟨zm, some l⟩) fun vl core after =>
      ∀ i < vl.lanes l, after.regs.zLane zd l.bits i = core.governed l pg.code zd pg.isZeroing
        (fun i => op.op.apply (core.regs.zLane zn l.bits i) (core.regs.zLane zm l.bits i)) i := by
  refine (brought.trans (predicated_emits allowed hzd hpg hzm)).mono fun vl core after done i hi => ?_
  obtain ⟨mid, first, second⟩ := done
  exact first.operation apart second hi

/-- **The operation whose second source, which is the destination, has been saved before.** -/
theorem saved_emits {tmp : Nat} (allowed : l ∈ (Form.predicated op).lanes) (hzd : zd < 32) (hzn : zn < 32)
    (hpg : pg.code < Form.governingCount) (htmp : tmp < 32) (clear : tmp ≠ zd ∧ tmp ≠ zn) :
    a.Emits (((a.moveVector ⟨tmp, none⟩ ⟨zd, some l⟩).copyActive ⟨zd, some l⟩ pg.governing ⟨zn, some l⟩).predicated op
        ⟨zd, some l⟩ pg.merging ⟨zd, some l⟩ ⟨tmp, some l⟩) fun vl core after =>
      ∀ i < vl.lanes l, after.regs.zLane zd l.bits i = core.governed l pg.code zd pg.isZeroing
        (fun i => op.op.apply (core.regs.zLane zn l.bits i) (core.regs.zLane zd l.bits i)) i := by
  have copied := copyGoverned_emits (a := a.moveVector ⟨tmp, none⟩ ⟨zd, some l⟩) (PredicatedOp.lanes_bhsd allowed) hzd
    hpg hzn
  have operated := operation_emits allowed hzd hpg htmp (.inl clear.1) copied
  refine ((moveVector_emits clear.1 htmp hzd l (some l)).trans operated).mono fun vl core after done i hi => ?_
  obtain ⟨mid, saved, result⟩ := done
  -- saving the destination changes neither it nor the first source, nor the predicate
  rw [result i hi, Core.governed, Core.governed, saved.predicate, saved.written i hi, saved.kept zn clear.2.symm i hi,
    saved.kept zd clear.1.symm i hi]

/-- **What the words of the macro leave in the lanes of the destination.** -/
theorem predicatedBinary_emits (allowed : l ∈ (Form.predicated op).lanes) (hzd : zd < 32) (hzn : zn < 32) (hzm : zm < 32)
    (hpg : pg.code < Form.governingCount) (free : (a.pools.lowest? .vector).isSome = true)
    (unpooled : ∀ z ∈ [zd, zn, zm], a.pools.has .vector z = false) :
    a.Emits (a.predicatedBinary op ⟨zd, some l⟩ pg ⟨zn, some l⟩ ⟨zm, some l⟩) fun vl core after =>
      ∀ i < vl.lanes l, after.regs.zLane zd l.bits i = core.governed l pg.code zd pg.isZeroing
        (fun i => op.op.apply (core.regs.zLane zn l.bits i) (core.regs.zLane zm l.bits i)) i := by
  have lanes := PredicatedOp.lanes_bhsd allowed
  have cleared := (zeroInactive_replaces (a := a) lanes hzd hpg).mono fun _ _ _ replaced => replaced.toSets
  unfold predicatedBinary DestructiveForm.select
  by_cases first : zd = zn
  -- destructive: the destination is the first source
  · rw [if_pos first]
    subst first
    exact operation_emits allowed hzd hpg hzm (.inr rfl) cleared
  · rw [if_neg first]
    by_cases second : zd = zm
    · rw [if_pos second]
      subst second
      by_cases commutes : op.commutes = true
      -- swapped: the destination is the second source
      · rw [if_pos commutes]
        refine (operation_emits allowed hzd hpg hzn (.inr rfl) cleared).mono fun vl core after done i hi => ?_
        rw [done i hi]
        exact Core.governed_congr fun i => PredicatedOp.apply_comm commutes _ _
      · rw [if_neg commutes]
        cases reversed : op.reversed? with
        | some rev =>
          have same := PredicatedOp.lanes_reversed reversed
          refine (operation_emits (same ▸ allowed) hzd hpg hzn (.inr rfl) cleared).mono fun vl core after done i hi => ?_
          rw [done i hi]
          exact Core.governed_congr fun i => PredicatedOp.apply_reversed reversed _ _
        | none =>
          -- the second source is saved in the scratch register, which is none of the operands
          obtain ⟨tmp, lowest⟩ := Option.isSome_iff_exists.mp free
          have clear : ∀ z ∈ [zd, zn, zd], tmp ≠ z := fun z hz => ScratchPools.ne_of_lowest? lowest (unpooled z hz)
          have htmp := (ScratchPools.lowest?_vector lowest).1
          refine Emits.inScope (a.pools.remove .vector tmp) ?_
          unfold withScratch acquire
          rw [lowest]
          exact saved_emits allowed hzd hzn hpg htmp ⟨clear zd (by simp), clear zn (by simp)⟩
    -- prefixed: the destination is neither source
    · rw [if_neg second]
      exact operation_emits allowed hzd hpg hzm (.inl (Ne.symm second)) (copyGoverned_emits lanes hzd hpg hzn)

/-- **A predicated macro computes its operation with any aliasing.** The three vectors exist and are viewed at one lane
    size that the operation has, and may be the same; the predicate is one of the lowest eight, and merges, zeroes or is
    unqualified; there is a vector scratch register, and none of the vectors is in the pool. No error is recorded, and
    executing the emitted words in order, from any state with a vector length, leaves in every active lane of the
    destination the operation of the two sources as they were, and in every other lane zero if the predicate zeroes, or
    else what was there. -/
theorem predicatedBinary_computes {zd zn zm : ZReg} (views : zd.lane = some l ∧ zn.lane = some l ∧ zm.lane = some l)
    (allowed : l ∈ (Form.predicated op).lanes) (codes : zd.code < 32 ∧ zn.code < 32 ∧ zm.code < 32)
    (governs : pg.code < Form.governingCount) (free : (a.pools.lowest? .vector).isSome = true)
    (unpooled : ∀ z ∈ [zd, zn, zm], a.pools.has .vector z.code = false) :
    ∃ ws : List Word,
      (a.predicatedBinary op zd pg zn zm).code = a.code ++ ws ∧ (a.predicatedBinary op zd pg zn zm).errors = a.errors ∧
      ∀ (sim : Simulator) (vl : VectorLength), sim.core.regs.vl = some vl →
        ∃ after, sim.executeWords? ws = some after ∧ ∀ i < vl.lanes l,
          after.core.regs.zLane zd.code l.bits i =
            if activeLane l.bytes (sim.core.regs.pBits pg.code) i then
              op.op.apply (sim.core.regs.zLane zn.code l.bits i) (sim.core.regs.zLane zm.code l.bits i)
            else if pg.isZeroing then 0
            else sim.core.regs.zLane zd.code l.bits i := by
  obtain ⟨zd, lane⟩ := zd
  obtain ⟨zn, lane'⟩ := zn
  obtain ⟨zm, lane''⟩ := zm
  obtain ⟨rfl, rfl, rfl⟩ := views
  obtain ⟨ws, emitted, runs⟩ := predicatedBinary_emits allowed codes.1 codes.2.1 codes.2.2 governs free
    fun z hz => by
      simp only [List.mem_cons, List.not_mem_nil, or_false] at hz
      rcases hz with rfl | rfl | rfl
      · exact unpooled ⟨z, some l⟩ (by simp)
      · exact unpooled ⟨z, some l⟩ (by simp)
      · exact unpooled ⟨z, some l⟩ (by simp)
  refine ⟨ws, by rw [emitted]; rfl, by rw [emitted]; rfl, fun sim vl configured => ?_⟩
  obtain ⟨after, run, -, lanes⟩ := runs sim vl configured
  exact ⟨after, run, lanes⟩

/-- A difference of sets whose second source is the destination: it has to be saved. -/
theorem predicatedBinary_computes_bic :
    let a : Assembler := {}
    let zd : ZReg := ⟨0, some .s⟩
    let zn : ZReg := ⟨1, some .s⟩
    let pg : PReg := ⟨7, none, some .zeroing⟩
    ∃ ws : List Word,
      (a.predicatedBinary .bic zd pg zn zd).code = a.code ++ ws ∧ (a.predicatedBinary .bic zd pg zn zd).errors = a.errors ∧
      ∀ (sim : Simulator) (vl : VectorLength), sim.core.regs.vl = some vl →
        ∃ after, sim.executeWords? ws = some after ∧ ∀ i < vl.lanes .s,
          after.core.regs.zLane 0 32 i =
            if activeLane 4 (sim.core.regs.pBits 7) i then
              ElementOp.bic.apply (sim.core.regs.zLane 1 32 i) (sim.core.regs.zLane 0 32 i)
            else 0 :=
  predicatedBinary_computes (l := .s) ⟨rfl, rfl, rfl⟩ (by decide) (by decide) (by decide) (by decide) (by decide)

end Assembler

end ArmToolkit.A64
