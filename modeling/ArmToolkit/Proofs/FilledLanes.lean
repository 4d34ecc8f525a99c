import ArmToolkit.A64.MacroCall
import ArmToolkit.Proofs.ElementArithmetic
import ArmToolkit.Proofs.LaneWrites

/-!
# `Proofs.FilledLanes` — vectors that are filled with immediates of any value

Four macros put immediates into the lanes of a vector: into all of them, into those that a predicate chooses, into the lowest
one, or as the start and the step of equally spaced lanes. Immediates that no instruction holds go through general scratch
registers. Whichever way is taken, what arrives in a lane is the immediate modulo the lane.

## Contents
- **Instructions.** What copies to active lanes, insertions and index vectors put into the lanes.
- **Active lanes.** Inactive lanes are zeroed in front of the copy, or kept (`Assembler.cpy_emits`).
- **The lowest lane.** `Assembler.insr_emits`.
- **Equally spaced lanes.** A start or step is ready as an operand, in the instruction or in a register
  (`Assembler.IsReady`). The second one does not touch the register of the first (`Assembler.index_emits`).
- **The macros.** `Fill` says what each leaves in terms of exact integers, and `Assembler.fill_computes` proves it.
-/

namespace ArmToolkit.A64

/-! ## Instructions -/

section

variable {l : LaneSize} {zd pg code : Nat} {q : Qualifier}

/-- An immediate is copied to the active lanes, and the others are zeroed or kept. -/
theorem cpyImm_replaces (hzd : zd < 32) (hpg : pg < 16) (v : BitVec 64) (s : Nat) :
    ReplacesLanes .cpyImm [.ofZ ⟨zd, some l⟩, .ofP ⟨pg, none, some q⟩, .shiftedImm v s] l zd fun r i =>
      if activeLane l.bytes (r.pBits pg) i then (v <<< s).setWidth l.bits
      else if q == .zeroing then 0
      else r.zLane zd l.bits i where
  accepted := by cases q <;> rfl
  plain := by
    simp only [List.forall_mem_cons]
    exact ⟨.register (.vector _ hzd), .register (.predicate _ hpg), .immediate v s, List.forall_mem_nil _⟩
  vector _ _ _ := rfl
  code := hzd
  writes _ _ := by cases q <;> rfl

/-- A general register is copied to the active lanes, and the others are kept. -/
theorem cpyScalar_replaces (hzd : zd < 32) (hpg : pg < Form.governingCount) (hcode : code < 31) :
    ReplacesLanes .cpyScalar [.ofZ ⟨zd, some l⟩, .ofP ⟨pg, none, some .merging⟩, .ofX (.forLane l code)] l zd fun r i =>
      if activeLane l.bytes (r.pBits pg) i then (r.general (.ofX (.forLane l code)) .stack).setWidth l.bits
      else r.zLane zd l.bits i where
  accepted := by cases l <;> rfl
  plain := by
    simp only [List.forall_mem_cons]
    exact ⟨.register (.vector _ hzd), .register (Assembler.isRegister_governing hpg), .general _ (Nat.lt_succ_of_lt hcode),
      List.forall_mem_nil _⟩
  vector _ _ _ := rfl
  code := hzd
  writes _ _ := rfl

/-- The lanes are moved up by one, and a general register is put into the lowest. -/
theorem insrScalar_replaces (hzd : zd < 32) (hcode : code < 31) :
    ReplacesLanes .insrScalar [.ofZ ⟨zd, some l⟩, .ofX (.forLane l code)] l zd fun r i =>
      if i = 0 then (r.general (.ofX (.forLane l code)) .zero).setWidth l.bits else r.zLane zd l.bits (i - 1) where
  accepted := by cases l <;> rfl
  plain := by
    simp only [List.forall_mem_cons]
    exact ⟨.register (.vector _ hzd), .general _ (Nat.lt_succ_of_lt hcode), List.forall_mem_nil _⟩
  vector _ _ _ := rfl
  code := hzd
  writes _ _ := rfl

/-- **A start or a step of an index vector as an operand**: a small immediate, or a register of the width that the lanes
    need. -/
inductive Operand.IsTerm (l : LaneSize) : Operand → Prop
  | immediate (v : BitVec 64) (low : -16 ≤ v.toInt) (high : v.toInt ≤ 15) : IsTerm l (.ofImm v)
  | register (code : Nat) (inside : code < 31) : IsTerm l (.ofX (.forLane l code))

/-- Where an operand of an index vector is taken from. -/
def Operand.source (op : Operand) : IndexSource := if op.kind = .imm then .imm else .reg

/-- The value of a start or a step. -/
def Registers.term (r : Registers) (op : Operand) : BitVec 64 := if op.kind = .imm then op.imm else r.general op .zero

/-- A general register is taken as a register. -/
theorem Operand.source_forLane : (Operand.ofX (.forLane l code)).source = .reg := by cases l <;> rfl

/-- The value of a general register as a term is the one that it holds. -/
theorem Registers.term_forLane (r : Registers) :
    r.term (.ofX (.forLane l code)) = r.general (.ofX (.forLane l code)) .zero := by
  cases l <;> rfl

theorem Operand.IsTerm.plain {op : Operand} (h : op.IsTerm l) : op.IsPlain := by
  cases h with
  | immediate v _ _ => exact .immediate v 0
  | register code inside => exact .general _ (Nat.lt_succ_of_lt inside)

/-- Equally spaced lanes are formed. -/
theorem index_replaces {s t : Operand} (hzd : zd < 32) (hs : s.IsTerm l) (ht : t.IsTerm l) :
    ReplacesLanes (.index s.source t.source) [.ofZ ⟨zd, some l⟩, s, t] l zd fun r i =>
      (r.term s + r.term t * BitVec.ofNat 64 i).setWidth l.bits where
  accepted := by cases hs <;> cases ht <;> cases l <;> rfl
  plain := by
    simp only [List.forall_mem_cons]
    exact ⟨.register (.vector _ hzd), hs.plain, ht.plain, List.forall_mem_nil _⟩
  vector _ _ _ := rfl
  code := hzd
  writes _ _ := rfl

/-- A start or a step can be encoded. -/
theorem Operand.IsTerm.fault?_eq_none {op : Operand} (h : op.IsTerm l) {f : Field} (five : f.width = 5) :
    (Slot.term f op.source).fault? (some l) op = none := by
  cases h with
  | immediate v low high =>
    have sixteen : twoPow (f.width - 1) = 16 := by rw [five]; rfl
    show Slot.signedFault? f (.ofImm v) = none
    rw [Slot.signedFault?, sixteen, orElse_eq_none, rangeFault?_eq_none]
    exact ⟨⟨low, high⟩, rfl⟩
  | register code inside =>
    rw [Operand.source_forLane]
    exact XReg.widthFault?_forLane

end

/-! ## Active lanes -/

/-- The lanes that a predicate chooses are those behind a change of general registers alone. -/
theorem Core.governed_of_wrote {l : LaneSize} {core mid : Core} {code pg zd : Nat} {v : BitVec 64} {zeroing : Bool}
    {value : Nat → BitVec l.bits} (wrote : core.regs.Wrote mid.regs code v) :
    mid.governed l pg zd zeroing value = core.governed l pg zd zeroing value := by
  funext i
  rw [Core.governed, Core.governed, wrote.pBits, wrote.zLane]

namespace Assembler

variable {a : Assembler} {l : LaneSize} {zd : Nat} {pg : PReg}

/-- An immediate is copied to the active lanes through a general register. -/
theorem cpyThrough_emits {code : Nat} (hcode : code < 31) (allowed : l ∈ Form.bhsd) (hzd : zd < 32)
    (hpg : pg.code < Form.governingCount) (value : BitVec 64) :
    a.Emits (((a.moveImmediate (.forLane l code) value).zeroInactive ⟨zd, some l⟩ pg).emit .cpy
        [.ofZ ⟨zd, some l⟩, .ofP pg.merging, .ofX (.forLane l code)]) fun vl core after =>
      Core.Sets vl l core after zd (core.governed l pg.code zd pg.isZeroing fun _ => value.setWidth l.bits) := by
  have checks : ∀ c ∈ Form.cpyScalar.checks, c.Passes .cpyScalar
      [.ofZ ⟨zd, some l⟩, .ofP pg.merging, .ofX (.forLane l code)] := by
    simp only [Form.checks, List.forall_mem_cons]
    refine ⟨⟨l, allowed, rfl⟩, hpg, ?_, List.forall_mem_nil _⟩
    rintro s ⟨⟩
    exact XReg.widthFault?_forLane
  have moved := moveForLane_emits (l := l) a hcode value
  have cleared := moved.trans (zeroInactive_replaces allowed hzd hpg)
  refine (cleared.trans ((cpyScalar_replaces hzd hpg hcode).emits checks)).mono fun vl core after done => ?_
  obtain ⟨mid, ⟨start, wrote, zeroed⟩, copied⟩ := done
  have held : (mid.regs.general (.ofX (.forLane l code)) .stack).setWidth l.bits = value.setWidth l.bits := by
    rw [Registers.general_ofX, zeroed.general, ← Registers.general_ofX]
    exact wrote.setWidth_general hcode allowed .stack
  rw [held] at copied
  rw [← Core.governed_of_wrote wrote]
  exact .of_wrote wrote (zeroed.toSets.behind copied fun _ _ _ => rfl)

/-- **An immediate of any value is copied to the active lanes.** -/
theorem cpy_emits (allowed : l ∈ Form.bhsd) (hzd : zd < 32) (hpg : pg.code < Form.governingCount)
    (free : ∃ k < 31, a.pools.has .general k = true) (imm : BitVec 64) :
    a.Emits (a.cpy ⟨zd, some l⟩ pg imm) fun vl core after =>
      Core.Sets vl l core after zd (core.governed l pg.code zd pg.isZeroing fun _ => imm.setWidth l.bits) := by
  rw [← setWidth_laneSigned allowed imm]
  unfold cpy
  dsimp only
  generalize laneSigned (some l) imm = value
  cases bytes : byteImmediate? .cpy [.ofZ ⟨zd, some l⟩, .ofP pg.governing] (some l) value with
  | some w =>
    obtain ⟨v, s, tried, rfl⟩ := byteImmediate?_eq_some bytes
    unfold PReg.governing at tried
    cases zeroing : pg.isZeroing with
    | true =>
      rw [zeroing] at tried
      exact (cpyImm_replaces (q := .zeroing) hzd (Nat.lt_of_lt_of_le hpg (by decide)) v s).tried tried
    | false =>
      rw [zeroing] at tried
      exact (cpyImm_replaces (q := .merging) hzd (Nat.lt_of_lt_of_le hpg (by decide)) v s).tried tried
  | none => exact acquireForLane_emits free fun code hcode b => cpyThrough_emits hcode allowed hzd hpg value

/-! ## The lowest lane -/

/-- **An immediate of any value is put into the lowest lane**, and the others move up by one. -/
theorem insr_emits (allowed : l ∈ Form.bhsd) (hzd : zd < 32) (free : ∃ k < 31, a.pools.has .general k = true)
    (imm : BitVec 64) :
    a.Emits (a.insr ⟨zd, some l⟩ imm) fun vl core after => ∀ i < vl.lanes l, after.regs.zLane zd l.bits i =
      if i = 0 then imm.setWidth l.bits else core.regs.zLane zd l.bits (i - 1) := by
  refine acquireForLane_emits free fun code hcode b => ?_
  have checks : ∀ c ∈ Form.insrScalar.checks, c.Passes .insrScalar [.ofZ ⟨zd, some l⟩, .ofX (.forLane l code)] := by
    simp only [Form.checks, List.forall_mem_cons]
    refine ⟨⟨l, allowed, rfl⟩, ?_, List.forall_mem_nil _⟩
    rintro s ⟨⟩
    exact XReg.widthFault?_forLane
  have moved := moveForLane_emits (l := l) b hcode imm
  refine (moved.trans ((insrScalar_replaces hzd hcode).emits checks)).mono fun vl core after done i hi => ?_
  obtain ⟨mid, wrote, inserted⟩ := done
  rw [inserted.written i hi, wrote.setWidth_general hcode allowed, wrote.zLane]

end Assembler

/-! ## Equally spaced lanes -/

/-- **What is left where a start or step has been made ready**: it has the bits of the immediate in a lane, and every other
    start or step has the value that it had, unless it is in the same register. -/
structure Core.Holds (l : LaneSize) (imm : BitVec 64) (op : Operand) (core after : Core) : Prop where
  held : (after.regs.term op).setWidth l.bits = imm.setWidth l.bits
  kept : ∀ other : Operand, other.IsTerm l → (op.source = .reg → other.source = .reg → other.reg ≠ op.reg) →
    after.regs.term other = core.regs.term other

/-- An immediate in a general register is ready. -/
theorem Core.Holds.of_wrote {l : LaneSize} {imm : BitVec 64} {code : Nat} {core after : Core} (hcode : code < 31)
    (allowed : l ∈ Form.bhsd) (wrote : core.regs.Wrote after.regs code ((XReg.forLane l code).width.cut imm)) :
    Core.Holds l imm (.ofX (.forLane l code)) core after where
  held := by
    rw [Registers.term_forLane]
    exact wrote.setWidth_general hcode allowed .zero
  kept other isTerm apart := by
    cases isTerm with
    | immediate v _ _ => rfl
    | register code' inside =>
      have other : code ≠ code' := (apart Operand.source_forLane Operand.source_forLane).symm
      rw [Registers.term_forLane, Registers.term_forLane, Registers.general_ofX, Registers.general_ofX]
      exact congrArg _ (wrote.read_of_ne hcode other .zero)

namespace Assembler

variable {a b c : Assembler} {l : LaneSize} {zd : Nat}

/-- **A start or a step is ready as an operand** in what follows. A register comes from the pool and is no longer there, and
    all others stay. -/
structure IsReady (a b : Assembler) (l : LaneSize) (imm : BitVec 64) (op : Operand) : Prop where
  term : op.IsTerm l
  emits : ({ a with pools := b.pools } : Assembler).Emits b fun _ core after => Core.Holds l imm op core after
  taken : op.source = .reg → a.pools.has .general op.reg = true ∧ b.pools.has .general op.reg = false
  left : ∀ k, (op.source = .reg → k ≠ op.reg) → b.pools.has .general k = a.pools.has .general k

/-- A small immediate is ready at once. -/
theorem IsReady.immediate {imm : BitVec 64} (low : -16 ≤ imm.toInt) (high : imm.toInt ≤ 15) :
    IsReady a a l imm (.ofImm imm) where
  term := .immediate imm low high
  emits := (Emits.nothing a).mono fun _ core after same => by
    subst same
    exact ⟨rfl, fun _ _ _ => rfl⟩
  taken := by rintro ⟨⟩
  left _ _ := rfl

/-- An immediate that has been moved to a scratch register is ready. -/
theorem IsReady.register {code : Nat} (hcode : code < 31) (allowed : l ∈ Form.bhsd)
    (pooled : a.pools.has .general code = true) (imm : BitVec 64) :
    IsReady a (({ a with pools := a.pools.remove .general code } : Assembler).moveImmediate (.forLane l code) imm) l imm
      (.ofX (.forLane l code)) := by
  have moved := moveForLane_emits (l := l) { a with pools := a.pools.remove .general code } hcode imm
  have has (k : Nat) : (({ a with pools := a.pools.remove .general code } : Assembler).moveImmediate (.forLane l code)
      imm).pools.has .general k = (a.pools.has .general k && !decide (code = k)) := by
    rw [moved.pools, ScratchPools.has_remove]
    simp
  refine ⟨.register code hcode, ?_, ?_, ?_⟩
  · rw [moved.pools]
    exact moved.mono fun _ _ _ wrote => .of_wrote hcode allowed wrote
  · intro _
    refine ⟨pooled, ?_⟩
    rw [has]
    show (_ && !decide (code = code)) = false
    simp
  · intro k other
    have apart : code ≠ k := (other Operand.source_forLane).symm
    rw [has, decide_eq_false apart, Bool.not_false, Bool.and_true]

/-- **A start or step of any value is made ready**, as an immediate or in the lowest general scratch register. -/
theorem withIndexTerm_ready (allowed : l ∈ Form.bhsd) (free : ∃ k < 31, a.pools.has .general k = true) (imm : BitVec 64) :
    ∃ op b, (∀ body : Operand → Assembler → Assembler, a.withIndexTerm (some l) imm body = body op b) ∧
      IsReady a b l imm op := by
  by_cases small : -16 ≤ imm.toInt ∧ imm.toInt ≤ 15
  · exact ⟨.ofImm imm, a, fun body => if_pos small, .immediate small.1 small.2⟩
  · obtain ⟨code, hcode, lowest⟩ := ScratchPools.lowest?_general free
    refine ⟨_, _, ?_, .register hcode allowed (ScratchPools.lowest?_spec lowest).1 imm⟩
    intro body
    unfold withIndexTerm acquireForLane withScratch acquire
    rw [if_neg small, lowest]
    rfl

/-- **Of two free registers one is left** behind the first start or step. -/
theorem IsReady.free {imm : BitVec 64} {op : Operand} (ready : IsReady a b l imm op)
    (free : ∃ k < 31, ∃ k' < 31, k ≠ k' ∧ a.pools.has .general k = true ∧ a.pools.has .general k' = true) :
    ∃ k < 31, b.pools.has .general k = true := by
  obtain ⟨k, hk, k', hk', apart, has, has'⟩ := free
  by_cases same : k = op.reg
  · exact ⟨k', hk', by rw [ready.left k' fun _ => same ▸ apart.symm, has']⟩
  · exact ⟨k, hk, by rw [ready.left k fun _ => same, has]⟩

/-- **Both terms are held** where the second one has been made ready behind the first. -/
theorem IsReady.both {start step : BitVec 64} {s t : Operand} (first : IsReady a b l start s) (second : IsReady b c l step t) :
    ({ a with pools := c.pools } : Assembler).Emits c fun _ _ after =>
      (after.regs.term s).setWidth l.bits = start.setWidth l.bits ∧
        (after.regs.term t).setWidth l.bits = step.setWidth l.bits := by
  -- the second register was taken from what the first one had left in the pool
  have apart : t.source = .reg → s.source = .reg → s.reg ≠ t.reg := by
    intro later earlier same
    have gone := (first.taken earlier).2
    rw [same, (second.taken later).1] at gone
    cases gone
  refine ((first.emits.withPools c.pools).trans second.emits).mono fun _ _ after done => ?_
  obtain ⟨mid, begun, stepped⟩ := done
  refine ⟨?_, stepped.held⟩
  rw [stepped.kept s first.term apart]
  exact begun.held

/-- **Lanes with a start and a step of any value.** -/
theorem index_emits (allowed : l ∈ Form.bhsd) (hzd : zd < 32)
    (free : ∃ k < 31, ∃ k' < 31, k ≠ k' ∧ a.pools.has .general k = true ∧ a.pools.has .general k' = true)
    (start step : BitVec 64) :
    a.Emits (a.index ⟨zd, some l⟩ start step) fun vl _ after => ∀ i < vl.lanes l,
      after.regs.zLane zd l.bits i = start.setWidth l.bits + step.setWidth l.bits * BitVec.ofNat l.bits i := by
  have one : ∃ k < 31, a.pools.has .general k = true := by
    obtain ⟨k, hk, -, -, -, has, -⟩ := free
    exact ⟨k, hk, has⟩
  obtain ⟨s, b, takes, first⟩ := withIndexTerm_ready allowed one start
  obtain ⟨t, c, takes', second⟩ := withIndexTerm_ready allowed (first.free free) step
  refine Emits.inScope c.pools ?_
  rw [takes, takes']
  have checks : ∀ c ∈ (Form.index s.source t.source).checks,
      c.Passes (.index s.source t.source) [.ofZ ⟨zd, some l⟩, s, t] := by
    simp only [Form.checks, List.forall_mem_cons]
    refine ⟨⟨l, allowed, rfl⟩, ?_, ?_, List.forall_mem_nil _⟩
    · rintro slot ⟨⟩
      exact first.term.fault?_eq_none rfl
    · rintro slot ⟨⟩
      exact second.term.fault?_eq_none rfl
  have formed := (index_replaces (l := l) hzd first.term second.term).emits (a := c) checks
  refine ((first.both second).trans formed).mono fun vl _ after done i hi => ?_
  obtain ⟨mid, ⟨hs, ht⟩, indexed⟩ := done
  have narrow := Form.bits_le_of_bhsd allowed
  -- the sum is formed with 64 bits, and cut to the lane at last
  rw [indexed.written i hi, BitVec.setWidth_add _ _ narrow, BitVec.setWidth_mul _ _ narrow, hs, ht,
    BitVec.setWidth_ofNat_of_le narrow]

end Assembler

/-! ## The macros -/

/-- **The four macros that fill a vector with immediates**: all of its lanes, those that a predicate chooses, the lowest one,
    or all of them with equal spaces. -/
inductive Fill
  | all (imm : BitVec 64)
  | active (pg : PReg) (imm : BitVec 64)
  | lowest (imm : BitVec 64)
  | spaced (start step : BitVec 64)

namespace Fill

/-- The macro with its operands. -/
def call (fill : Fill) (zd : ZReg) : MacroCall :=
  match fill with
  | all imm => .dup zd imm
  | active pg imm => .cpy zd pg imm
  | lowest imm => .insr zd imm
  | spaced start step => .index zd start step

/-- **The element that lane `i` is filled with**: an exact integer modulo the lane, or what was in a lane before. -/
def element (fill : Fill) (l : LaneSize) (zd : Nat) (r : Registers) (i : Nat) : BitVec l.bits :=
  match fill with
  | all imm => BitVec.ofInt l.bits imm.toInt
  | active pg imm =>
    if activeLane l.bytes (r.pBits pg.code) i then BitVec.ofInt l.bits imm.toInt
    else if pg.isZeroing then 0
    else r.zLane zd l.bits i
  | lowest imm => if i = 0 then BitVec.ofInt l.bits imm.toInt else r.zLane zd l.bits (i - 1)
  | spaced start step => BitVec.ofInt l.bits (start.toInt + step.toInt * i)

/-- What a macro asks of its operands and of the pools: one free general register for each immediate, and a predicate that
    can govern. -/
def Fits (fill : Fill) (pools : ScratchPools) : Prop :=
  match fill with
  | all _ | lowest _ => ∃ k < 31, pools.has .general k = true
  | active pg _ => pg.code < Form.governingCount ∧ ∃ k < 31, pools.has .general k = true
  | spaced _ _ => ∃ k < 31, ∃ k' < 31, k ≠ k' ∧ pools.has .general k = true ∧ pools.has .general k' = true

end Fill

namespace Assembler

variable {a : Assembler} {fill : Fill} {l : LaneSize}

/-- **What the words of the macros leave in the lanes of the destination.** -/
theorem fill_emits {zd : Nat} (allowed : l ∈ Form.bhsd) (hzd : zd < 32) (fits : fill.Fits a.pools) :
    a.Emits (a.expand (fill.call ⟨zd, some l⟩)) fun vl core after =>
      ∀ i < vl.lanes l, after.regs.zLane zd l.bits i = fill.element l zd core.regs i := by
  have narrow := Form.bits_le_of_bhsd allowed
  cases fill with
  | all imm =>
    refine (dup_emits allowed hzd fits imm).mono fun vl core after sets i hi => ?_
    rw [sets.written i hi, setWidth_eq_ofInt narrow]
    rfl
  | active pg imm =>
    refine (cpy_emits allowed hzd fits.1 fits.2 imm).mono fun vl core after sets i hi => ?_
    rw [sets.written i hi, setWidth_eq_ofInt narrow]
    rfl
  | lowest imm =>
    refine (insr_emits allowed hzd fits imm).mono fun vl core after inserted i hi => ?_
    rw [inserted i hi, setWidth_eq_ofInt narrow]
    rfl
  | spaced start step =>
    refine (index_emits allowed hzd fits start step).mono fun vl core after indexed i hi => ?_
    show _ = BitVec.ofInt l.bits (start.toInt + step.toInt * i)
    rw [indexed i hi, BitVec.ofInt_add, BitVec.ofInt_mul, BitVec.ofInt_natCast, setWidth_eq_ofInt narrow,
      setWidth_eq_ofInt narrow]

/-- **A vector is filled with immediates of any value.** The vector exists and is viewed at a lane size; there is a general
    scratch register below code 31 for each immediate, and a predicate is one of the lowest eight, whatever its qualifier.
    Nothing of the assembler changes but its code: no error is recorded, and the pools are as they were. Executing the words
    in order, from any state with a vector length, leaves in every lane the exact integer that it is filled with, modulo the
    lane, or what was in the lane that it is taken from. -/
theorem fill_computes (a : Assembler) (fill : Fill) (zd : ZReg) (view : zd.lane = some l) (allowed : l ∈ Form.bhsd)
    (code : zd.code < 32) (fits : fill.Fits a.pools) :
    ∃ ws : List Word,
      a.expand (fill.call zd) = { a with code := a.code ++ ws } ∧
      ∀ (sim : Simulator) (vl : VectorLength), sim.core.regs.vl = some vl →
        ∃ after, sim.executeWords? ws = some after ∧
          ∀ i < vl.lanes l, after.core.regs.zLane zd.code l.bits i = fill.element l zd.code sim.core.regs i := by
  obtain ⟨zd, lane⟩ := zd
  obtain rfl : lane = some l := view
  obtain ⟨ws, emitted, runs⟩ := fill_emits allowed code fits
  refine ⟨ws, emitted, ?_⟩
  intro sim vl configured
  obtain ⟨after, run, -, lanes⟩ := runs sim vl configured
  exact ⟨after, run, lanes⟩

/-- Falling bytes from a start that is beyond the immediates of the instruction, with a step that is not. -/
theorem fill_computes_falling :
    let a : Assembler := {}
    let zd : ZReg := ⟨5, some .b⟩
    ∃ ws : List Word,
      a.expand (.index zd 1000 (-3)) = { a with code := a.code ++ ws } ∧
      ∀ (sim : Simulator) (vl : VectorLength), sim.core.regs.vl = some vl →
        ∃ after, sim.executeWords? ws = some after ∧
          ∀ i < vl.lanes .b, after.core.regs.zLane 5 8 i = BitVec.ofInt 8 (1000 + -3 * i) :=
  fill_computes (l := .b) {} (.spaced 1000 (-3)) ⟨5, some .b⟩ rfl (by decide) (by decide)
    ⟨16, by decide, 17, by decide, by decide, by decide, by decide⟩

end Assembler

end ArmToolkit.A64
