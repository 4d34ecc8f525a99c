import ArmToolkit.A64.Instruction
import ArmToolkit.A64.Semantics.Predicate
import ArmToolkit.A64.Semantics.Transfer

/-!
# `A64.Semantics` — what an instruction does

`execute` gives the outcome of an instruction: the registers and the memory after it together with where execution
goes on, or with the fault that ends it. Nothing that faults has written a register, and only a store of active elements
can fault after it has changed memory.
-/

namespace ArmToolkit.A64

/-- Where execution goes on. -/
inductive Flow
  | next
  | jump (target : BitVec 64)
  | halt
  deriving DecidableEq

/-- Why an instruction cannot be executed. -/
inductive Fault
  /-- A vector instruction without a vector length. -/
  | noVectorLength (form : Form)
  /-- An access to memory that is not mapped. -/
  | access (why : AccessFault)

/-- **The outcome of an instruction**: the registers and the memory after it, and where execution goes on or why it
    cannot. -/
inductive Outcome
  | done (core : Core) (flow : Flow)
  | fault (why : Fault) (core : Core)

/-- The outcome of a transfer. -/
def TransferResult.outcome : TransferResult → Outcome
  | done core => .done core .next
  | fault why core => .fault (.access why) core

namespace Semantics

/-- The outcome of an instruction that writes registers alone. -/
def registersOnly (core : Core) (regs : Registers) : Outcome := .done { core with regs } .next

/-- The outcome of a vector instruction at a vector length. Forms of other groups do nothing here. -/
def executeVector (f : Form) (vl : VectorLength) (ops : List Operand) (core : Core) : Outcome :=
  let r := core.regs
  let pure := registersOnly core
  match f with
  | .predicated op => pure (predicated vl ops r op.op)
  | .reduction op => pure (reduction vl ops r op)
  | .multiplyAdd negated => pure (multiplyAdd vl ops r negated)
  | .multiplyInto negated => pure (multiplyInto vl ops r negated)
  | .unpredicated op => pure (unpredicated vl ops r op.op)
  | .permute op => pure (permute vl ops r op)
  | .bitwise op => pure (unpredicated vl ops r op.op)
  | .movprfx => pure (movprfx vl ops r)
  | .movprfxPredicated => pure (movprfxPredicated vl ops r)
  | .index _ _ => pure (index vl ops r)
  | .addvl => pure (addvl vl ops r)
  | .rdvl => pure (rdvl vl ops r)
  | .elementCount op e => pure (elementCount vl ops r op e)
  | .dupScalar => pure (broadcast vl ops r (r.general (arg ops 1) .stack))
  | .dupImm => pure (broadcast vl ops r (shiftedValue (arg ops 1)))
  | .dupm => pure (broadcast vl ops r (arg ops 1).imm)
  | .dupIndex => pure (duplicate vl ops r)
  | .insrScalar => pure (insert vl ops r (r.general (arg ops 1) .zero))
  | .insrSimd => pure (insert vl ops r (scalarValue ops r 1))
  | .rev => pure (reverse vl ops r)
  | .sel => pure (select vl ops r)
  | .cpyScalar => pure (copyActive vl ops r (r.general (arg ops 2) .stack))
  | .cpySimd => pure (copyActive vl ops r (scalarValue ops r 2))
  | .cpyImm => pure (copyActive vl ops r (shiftedValue (arg ops 2)))
  | .bitmask op => pure (bitmask vl ops r op)
  | .immediate op => pure (immediate vl ops r op)
  | .compare rel => pure (compareVectors vl ops r rel.rel)
  | .compareUnsigned rel => pure (compareImmediate vl ops r rel.rel)
  | .compareSigned rel => pure (compareImmediate vl ops r rel.rel)
  | .predicateLogic op => pure (predicateLogic vl ops r op)
  | .ptest => pure (ptest vl ops r)
  | .pfirst => pure (pfirst vl ops r)
  | .pnext => pure (pnext vl ops r)
  | .pfalse => pure (pfalse ops r)
  | .ptrue setsFlags => pure (ptrue vl ops r setsFlags)
  | .cntp => pure (cntp vl ops r)
  | .countX op => pure (countX vl ops r op)
  | .countW op => pure (countW vl ops r op.op)
  | .countExtended op => pure (countExtended vl ops r op.op)
  | .countZ op => pure (countZ vl ops r op)
  | .cterm onDifference => pure (loopTest ops r onDifference)
  | .transferP a => (transferP a vl ops core).outcome
  | .transferZ a => (transferZ a vl ops core).outcome
  | .ld1 e => (loadElements e.lane vl ops core).outcome
  | .st1 e => (storeElements e.lane vl ops core).outcome
  | _ => pure r

/-- **The outcome of an instruction** of a form with operands. -/
def execute (f : Form) (cond : Condition) (ops : List Operand) (core : Core) : Outcome :=
  let r := core.regs
  let pure := registersOnly core
  match f with
  | .moveWide op _ => pure (moveWide op ops r)
  | .addSubImm op width => pure (addSubImm op width ops r)
  | .addSubShifted op width => pure (addSubShifted op width ops r)
  | .logicalShifted op width => pure (logicalShifted op width ops r)
  | .logicalImm op width => pure (logicalImm op width ops r)
  | .branch => .done core (.jump (branchTarget (arg ops 0) r))
  | .branchCond => .done core (if cond.holds r.flags then .jump (branchTarget (arg ops 0) r) else .next)
  | .compareBranch op _ =>
    .done core (if zeroTest op (arg ops 0) r then .jump (branchTarget (arg ops 1) r) else .next)
  | .ret => .done core (.jump (r.general (arg ops 0) .zero))
  | .hlt => .done core .halt
  | .nop => pure r
  | .readFlags => pure (readFlags ops r)
  | .writeFlags => pure (writeFlags ops r)
  | .transfer a size => (transfer a size ops core).outcome
  | .transferScalar a l => (transferScalar a l ops core).outcome
  | .moveToScalar _ => pure (moveToScalar ops r)
  | .moveFromScalar _ => pure (moveFromScalar ops r)
  | .moveElement => pure (moveElement ops r)
  | f =>
    match r.vl with
    | some vl => executeVector f vl ops core
    | none => .fault (.noVectorLength f) core

end Semantics

end ArmToolkit.A64
