import ArmToolkit.A64.Form
import ArmToolkit.A64.Slot
import ArmToolkit.PowerOfTwo

/-!
# `A64.Format` — the slots of each form, and what has to hold between them

## Contents
- **Format.** `Form.slots` lists the operands of a form, and `Form.sizing` says where its word keeps the lane size.
  `Form.mask` is the set of fixed bits: all bits that are in no field.
- **Checks.** `Form.checks` lists what an instruction of the form has to satisfy before it is encoded, in the order
  in which faults are reported.
-/

namespace ArmToolkit.A64

namespace Form

open Slot (rd rn rm)

/-! ## Format -/

/-- The field of a governing predicate among the lowest eight. -/
def pg : Field := ⟨10, 3⟩

/-- The field of any governing predicate. -/
def pgWide : Field := ⟨10, 4⟩

/-- The field of a destination predicate. -/
def pd : Field := ⟨0, 4⟩

/-- The field of a first source predicate. -/
def pn : Field := ⟨5, 4⟩

/-- The field of a second source predicate. -/
def pm : Field := ⟨16, 4⟩

/-- A vector register viewed at the lane size of the instruction. -/
def vec (f : Field) : Slot := .vector f .element

/-- A governing predicate that keeps inactive lanes. -/
def merging (f : Field) : Slot := .predicate f .none (some .merging)

/-- A governing predicate that zeroes inactive lanes. -/
def zeroing (f : Field) : Slot := .predicate f .none (some .zeroing)

/-- A predicate without a lane size. -/
def plain (f : Field) : Slot := .predicate f .none none

/-- A predicate viewed at the lane size of the instruction. -/
def lanesOf (f : Field) : Slot := .predicate f .element none

/-- A 64-bit register. -/
def xreg (f : Field) : Slot := .general f .x .zero

/-- What code 31 is as the destination of an operation that may set the flags. -/
def destination31 (setsFlags : Bool) : Code31 := if setsFlags then .zero else .stack

/-- **The operands of a form.** -/
def slots : Form → List Slot
  | moveWide _ width => [.general rd width .zero, .halfword width]
  | addSubImm op width => [.general rd width (destination31 op.setsFlags), .general rn width .stack, .arithmetic]
  | addSubShifted _ width => [.general rd width .zero, .general rn width .zero, .shifted width false]
  | logicalShifted _ width => [.general rd width .zero, .general rn width .zero, .shifted width true]
  | logicalImm op width =>
    [.general rd width (destination31 (op == .ands)), .general rn width .zero, .bitmask width]
  | branch => [.target ⟨0, 26⟩]
  | branchCond => [.target ⟨5, 19⟩]
  | compareBranch _ width => [.general rd width .zero, .target ⟨5, 19⟩]
  | ret => [xreg rn]
  | hlt => [.code]
  | nop => []
  | readFlags | writeFlags => [xreg rd]
  | transfer _ size => [.general rd (if size.is64 then .x else .w) .zero, .offset size.log2]
  | transferScalar _ lane => [.scalarAt rd lane, .offset lane.log2]
  | moveToScalar width => [.scalarAt rd (if width = .x then .d else .s), .general rn width .zero]
  | moveFromScalar width => [.general rd width .zero, .scalarAt rn (if width = .x then .d else .s)]
  | moveElement => [.scalar rd .element, .scalar rn .element, .scalarIndex]
  | predicated _ => [vec rd, merging pg, .again (vec rd), vec rn]
  | reduction op => [.scalar rd (if op = .saddv ∨ op = .uaddv then .double else .element), plain pg, vec rn]
  | multiplyAdd _ => [vec rd, merging pg, vec rn, vec rm]
  | multiplyInto _ => [vec rd, merging pg, vec rm, vec rn]
  | unpredicated _ | permute _ | bitwise _ => [vec rd, vec rn, vec rm]
  | movprfx => [.vector rd .none, .vector rn .none]
  | movprfxPredicated => [vec rd, .governing pg ⟨16, 1⟩, vec rn]
  | index start step => [vec rd, .term rn start, .term rm step]
  | addvl => [.general rd .x .stack, .general rm .x .stack, .signed ⟨5, 6⟩]
  | rdvl => [xreg rd, .signed ⟨5, 6⟩]
  | elementCount _ _ => [xreg rd, .pattern, .multiplier]
  | dupScalar => [vec rd, .generalOfLane rn .stack]
  | insrScalar => [vec rd, .generalOfLane rn .zero]
  | insrSimd => [vec rd, .scalar rn .element]
  | rev => [vec rd, vec rn]
  | dupIndex => [vec rd, vec rn, .vectorIndex]
  | sel => [vec rd, plain pgWide, vec rn, vec rm]
  | cpyScalar => [vec rd, merging pg, .generalOfLane rn .stack]
  | cpySimd => [vec rd, merging pg, .scalar rn .element]
  | cpyImm => [vec rd, .governing pm ⟨14, 1⟩, .byte true true]
  | bitmask _ => [vec rd, .again (vec rd), .laneBitmask]
  | dupm => [vec rd, .laneBitmask]
  | immediate op => [vec rd, .again (vec rd), .byte op.isSigned op.isShiftable]
  | dupImm => [vec rd, .byte true true]
  | compare _ => [lanesOf pd, zeroing pg, vec rn, vec rm]
  | compareUnsigned _ => [lanesOf pd, zeroing pg, vec rn, .unsigned ⟨14, 7⟩]
  | compareSigned _ => [lanesOf pd, zeroing pg, vec rn, .signed rm]
  | predicateLogic .sel => [lanesOf pd, plain pgWide, lanesOf pn, lanesOf pm]
  | predicateLogic _ => [lanesOf pd, zeroing pgWide, lanesOf pn, lanesOf pm]
  | ptest => [plain pgWide, lanesOf pn]
  | pfirst | pnext => [lanesOf pd, plain pn, .again (lanesOf pd)]
  | pfalse => [lanesOf pd]
  | ptrue _ => [lanesOf pd, .pattern]
  | cntp => [xreg rd, plain pgWide, lanesOf pn]
  | countX _ => [xreg rd, lanesOf pn]
  | countW _ => [.general rd .w .zero, lanesOf pn]
  | countExtended _ => [xreg rd, lanesOf pn, .again (.general rd .w .zero)]
  | countZ _ => [vec rd, plain pn]
  | cterm _ => [.generalOfLane rn .zero, .generalOfLane rm .zero]
  | transferP _ => [plain pd, .registerOffset]
  | transferZ _ => [.vector rd .none, .registerOffset]
  | ld1 _ => [vec rd, zeroing pg, .vectorOffset]
  | st1 _ => [vec rd, plain pg, .vectorOffset]

/-- **Where the word of a form keeps the lane size.** -/
def sizing : Form → Sizing
  | moveElement => .scalarIndex
  | dupIndex => .vectorIndex
  | bitmask _ | dupm => .bitmask
  | cterm _ => .widthBit
  | bitwise _ => .fixed (some .d)
  | predicateLogic _ | ptest | pfirst | pfalse => .fixed (some .b)
  | elementCount _ _ => .fixed none
  | ld1 e | st1 e => .fixed (some e.lane)
  | moveWide _ _ | addSubImm _ _ | addSubShifted _ _ | logicalShifted _ _ | logicalImm _ _ | branch | branchCond
  | compareBranch _ _ | ret | hlt | nop | readFlags | writeFlags | transfer _ _ | transferScalar _ _ | moveToScalar _
  | moveFromScalar _ | movprfx | addvl | rdvl | transferP _ | transferZ _ => .fixed none
  | predicated _ | reduction _ | multiplyAdd _ | multiplyInto _ | unpredicated _ | permute _ | movprfxPredicated
  | index _ _ | dupScalar | insrScalar | insrSimd | rev | sel | cpyScalar | cpySimd | cpyImm | immediate _ | dupImm
  | compare _ | compareUnsigned _ | compareSigned _ | pnext | ptrue _ | cntp | countX _ | countW _ | countExtended _
  | countZ _ => .field

/-- The field of the condition. -/
def condition : Field := ⟨0, 4⟩

/-- The fields of a form that no operand owns: the lane size, and the condition of a conditional branch. -/
def ownFields (f : Form) : List Field :=
  match f with
  | branchCond => [condition]
  | f => f.sizing.fields

/-- All fields of a form. -/
def fields (f : Form) : List Field := f.ownFields ++ f.slots.flatMap Slot.fields

/-- **The fixed bits of a form**: all that are in no field. -/
def mask (f : Form) : Word := ~~~coverage f.fields

/-- The operand that the lane size of an instruction is taken from. -/
def laneOperand : Form → Nat
  | reduction _ | compare _ | compareUnsigned _ | compareSigned _ | cntp => 2
  | countX _ | countW _ | countExtended _ | ptest => 1
  | _ => 0

/-- **The lane size of an instruction**, taken from its operands. -/
def lane (f : Form) (ops : List Operand) : Option LaneSize :=
  match f.sizing with
  | .widthBit => some (if (arg ops 0).kind = .x then .d else .s)
  | _ => (arg ops f.laneOperand).lane

/-- The number that tells the forms of a group apart in the printed table: the logarithm of a transfer size, which
    operands of an index are registers, or whether an immediate is signed and can be shifted. -/
def variant : Form → Nat
  | transfer _ size => size.log2
  | transferScalar _ lane => lane.log2
  | index start step => (if start = .reg then 1 else 0) + (if step = .reg then 2 else 0)
  | immediate op => (if op.isSigned then 1 else 0) + (if op.isShiftable then 2 else 0)
  | reduction .saddv | reduction .uaddv => 1
  | predicateLogic .sel => 1
  | _ => 0

/-- The set of lane sizes as a number, one bit a size; a sixth bit stands for none. -/
def laneMask (f : Form) : Nat :=
  if f.lanes.isEmpty then 32 else f.lanes.foldr (fun l mask => twoPow l.log2 + mask) 0

/-! ## Checks -/

/-- **One thing that an instruction has to satisfy.** The numbers are places of operands. -/
inductive Check
  /-- The lane size of the operand is one that the form has. -/
  | laneAllowed (i : Nat)
  /-- The operand has this lane size. -/
  | laneIs (i : Nat) (lane : Option LaneSize)
  /-- The operand has the lane size of another. -/
  | sameLane (i j : Nat)
  /-- The operand is the register of another. -/
  | tied (i j : Nat)
  /-- The register code is below a limit. -/
  | below (i count : Nat)
  /-- The operand has the kind of the first. -/
  | sameKind (i : Nat)
  /-- The slot can hold the value of the operand. -/
  | value (i : Nat)

/-- The governing predicates that a three-bit field can name. -/
def governingCount : Nat := 8

/-- **What an instruction of the form has to satisfy**, in the order in which faults are reported. -/
def checks : Form → List Check
  | moveWide _ _ => [.value 1]
  | addSubImm _ _ | addSubShifted _ _ | logicalShifted _ _ | logicalImm _ _ => [.value 2]
  | branch | branchCond | hlt => [.value 0]
  | compareBranch _ _ | transfer _ _ | transferScalar _ _ => [.value 1]
  | ret | nop | readFlags | writeFlags | moveToScalar _ | moveFromScalar _ => []
  | moveElement => [.laneAllowed 0, .sameLane 1 0, .value 2]
  | predicated _ => [.laneAllowed 0, .below 1 governingCount, .sameLane 2 0, .sameLane 3 0, .tied 2 0]
  | multiplyAdd _ | multiplyInto _ => [.laneAllowed 0, .below 1 governingCount, .sameLane 2 0, .sameLane 3 0]
  | unpredicated _ | permute _ | bitwise _ => [.laneAllowed 0, .sameLane 1 0, .sameLane 2 0]
  | immediate _ | bitmask _ => [.laneAllowed 0, .sameLane 1 0, .tied 1 0, .value 2]
  | dupImm | dupm => [.laneAllowed 0, .value 1]
  | cpyImm => [.laneAllowed 0, .below 1 16, .value 2]
  | cpyScalar => [.laneAllowed 0, .below 1 governingCount, .value 2]
  | cpySimd | movprfxPredicated => [.laneAllowed 0, .below 1 governingCount, .sameLane 2 0]
  | dupScalar | insrScalar => [.laneAllowed 0, .value 1]
  | insrSimd | rev => [.laneAllowed 0, .sameLane 1 0]
  | dupIndex => [.laneAllowed 0, .sameLane 1 0, .value 2]
  | sel => [.laneAllowed 0, .sameLane 2 0, .sameLane 3 0, .laneIs 1 none]
  | movprfx => [.laneIs 0 none, .laneIs 1 none]
  | index _ _ => [.laneAllowed 0, .value 1, .value 2]
  | reduction op =>
    [.laneAllowed 2, .below 1 governingCount, .laneIs 1 none,
      if op = .saddv ∨ op = .uaddv then .laneIs 0 (some .d) else .sameLane 0 2]
  | compare _ => [.laneAllowed 2, .sameLane 0 2, .below 1 governingCount, .sameLane 3 2]
  | compareUnsigned _ | compareSigned _ => [.laneAllowed 2, .sameLane 0 2, .below 1 governingCount, .value 3]
  | ptrue _ => [.laneAllowed 0, .value 1]
  | pfalse => [.laneAllowed 0]
  | pfirst | pnext => [.laneAllowed 0, .sameLane 2 0, .tied 2 0, .laneIs 1 none]
  | ptest => [.laneIs 0 none, .laneAllowed 1]
  | predicateLogic _ => [.laneAllowed 0, .laneIs 1 none, .sameLane 2 0, .sameLane 3 0]
  | cntp => [.laneIs 1 none, .laneAllowed 2]
  | countX _ | countW _ => [.laneAllowed 1]
  | countExtended _ => [.laneAllowed 1, .tied 2 0]
  | countZ _ => [.laneAllowed 0, .laneIs 1 none]
  | elementCount _ _ => [.value 1, .value 2]
  | cterm _ => [.sameKind 1]
  | rdvl => [.value 1]
  | addvl => [.value 2]
  | transferP _ | transferZ _ => [.laneIs 0 none, .value 1]
  | ld1 _ | st1 _ => [.laneAllowed 0, .below 1 governingCount, .laneIs 1 none, .value 2]

/-- The fault that a check finds, with the place of the operand it is about. -/
def Check.fault? (f : Form) (ops : List Operand) : Check → Option (Nat × OperandFault)
  | laneAllowed i =>
    match (arg ops i).lane with
    | some l => if l ∈ f.lanes then none else some (i, .laneNotAllowed (some l))
    | none => some (i, .laneNotAllowed none)
  | laneIs i lane => if (arg ops i).lane = lane then none else some (i, .laneExpected lane)
  | sameLane i j =>
    if (arg ops i).lane = (arg ops j).lane then none else some (i, .laneExpected (arg ops j).lane)
  | tied i j => if (arg ops i).reg = (arg ops j).reg then none else some (i, .notTied j)
  | below i count => if (arg ops i).reg < count then none else some (i, .registerLimit count)
  | sameKind i => if (arg ops i).kind = (arg ops 0).kind then none else some (i, .widthDiffers)
  | value i => ((f.slots[i]?).bind fun s => s.fault? (f.lane ops) (arg ops i)).map (i, ·)

/-- Whether an operand names a register outside a memory access and without a shift. Immediates, memory operands and
    branch offsets do not, and neither does the third operand of a form that shifts it. -/
def namesPlainRegister (f : Form) (i : Nat) (op : Operand) : Bool :=
  match op.kind with
  | .imm | .pattern | .mem | .memMulVl | .label => false
  | .none | .x | .w | .v | .z | .p =>
    match f.slots[i]? with
    | some (.shifted _ _) => false
    | _ => true

/-- The fault of an operand that names a register: a shift, or a code that no register has. -/
def registerFault? (op : Operand) : Option OperandFault :=
  if op.shift ≠ 0 ∨ op.shiftType ≠ .lsl then some .shiftedRegister
  else if 32 ≤ op.reg then some (.noSuchRegister op.reg)
  else if op.kind = .p ∧ 16 ≤ op.reg then some (.noSuchPredicate op.reg)
  else none

/-- The first fault of the registers of an instruction. -/
def plainFault? (f : Form) (ops : List Operand) : Option (Nat × OperandFault) :=
  ops.zipIdx.findSome? fun (op, i) =>
    if f.namesPlainRegister i op then (registerFault? op).map (i, ·) else none

/-- **The first fault of the operands of an instruction**: of its registers, and then of its checks in order. -/
def fault? (f : Form) (ops : List Operand) : Option (Nat × OperandFault) :=
  match f.plainFault? ops with
  | some fault => some fault
  | none => f.checks.findSome? fun c => c.fault? f ops

end Form

end ArmToolkit.A64
