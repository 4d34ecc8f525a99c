import ArmToolkit.A64.Field
import ArmToolkit.A64.Operand
import ArmToolkit.A64.Operation

/-!
# `A64.Form` — the encodings of the supported instructions

## Contents
- **Forms.** A `Form` is one encoding of one instruction: a group of encodings with the same fields, together with
  the operation, and with the width or element size where these are fixed. There are 223 of them.
- **Properties.** `Form.name`, `Form.mnemonic`, `Form.opcode` (the fixed bits of the word), `Form.lanes` (the lane
  sizes it accepts), `Form.registerWidth`.
- **The table.** `Form.all` lists the forms in the order in which operands are tried against them.
-/

namespace ArmToolkit.A64

/-! ## Forms -/

/-- **One encoding of one instruction.** Each constructor is a group of encodings that share their fields. -/
inductive Form
  /-- A 16-bit immediate moved into a general register. -/
  | moveWide (op : MoveWideOp) (width : Width)
  /-- Addition or subtraction of a 12-bit immediate. -/
  | addSubImm (op : AddSubOp) (width : Width)
  /-- Addition or subtraction of a shifted register. -/
  | addSubShifted (op : AddSubOp) (width : Width)
  /-- A bitwise operation with a shifted register. -/
  | logicalShifted (op : LogicalOp) (width : Width)
  /-- A bitwise operation with a bitmask immediate. -/
  | logicalImm (op : LogicalOp) (width : Width)
  /-- A branch. -/
  | branch
  /-- A branch taken under a condition. -/
  | branchCond
  /-- A branch on a register being zero, or not. -/
  | compareBranch (op : ZeroTest) (width : Width)
  /-- A branch to the address in a register. -/
  | ret
  /-- A halt with a code. -/
  | hlt
  /-- No operation. -/
  | nop
  /-- The flags read into a register. -/
  | readFlags
  /-- The flags written from a register. -/
  | writeFlags
  /-- A load or store of a general register. -/
  | transfer (access : Access) (size : TransferSize)
  /-- A load or store of a scalar register. -/
  | transferScalar (access : Access) (lane : LaneSize)
  /-- A general register copied to a scalar register. -/
  | moveToScalar (width : Width)
  /-- A scalar register copied to a general register. -/
  | moveFromScalar (width : Width)
  /-- An element copied to a scalar register. -/
  | moveElement
  /-- A predicated operation on two vectors, the first of them the destination. -/
  | predicated (op : PredicatedOp)
  /-- A reduction of the active elements to a scalar. -/
  | reduction (op : ReductionOp)
  /-- A product added to (or, negated, subtracted from) the destination. -/
  | multiplyAdd (negated : Bool)
  /-- The destination multiplied, and the product added to (or subtracted from) an addend. -/
  | multiplyInto (negated : Bool)
  /-- An unpredicated arithmetic operation on two vectors. -/
  | unpredicated (op : UnpredicatedOp)
  /-- A rearrangement of the elements of two vectors. -/
  | permute (op : PermuteOp)
  /-- An unpredicated bitwise operation on two vectors. -/
  | bitwise (op : BitwiseOp)
  /-- A vector copied. -/
  | movprfx
  /-- The active elements of a vector copied. -/
  | movprfxPredicated
  /-- A vector of equally spaced elements. -/
  | index (start step : IndexSource)
  /-- A multiple of the vector length added to a register. -/
  | addvl
  /-- A multiple of the vector length. -/
  | rdvl
  /-- The number of elements that a pattern selects, written, added or subtracted. -/
  | elementCount (op : Counting) (element : Element)
  /-- A general register copied to every element. -/
  | dupScalar
  /-- A general register shifted in as the lowest element. -/
  | insrScalar
  /-- A scalar register shifted in as the lowest element. -/
  | insrSimd
  /-- The elements in reverse order. -/
  | rev
  /-- One element copied to every element. -/
  | dupIndex
  /-- Elements chosen from two vectors by a predicate. -/
  | sel
  /-- A general register copied to the active elements. -/
  | cpyScalar
  /-- A scalar register copied to the active elements. -/
  | cpySimd
  /-- An immediate copied to the active elements. -/
  | cpyImm
  /-- A bitwise operation with a bitmask immediate. -/
  | bitmask (op : BitmaskOp)
  /-- A bitmask immediate copied to every element. -/
  | dupm
  /-- An operation with an 8-bit immediate. -/
  | immediate (op : ImmediateOp)
  /-- An 8-bit immediate copied to every element. -/
  | dupImm
  /-- A compare of two vectors. -/
  | compare (rel : VectorRelation)
  /-- A compare with an unsigned immediate. -/
  | compareUnsigned (rel : UnsignedRelation)
  /-- A compare with a signed immediate. -/
  | compareSigned (rel : SignedRelation)
  /-- A bitwise operation on predicates. -/
  | predicateLogic (op : PredicateOp)
  /-- The flags set from a predicate. -/
  | ptest
  /-- The first active lane set. -/
  | pfirst
  /-- The next active lane. -/
  | pnext
  /-- No lane set. -/
  | pfalse
  /-- The lanes of a pattern set. -/
  | ptrue (setsFlags : Bool)
  /-- The number of active lanes. -/
  | cntp
  /-- The number of active lanes added to or subtracted from a 64-bit register. -/
  | countX (op : CountOp)
  /-- The number of active lanes added to or subtracted from a 32-bit register. -/
  | countW (op : WordCountOp)
  /-- The number of active lanes added to or subtracted from a 32-bit register, with a sign-extended result. -/
  | countExtended (op : ExtendedCountOp)
  /-- The number of active lanes added to or subtracted from every element. -/
  | countZ (op : CountOp)
  /-- A compare of two registers that ends a loop: on equality, or on inequality. -/
  | cterm (onDifference : Bool)
  /-- A load or store of a predicate register. -/
  | transferP (access : Access)
  /-- A load or store of a vector register. -/
  | transferZ (access : Access)
  /-- A load of the active elements. -/
  | ld1 (element : Element)
  /-- A store of the active elements. -/
  | st1 (element : Element)
  deriving DecidableEq, Inhabited

/-! ## Mnemonics -/

/-- The mnemonic of an add or subtract. -/
def AddSubOp.mnemonic : AddSubOp → Mnemonic
  | .add => .add | .adds => .adds | .sub => .sub | .subs => .subs

/-- The mnemonic of a move. -/
def MoveWideOp.mnemonic : MoveWideOp → Mnemonic
  | .movn => .movn | .movz => .movz | .movk => .movk

/-- The mnemonic of a bitwise operation. -/
def LogicalOp.mnemonic : LogicalOp → Mnemonic
  | .and => .and | .orr => .orr | .eor => .eor | .ands => .ands

/-- The mnemonic of a compare and branch. -/
def ZeroTest.mnemonic : ZeroTest → Mnemonic
  | .cbz => .cbz | .cbnz => .cbnz

/-- The mnemonic of a load or store of whole registers. -/
def Access.mnemonic : Access → Mnemonic
  | .load => .ldr | .store => .str

/-- The mnemonic of a transfer of a size. -/
def TransferSize.mnemonic (size : TransferSize) (access : Access) : Mnemonic :=
  match size, access with
  | .b, .load => .ldrb
  | .b, .store => .strb
  | .h, .load => .ldrh
  | .h, .store => .strh
  | _, a => a.mnemonic

/-- The mnemonic of a rearrangement. -/
def PermuteOp.mnemonic : PermuteOp → Mnemonic
  | .tbl => .tbl | .zip1 => .zip1 | .zip2 => .zip2 | .uzp1 => .uzp1 | .uzp2 => .uzp2
  | .trn1 => .trn1 | .trn2 => .trn2

/-- The mnemonic of a reduction. -/
def ReductionOp.mnemonic : ReductionOp → Mnemonic
  | .saddv => .saddv | .uaddv => .uaddv | .smaxv => .smaxv | .umaxv => .umaxv | .sminv => .sminv
  | .uminv => .uminv | .orv => .orv | .eorv => .eorv | .andv => .andv

/-- The mnemonic of an operation on predicates. -/
def PredicateOp.mnemonic : PredicateOp → Mnemonic
  | .and => .and | .bic => .bic | .eor => .eor | .sel => .sel | .ands => .ands | .orr => .orr

/-- The mnemonic of an element count. -/
def Counting.mnemonic (op : Counting) (element : Element) : Mnemonic :=
  match op, element with
  | .cnt, .b => .cntb | .cnt, .h => .cnth | .cnt, .s => .cntw | .cnt, .d => .cntd
  | .inc, .b => .incb | .inc, .h => .inch | .inc, .s => .incw | .inc, .d => .incd
  | .dec, .b => .decb | .dec, .h => .dech | .dec, .s => .decw | .dec, .d => .decd

/-- The mnemonic of a load of elements. -/
def Element.loadMnemonic : Element → Mnemonic
  | .b => .ld1b | .h => .ld1h | .s => .ld1w | .d => .ld1d

/-- The mnemonic of a store of elements. -/
def Element.storeMnemonic : Element → Mnemonic
  | .b => .st1b | .h => .st1h | .s => .st1w | .d => .st1d

/-- The letter of a width in form names. -/
def Width.name : Width → String
  | .w => "w" | .x => "x"

namespace Form

/-- **The mnemonic of a form.** -/
def mnemonic : Form → Mnemonic
  | moveWide op _ => op.mnemonic
  | addSubImm op _ | addSubShifted op _ => op.mnemonic
  | logicalShifted op _ | logicalImm op _ => op.mnemonic
  | branch => .b
  | branchCond => .bCond
  | compareBranch op _ => op.mnemonic
  | ret => .ret
  | hlt => .hlt
  | nop => .nop
  | readFlags => .mrs
  | writeFlags => .msr
  | transfer a size => size.mnemonic a
  | transferScalar a _ => a.mnemonic
  | moveToScalar _ | moveFromScalar _ => .fmov
  | moveElement => .dup
  | predicated op => op.op.mnemonic
  | reduction op => op.mnemonic
  | multiplyAdd negated => if negated then .mls else .mla
  | multiplyInto negated => if negated then .msb else .mad
  | unpredicated op => op.op.mnemonic
  | permute op => op.mnemonic
  | bitwise op => op.op.mnemonic
  | movprfx | movprfxPredicated => .movprfx
  | index _ _ => .index
  | addvl => .addvl
  | rdvl => .rdvl
  | elementCount op e => op.mnemonic e
  | dupScalar | dupIndex | dupImm => .dup
  | insrScalar | insrSimd => .insr
  | rev => .rev
  | sel => .sel
  | cpyScalar | cpySimd | cpyImm => .cpy
  | bitmask op => op.op.mnemonic
  | dupm => .dupm
  | immediate op => op.op.mnemonic
  | compare r => r.rel.mnemonic
  | compareUnsigned r => r.rel.mnemonic
  | compareSigned r => r.rel.mnemonic
  | predicateLogic op => op.mnemonic
  | ptest => .ptest
  | pfirst => .pfirst
  | pnext => .pnext
  | pfalse => .pfalse
  | ptrue setsFlags => if setsFlags then .ptrues else .ptrue
  | cntp => .cntp
  | countX op | countZ op => op.mnemonic
  | countW op => op.op.mnemonic
  | countExtended op => op.op.mnemonic
  | cterm onDifference => if onDifference then .ctermne else .ctermeq
  | transferP a | transferZ a => a.mnemonic
  | ld1 e => e.loadMnemonic
  | st1 e => e.storeMnemonic

/-! ## Names -/

/-- The letter that an index source has in a form name. -/
def sourceLetter : IndexSource → String
  | .imm => "i" | .reg => "r"

/-- **The name of a form**, which messages quote. -/
def name (f : Form) : String :=
  let m := f.mnemonic.name
  match f with
  | moveWide _ width => m ++ "_" ++ width.name
  | addSubImm _ width | logicalImm _ width => m ++ "_imm_" ++ width.name
  | addSubShifted _ width | logicalShifted _ width => m ++ "_shift_" ++ width.name
  | branch => "b_imm"
  | branchCond => "b_cond_imm"
  | compareBranch _ width => m ++ "_" ++ width.name
  | ret => "ret_x"
  | hlt => "hlt_imm"
  | nop => "nop_hint"
  | readFlags | writeFlags => m ++ "_nzcv"
  | transfer _ .w => m ++ "_w_uoff"
  | transfer _ .x => m ++ "_x_uoff"
  | transfer _ _ => m ++ "_uoff"
  | transferScalar _ lane => m ++ "_" ++ lane.name ++ "_uoff"
  | moveToScalar .w => "fmov_s_w"
  | moveToScalar .x => "fmov_d_x"
  | moveFromScalar .w => "fmov_w_s"
  | moveFromScalar .x => "fmov_x_d"
  | moveElement => "dup_scalar_element"
  | predicated _ => "sve_" ++ m ++ "_pred"
  | unpredicated _ | bitwise _ => "sve_" ++ m ++ "_unpred"
  | movprfxPredicated => "sve_movprfx_pred"
  | index start step => "sve_index_" ++ sourceLetter start ++ sourceLetter step
  | dupScalar | insrScalar | cpyScalar => "sve_" ++ m ++ "_scalar"
  | insrSimd | cpySimd => "sve_" ++ m ++ "_simd"
  | dupIndex => "sve_dup_index"
  | cpyImm | bitmask _ | immediate _ | dupImm | compareUnsigned _ | compareSigned _ => "sve_" ++ m ++ "_imm"
  | compare _ => "sve_" ++ m ++ "_vec"
  | predicateLogic _ | transferP _ => "sve_" ++ m ++ "_p"
  | countX _ => "sve_" ++ m ++ "_x"
  | countW _ => "sve_" ++ m ++ "_w"
  | countExtended _ => "sve_" ++ m ++ "_xw"
  | countZ _ | transferZ _ => "sve_" ++ m ++ "_z"
  | reduction _ | multiplyAdd _ | multiplyInto _ | permute _ | movprfx | addvl | rdvl | elementCount _ _ | rev | sel
  | dupm | ptest | pfirst | pnext | pfalse | ptrue _ | cntp | cterm _ | ld1 _ | st1 _ => "sve_" ++ m

/-! ## Fixed bits -/

/-- The bit that makes a base form a 64-bit one. -/
def wide (width : Width) : Word :=
  match width with
  | .w => 0
  | .x => 0x80000000

/-- The fixed bits of the 32-bit moves. -/
def moveWideBits : MoveWideOp → Word
  | .movn => 0x12800000 | .movz => 0x52800000 | .movk => 0x72800000

/-- The fixed bits of the 32-bit adds and subtracts with an immediate. -/
def addSubImmBits : AddSubOp → Word
  | .add => 0x11000000 | .adds => 0x31000000 | .sub => 0x51000000 | .subs => 0x71000000

/-- The fixed bits of the 32-bit adds and subtracts with a register. -/
def addSubShiftedBits : AddSubOp → Word
  | .add => 0x0b000000 | .adds => 0x2b000000 | .sub => 0x4b000000 | .subs => 0x6b000000

/-- The fixed bits of the 32-bit bitwise operations with a register. -/
def logicalShiftedBits : LogicalOp → Word
  | .and => 0x0a000000 | .orr => 0x2a000000 | .eor => 0x4a000000 | .ands => 0x6a000000

/-- The fixed bits of the 32-bit bitwise operations with an immediate. -/
def logicalImmBits : LogicalOp → Word
  | .and => 0x12000000 | .orr => 0x32000000 | .eor => 0x52000000 | .ands => 0x72000000

/-- The fixed bits of the transfers of general registers. -/
def transferBits : Access → TransferSize → Word
  | .store, .b => 0x39000000 | .load, .b => 0x39400000 | .store, .h => 0x79000000 | .load, .h => 0x79400000
  | .store, .w => 0xb9000000 | .load, .w => 0xb9400000 | .store, .x => 0xf9000000 | .load, .x => 0xf9400000

/-- The fixed bits of the transfers of scalar registers. -/
def transferScalarBits : Access → LaneSize → Word
  | .store, .b => 0x3d000000 | .load, .b => 0x3d400000 | .store, .h => 0x7d000000 | .load, .h => 0x7d400000
  | .store, .s => 0xbd000000 | .load, .s => 0xbd400000 | .store, .d => 0xfd000000 | .load, .d => 0xfd400000
  | .store, .q => 0x3d800000 | .load, .q => 0x3dc00000

/-- The fixed bits of the predicated operations. -/
def predicatedBits : PredicatedOp → Word
  | .add => 0x04000000 | .sub => 0x04010000 | .subr => 0x04030000 | .smax => 0x04080000 | .umax => 0x04090000
  | .smin => 0x040a0000 | .umin => 0x040b0000 | .mul => 0x04100000 | .sdiv => 0x04140000 | .udiv => 0x04150000
  | .sdivr => 0x04160000 | .udivr => 0x04170000 | .orr => 0x04180000 | .eor => 0x04190000 | .and => 0x041a0000
  | .bic => 0x041b0000

/-- The fixed bits of the reductions. -/
def reductionBits : ReductionOp → Word
  | .saddv => 0x04002000 | .uaddv => 0x04012000 | .smaxv => 0x04082000 | .umaxv => 0x04092000
  | .sminv => 0x040a2000 | .uminv => 0x040b2000 | .orv => 0x04182000 | .eorv => 0x04192000 | .andv => 0x041a2000

/-- The fixed bits of the unpredicated arithmetic operations. -/
def unpredicatedBits : UnpredicatedOp → Word
  | .add => 0x04200000 | .sub => 0x04200400 | .sqadd => 0x04201000 | .uqadd => 0x04201400 | .sqsub => 0x04201800
  | .uqsub => 0x04201c00

/-- The fixed bits of the rearrangements. -/
def permuteBits : PermuteOp → Word
  | .tbl => 0x05203000 | .zip1 => 0x05206000 | .zip2 => 0x05206400 | .uzp1 => 0x05206800 | .uzp2 => 0x05206c00
  | .trn1 => 0x05207000 | .trn2 => 0x05207400

/-- The fixed bits of the unpredicated bitwise operations. -/
def bitwiseBits : BitwiseOp → Word
  | .and => 0x04203000 | .orr => 0x04603000 | .eor => 0x04a03000 | .bic => 0x04e03000

/-- The fixed bits of the index vectors. -/
def indexBits : IndexSource → IndexSource → Word
  | .imm, .imm => 0x04204000 | .reg, .imm => 0x04204400 | .imm, .reg => 0x04204800 | .reg, .reg => 0x04204c00

/-- The fixed bits of the element counts. -/
def elementCountBits : Counting → Element → Word
  | .cnt, .b => 0x0420e000 | .cnt, .h => 0x0460e000 | .cnt, .s => 0x04a0e000 | .cnt, .d => 0x04e0e000
  | .inc, .b => 0x0430e000 | .inc, .h => 0x0470e000 | .inc, .s => 0x04b0e000 | .inc, .d => 0x04f0e000
  | .dec, .b => 0x0430e400 | .dec, .h => 0x0470e400 | .dec, .s => 0x04b0e400 | .dec, .d => 0x04f0e400

/-- The fixed bits of the operations with a bitmask immediate. -/
def bitmaskBits : BitmaskOp → Word
  | .orr => 0x05000000 | .eor => 0x05400000 | .and => 0x05800000

/-- The fixed bits of the operations with an 8-bit immediate. -/
def immediateBits : ImmediateOp → Word
  | .add => 0x2520c000 | .sub => 0x2521c000 | .subr => 0x2523c000 | .sqadd => 0x2524c000 | .uqadd => 0x2525c000
  | .sqsub => 0x2526c000 | .uqsub => 0x2527c000 | .smax => 0x2528c000 | .umax => 0x2529c000
  | .smin => 0x252ac000 | .umin => 0x252bc000 | .mul => 0x2530c000

/-- The fixed bits of the compares of vectors. -/
def compareBits : VectorRelation → Word
  | .hs => 0x24000000 | .hi => 0x24000010 | .ge => 0x24008000 | .gt => 0x24008010 | .eq => 0x2400a000
  | .ne => 0x2400a010

/-- The fixed bits of the compares with an unsigned immediate. -/
def compareUnsignedBits : UnsignedRelation → Word
  | .hs => 0x24200000 | .hi => 0x24200010 | .lo => 0x24202000 | .ls => 0x24202010

/-- The fixed bits of the compares with a signed immediate. -/
def compareSignedBits : SignedRelation → Word
  | .ge => 0x25000000 | .gt => 0x25000010 | .lt => 0x25002000 | .le => 0x25002010 | .eq => 0x25008000
  | .ne => 0x25008010

/-- The fixed bits of the bitwise operations on predicates. -/
def predicateLogicBits : PredicateOp → Word
  | .and => 0x25004000 | .bic => 0x25004010 | .eor => 0x25004200 | .sel => 0x25004210 | .ands => 0x25404000
  | .orr => 0x25804000

/-- The fixed bits of the counts on 64-bit registers. -/
def countXBits : CountOp → Word
  | .incp => 0x252c8800 | .decp => 0x252d8800 | .sqincp => 0x25288c00 | .uqincp => 0x25298c00
  | .sqdecp => 0x252a8c00 | .uqdecp => 0x252b8c00

/-- The fixed bits of the counts on 32-bit registers. -/
def countWBits : WordCountOp → Word
  | .uqincp => 0x25298800 | .uqdecp => 0x252b8800

/-- The fixed bits of the counts with a sign-extended result. -/
def countExtendedBits : ExtendedCountOp → Word
  | .sqincp => 0x25288800 | .sqdecp => 0x252a8800

/-- The fixed bits of the counts on vectors. -/
def countZBits : CountOp → Word
  | .incp => 0x252c8000 | .decp => 0x252d8000 | .sqincp => 0x25288000 | .uqincp => 0x25298000
  | .sqdecp => 0x252a8000 | .uqdecp => 0x252b8000

/-- The fixed bits of the loads of elements. -/
def ld1Bits : Element → Word
  | .b => 0xa400a000 | .h => 0xa4a0a000 | .s => 0xa540a000 | .d => 0xa5e0a000

/-- The fixed bits of the stores of elements. -/
def st1Bits : Element → Word
  | .b => 0xe400e000 | .h => 0xe4a0e000 | .s => 0xe540e000 | .d => 0xe5e0e000

/-- **The fixed bits of a form**; its fields are zero here. -/
def opcode : Form → Word
  | moveWide op width => moveWideBits op ||| wide width
  | addSubImm op width => addSubImmBits op ||| wide width
  | addSubShifted op width => addSubShiftedBits op ||| wide width
  | logicalShifted op width => logicalShiftedBits op ||| wide width
  | logicalImm op width => logicalImmBits op ||| wide width
  | branch => 0x14000000
  | branchCond => 0x54000000
  | compareBranch .cbz width => 0x34000000 ||| wide width
  | compareBranch .cbnz width => 0x35000000 ||| wide width
  | ret => 0xd65f0000
  | hlt => 0xd4400000
  | nop => 0xd503201f
  | readFlags => 0xd53b4200
  | writeFlags => 0xd51b4200
  | transfer a size => transferBits a size
  | transferScalar a lane => transferScalarBits a lane
  | moveToScalar .w => 0x1e270000
  | moveToScalar .x => 0x9e670000
  | moveFromScalar .w => 0x1e260000
  | moveFromScalar .x => 0x9e660000
  | moveElement => 0x5e000400
  | predicated op => predicatedBits op
  | reduction op => reductionBits op
  | multiplyAdd negated => if negated then 0x04006000 else 0x04004000
  | multiplyInto negated => if negated then 0x0400e000 else 0x0400c000
  | unpredicated op => unpredicatedBits op
  | permute op => permuteBits op
  | bitwise op => bitwiseBits op
  | movprfx => 0x0420bc00
  | movprfxPredicated => 0x04102000
  | index start step => indexBits start step
  | addvl => 0x04205000
  | rdvl => 0x04bf5000
  | elementCount op e => elementCountBits op e
  | dupScalar => 0x05203800
  | insrScalar => 0x05243800
  | insrSimd => 0x05343800
  | rev => 0x05383800
  | dupIndex => 0x05202000
  | sel => 0x0520c000
  | cpyScalar => 0x0528a000
  | cpySimd => 0x05208000
  | cpyImm => 0x05100000
  | bitmask op => bitmaskBits op
  | dupm => 0x05c00000
  | immediate op => immediateBits op
  | dupImm => 0x2538c000
  | compare r => compareBits r
  | compareUnsigned r => compareUnsignedBits r
  | compareSigned r => compareSignedBits r
  | predicateLogic op => predicateLogicBits op
  | ptest => 0x2550c000
  | pfirst => 0x2558c000
  | pnext => 0x2519c400
  | pfalse => 0x2518e400
  | ptrue setsFlags => if setsFlags then 0x2519e000 else 0x2518e000
  | cntp => 0x25208000
  | countX op => countXBits op
  | countW op => countWBits op
  | countExtended op => countExtendedBits op
  | countZ op => countZBits op
  | cterm onDifference => if onDifference then 0x25a02010 else 0x25a02000
  | transferP .load => 0x85800000
  | transferP .store => 0xe5800000
  | transferZ .load => 0x85804000
  | transferZ .store => 0xe5804000
  | ld1 e => ld1Bits e
  | st1 e => st1Bits e

/-! ## Lane sizes and widths -/

/-- The four lane sizes of integer vector instructions. -/
def bhsd : List LaneSize := [.b, .h, .s, .d]

/-- **The lane sizes a form accepts**; none where no operand of it has lanes to choose. -/
def lanes : Form → List LaneSize
  | transferScalar _ lane => [lane]
  | moveToScalar .w | moveFromScalar .w => [.s]
  | moveToScalar .x | moveFromScalar .x => [.d]
  | predicated .sdiv | predicated .udiv | predicated .sdivr | predicated .udivr => [.s, .d]
  | reduction .saddv => [.b, .h, .s]
  | bitwise _ => [.d]
  | elementCount _ e => [e.lane]
  | dupIndex => LaneSize.all
  | predicateLogic _ | ptest | pfirst | pfalse => [.b]
  | countZ _ => [.h, .s, .d]
  | ld1 e | st1 e => [e.lane]
  | moveWide _ _ | addSubImm _ _ | addSubShifted _ _ | logicalShifted _ _ | logicalImm _ _ | branch | branchCond
  | compareBranch _ _ | ret | hlt | nop | readFlags | writeFlags | transfer _ _ | movprfx | addvl | rdvl | cterm _
  | transferP _ | transferZ _ => []
  | moveElement | predicated _ | reduction _ | multiplyAdd _ | multiplyInto _ | unpredicated _ | permute _
  | movprfxPredicated | index _ _ | dupScalar | insrScalar | insrSimd | rev | sel | cpyScalar | cpySimd | cpyImm
  | bitmask _ | dupm | immediate _ | dupImm | compare _ | compareUnsigned _ | compareSigned _ | pnext | ptrue _ | cntp
  | countX _ | countW _ | countExtended _ => bhsd

/-- The width of the general registers of a base form. Every other form has the width that the top bit of its word
    gives, which nothing reads. -/
def registerWidth : Form → Width
  | moveWide _ width | addSubImm _ width | addSubShifted _ width | logicalShifted _ width | logicalImm _ width
  | compareBranch _ width => width
  | transfer _ size => if size.is64 then .x else .w
  | moveToScalar width | moveFromScalar width => width
  | ret | readFlags | writeFlags => .x
  | f => if f.opcode.getLsbD 31 then .x else .w

/-! ## The table -/

/-- **All forms**, in the order in which operands are tried against them. -/
def all : List Form := [
  .moveWide .movn .w, .moveWide .movn .x, .moveWide .movz .w, .moveWide .movz .x, .moveWide .movk .w,
  .moveWide .movk .x, .addSubImm .add .w, .addSubImm .add .x, .addSubImm .adds .w, .addSubImm .adds .x,
  .addSubImm .sub .w, .addSubImm .sub .x, .addSubImm .subs .w, .addSubImm .subs .x, .addSubShifted .add .w,
  .addSubShifted .add .x, .addSubShifted .adds .w, .addSubShifted .adds .x, .addSubShifted .sub .w,
  .addSubShifted .sub .x, .addSubShifted .subs .w, .addSubShifted .subs .x, .logicalShifted .and .w,
  .logicalShifted .and .x, .logicalShifted .orr .w, .logicalShifted .orr .x, .logicalShifted .eor .w,
  .logicalShifted .eor .x, .logicalShifted .ands .w, .logicalShifted .ands .x, .logicalImm .and .w,
  .logicalImm .and .x, .logicalImm .orr .w, .logicalImm .orr .x, .logicalImm .eor .w, .logicalImm .eor .x,
  .logicalImm .ands .w, .logicalImm .ands .x, .branch, .branchCond, .compareBranch .cbz .w,
  .compareBranch .cbz .x, .compareBranch .cbnz .w, .compareBranch .cbnz .x, .ret, .hlt, .nop, .readFlags,
  .writeFlags, .transfer .store .b, .transfer .load .b, .transfer .store .h, .transfer .load .h,
  .transfer .store .w, .transfer .load .w, .transfer .store .x, .transfer .load .x, .transferScalar .store .b,
  .transferScalar .load .b, .transferScalar .store .h, .transferScalar .load .h, .transferScalar .store .s,
  .transferScalar .load .s, .transferScalar .store .d, .transferScalar .load .d, .transferScalar .store .q,
  .transferScalar .load .q, .moveToScalar .w, .moveFromScalar .w, .moveToScalar .x, .moveFromScalar .x,
  .moveElement, .predicated .add, .predicated .sub, .predicated .subr, .predicated .smax, .predicated .umax,
  .predicated .smin, .predicated .umin, .predicated .mul, .predicated .sdiv, .predicated .udiv,
  .predicated .sdivr, .predicated .udivr, .predicated .orr, .predicated .eor, .predicated .and,
  .predicated .bic, .reduction .saddv, .reduction .uaddv, .reduction .smaxv, .reduction .umaxv,
  .reduction .sminv, .reduction .uminv, .reduction .orv, .reduction .eorv, .reduction .andv, .multiplyAdd false,
  .multiplyAdd true, .multiplyInto false, .multiplyInto true, .unpredicated .add, .unpredicated .sub,
  .unpredicated .sqadd, .unpredicated .uqadd, .unpredicated .sqsub, .unpredicated .uqsub, .bitwise .and,
  .bitwise .orr, .bitwise .eor, .bitwise .bic, .movprfx, .movprfxPredicated, .index .imm .imm, .index .reg .imm,
  .index .imm .reg, .index .reg .reg, .addvl, .rdvl, .elementCount .cnt .b, .elementCount .cnt .h,
  .elementCount .cnt .s, .elementCount .cnt .d, .elementCount .inc .b, .elementCount .inc .h,
  .elementCount .inc .s, .elementCount .inc .d, .elementCount .dec .b, .elementCount .dec .h,
  .elementCount .dec .s, .elementCount .dec .d, .dupScalar, .insrScalar, .insrSimd, .rev, .dupIndex,
  .permute .tbl, .permute .zip1, .permute .zip2, .permute .uzp1, .permute .uzp2, .permute .trn1, .permute .trn2,
  .sel, .cpyScalar, .cpySimd, .cpyImm, .bitmask .orr, .bitmask .eor, .bitmask .and, .dupm, .immediate .add,
  .immediate .sub, .immediate .subr, .immediate .sqadd, .immediate .uqadd, .immediate .sqsub, .immediate .uqsub,
  .immediate .smax, .immediate .umax, .immediate .smin, .immediate .umin, .immediate .mul, .dupImm,
  .compare .hs, .compare .hi, .compare .ge, .compare .gt, .compare .eq, .compare .ne, .compareUnsigned .hs,
  .compareUnsigned .hi, .compareUnsigned .lo, .compareUnsigned .ls, .compareSigned .ge, .compareSigned .gt,
  .compareSigned .lt, .compareSigned .le, .compareSigned .eq, .compareSigned .ne, .predicateLogic .and,
  .predicateLogic .bic, .predicateLogic .eor, .predicateLogic .sel, .predicateLogic .ands, .predicateLogic .orr,
  .ptest, .pfirst, .pnext, .pfalse, .ptrue false, .ptrue true, .cntp, .countX .incp, .countX .decp,
  .countZ .incp, .countZ .decp, .countX .sqincp, .countExtended .sqincp, .countZ .sqincp, .countW .uqincp,
  .countX .uqincp, .countZ .uqincp, .countX .sqdecp, .countExtended .sqdecp, .countZ .sqdecp, .countW .uqdecp,
  .countX .uqdecp, .countZ .uqdecp, .cterm false, .cterm true, .transferP .load, .transferZ .load,
  .transferP .store, .transferZ .store, .ld1 .b, .ld1 .h, .ld1 .s, .ld1 .d, .st1 .b, .st1 .h, .st1 .s, .st1 .d]

end Form

end ArmToolkit.A64
