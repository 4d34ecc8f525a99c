import ArmToolkit.A64.Arithmetic
import ArmToolkit.A64.Registers

/-!
# `A64.Semantics.General` — instructions on general registers

Moves of immediates, addition and subtraction, bitwise operations, branches, and copies between general and scalar
registers. Each function gives the registers after the instruction, except the program counter, or the target of a
branch.
-/

namespace ArmToolkit.A64.Semantics

/-- The immediate of an operand with its left shift. -/
def shiftedValue (op : Operand) : BitVec 64 := op.imm <<< op.shift

/-- A 16-bit immediate moved into a register. -/
def moveWide (op : MoveWideOp) (ops : List Operand) (r : Registers) : Registers :=
  let rd := arg ops 0
  let imm := shiftedValue (arg ops 1)
  let halfword := (0xffff : BitVec 64) <<< (arg ops 1).shift
  let value :=
    match op with
    | .movz => imm
    | .movn => ~~~imm
    | .movk => (r.general rd .zero &&& ~~~halfword) ||| imm
  r.setGeneral rd value .zero

/-- The value of a register operand with its shift, as a number of `n` bits. -/
def shiftedRegister (n : Nat) (op : Operand) (r : Registers) : BitVec n :=
  op.shiftType.apply ((r.general op .zero).setWidth n) op.shift

/-- The sum or difference of two numbers with its flags. -/
def addSub {n : Nat} (op : AddSubOp) (a b : BitVec n) : BitVec n × Flags :=
  if op.subtracts then addWithCarry a (~~~b) true else addWithCarry a b false

/-- The registers with a sum or difference written, and its flags if the operation sets them. -/
def writeSum {n : Nat} (op : AddSubOp) (rd : Operand) (c : Code31) (sum : BitVec n × Flags) (r : Registers) :
    Registers :=
  let r := if op.setsFlags then { r with flags := sum.2 } else r
  r.setGeneral rd (sum.1.setWidth 64) c

/-- Addition or subtraction of an immediate. -/
def addSubImm (op : AddSubOp) (width : Width) (ops : List Operand) (r : Registers) : Registers :=
  let a := (r.general (arg ops 1) .stack).setWidth width.bits
  let b := (shiftedValue (arg ops 2)).setWidth width.bits
  writeSum op (arg ops 0) (if op.setsFlags then .zero else .stack) (addSub op a b) r

/-- Addition or subtraction of a shifted register. -/
def addSubShifted (op : AddSubOp) (width : Width) (ops : List Operand) (r : Registers) : Registers :=
  let a := (r.general (arg ops 1) .zero).setWidth width.bits
  writeSum op (arg ops 0) .zero (addSub op a (shiftedRegister width.bits (arg ops 2) r)) r

/-- The result of a bitwise operation. -/
def logicalResult {n : Nat} (op : LogicalOp) (a b : BitVec n) : BitVec n :=
  match op with
  | .and | .ands => a &&& b
  | .orr => a ||| b
  | .eor => a ^^^ b

/-- The registers with the result of a bitwise operation written, and its flags if the operation sets them. -/
def writeLogical {n : Nat} (op : LogicalOp) (rd : Operand) (c : Code31) (a b : BitVec n) (r : Registers) :
    Registers :=
  let result := logicalResult op a b
  let r := if op = .ands then { r with flags := logicalFlags result } else r
  r.setGeneral rd (result.setWidth 64) c

/-- A bitwise operation with an immediate. -/
def logicalImm (op : LogicalOp) (width : Width) (ops : List Operand) (r : Registers) : Registers :=
  let a := (r.general (arg ops 1) .zero).setWidth width.bits
  writeLogical op (arg ops 0) (if op = .ands then .zero else .stack) a ((arg ops 2).imm.setWidth width.bits) r

/-- A bitwise operation with a shifted register. -/
def logicalShifted (op : LogicalOp) (width : Width) (ops : List Operand) (r : Registers) : Registers :=
  let a := (r.general (arg ops 1) .zero).setWidth width.bits
  writeLogical op (arg ops 0) .zero a (shiftedRegister width.bits (arg ops 2) r) r

/-- The target of a branch, as an offset from the branch. -/
def branchTarget (offset : Operand) (r : Registers) : BitVec 64 := r.pc + offset.imm

/-- Whether a compare and branch is taken. -/
def zeroTest (op : ZeroTest) (rt : Operand) (r : Registers) : Bool :=
  (r.general rt .zero == 0) == (op == .cbz)

/-- The flags read into a register. -/
def readFlags (ops : List Operand) (r : Registers) : Registers :=
  r.setGeneral (arg ops 0) (r.flags.word.setWidth 64) .zero

/-- The flags written from a register. -/
def writeFlags (ops : List Operand) (r : Registers) : Registers :=
  { r with flags := .ofWord ((r.general (arg ops 0) .zero).setWidth 32) }

/-- The number of bits of a scalar operand. -/
def scalarBits (op : Operand) : Nat :=
  match op.lane with
  | some l => l.bits
  | none => 0

/-- A general register copied to a scalar register. -/
def moveToScalar (ops : List Operand) (r : Registers) : Registers :=
  let n := scalarBits (arg ops 0)
  r.writeScalar (arg ops 0).reg n ((r.general (arg ops 1) .zero).setWidth n)

/-- A scalar register copied to a general register. -/
def moveFromScalar (ops : List Operand) (r : Registers) : Registers :=
  r.setGeneral (arg ops 0) ((r.scalar (arg ops 1).reg (scalarBits (arg ops 1))).setWidth 64) .zero

/-- An element copied to a scalar register. -/
def moveElement (ops : List Operand) (r : Registers) : Registers :=
  let n := scalarBits (arg ops 0)
  r.writeScalar (arg ops 0).reg n (r.zLane (arg ops 1).reg n (arg ops 2).imm.toNat)

end ArmToolkit.A64.Semantics
