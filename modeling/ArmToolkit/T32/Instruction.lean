import ArmToolkit.Condition
import ArmToolkit.PowerOfTwo
import ArmToolkit.T32.Form
import ArmToolkit.Text.HexBytes

/-!
# `T32.Instruction` — instructions, and their halfwords

## Contents
- **Instructions.** `Instruction` is a form with operands and a condition. `Instruction.make` finds the form of a
  mnemonic and operands.
- **Encoding.** `Instruction.halfword` gives the halfword of an instruction alone, and `Instruction.encode` its bytes:
  a conditional instruction has the IT halfword that makes it conditional in front.
- **Decoding.** `decodeHalfword` gives the instruction of a halfword.
- **Errors.** `OperandFault`, `EncodeError` and `HalfwordError`, with their wording.
-/

namespace ArmToolkit.T32

open Text

/-! ## Instructions -/

/-- **An instruction.** One that was not found a form has none, and cannot be encoded. -/
structure Instruction where
  form : Option Form := none
  cond : Condition := .al
  ops : List Operand := []
  deriving DecidableEq

/-- The greatest number of operands. -/
def maxOperands : Nat := 3

namespace Instruction

/-- Whether the instruction has a condition. -/
def isConditional (inst : Instruction) : Bool := inst.cond != .al

/-- The instruction with one more operand, and whether there was room for it. -/
def addOperand (inst : Instruction) (op : Operand) : Instruction × Bool :=
  if inst.ops.length = maxOperands then (inst, false) else ({ inst with ops := inst.ops ++ [op] }, true)

/-- Whether two instructions say the same: mnemonic, condition and operands. -/
def agrees (a b : Instruction) : Bool :=
  a.form.map Form.mnemonic == b.form.map Form.mnemonic && a.cond == b.cond && a.ops == b.ops

end Instruction

/-! ## Errors -/

/-- **What is wrong with operands** of the kinds that a form takes. -/
inductive OperandFault
  | notLow (code : Nat)
  | tooLarge (value bits : Nat)
  | notARegister
  | programCounter
  | lowCompare
  deriving DecidableEq

/-- The wording of a fault. -/
def OperandFault.message : OperandFault → String
  | notLow code => registerName code ++ " is not a low register"
  | tooLarge v n => "Immediate #" ++ dec v ++ " does not fit in " ++ dec n ++ " bits"
  | notARegister => "Invalid register"
  | programCounter => "pc is not permitted here"
  | lowCompare => "High register compare requires at least one high register"

/-- **Why an instruction has no encoding.** -/
inductive EncodeError
  | invalid
  | wrongKinds (mnemonic : Mnemonic) (count : Nat)
  | noForm
  | mismatch (mnemonic : Mnemonic)
  | unfit (mnemonic : Mnemonic) (fault : OperandFault)
  | fault (why : OperandFault)
  | highInBlock (mnemonic : Mnemonic) (code : Nat)
  | never
  deriving DecidableEq

/-- The wording of an encoding error. -/
def EncodeError.message : EncodeError → String
  | invalid => "Invalid instruction"
  | wrongKinds m n => m.name ++ " does not take " ++ dec n ++ " operands of these kinds"
  | noForm => "Instruction has no resolved form"
  | mismatch m => m.name ++ ": operands do not match the form"
  | unfit m e => m.name ++ ": " ++ e.message
  | fault e => e.message
  | highInBlock m code =>
    m.name ++ ": high register " ++ registerName code ++ " is not encodable inside an IT block"
  | never => "nv is not a valid condition"

/-- **Why a halfword has no instruction.** -/
inductive HalfwordError
  | unsupported (bits : Halfword)
  | usesPc (bits : Halfword)
  | lowCompare (bits : Halfword)
  | highInBlock (bits : Halfword) (code : Nat)
  deriving DecidableEq

/-- A halfword in messages. -/
def halfwordText (bits : Halfword) : String := "0x" ++ hexPadded 4 bits.toNat

namespace HalfwordError

/-- The wording of a decoding error. -/
def message : HalfwordError → String
  | unsupported bits => "Halfword " ++ halfwordText bits ++ " is not a supported 16-bit encoding"
  | usesPc bits => "Halfword " ++ halfwordText bits ++ " uses pc"
  | lowCompare bits => "Halfword " ++ halfwordText bits ++ " is a high register compare of two low registers"
  | highInBlock bits code =>
    "Halfword " ++ halfwordText bits ++ " uses high register " ++ registerName code ++ " inside an IT block"

/-- Whether the halfword is reserved; otherwise no instruction was given to it. -/
def isReserved : HalfwordError → Bool
  | unsupported _ => false
  | usesPc _ | lowCompare _ | highInBlock _ _ => true

end HalfwordError

/-- The name of the kind of a decoding error. -/
def decodeErrorKind (reserved : Bool) : String := if reserved then "ReservedEncoding" else "UnallocatedEncoding"

/-! ## Encoding -/

/-- A register that is not low, where only low ones can be encoded. -/
def lowFault? (code : Nat) : Option OperandFault := if isLow code then none else some (.notLow code)

/-- An immediate that does not fit in its field. -/
def immediateFault? (value bits : Nat) : Option OperandFault :=
  if value < twoPow bits then none else some (.tooLarge value bits)

/-- **The first fault of operands.** Operands of other kinds than the form takes have none. -/
def Form.fault? : Form → List Operand → Option OperandFault
  | .data _, [.register d, .register m] => lowFault? d <|> lowFault? m
  | .addSub _, [.register d, .register n, .register m] => lowFault? d <|> lowFault? n <|> lowFault? m
  | .addSubImmediate _, [.register d, .register n, .immediate v] =>
    lowFault? d <|> lowFault? n <|> immediateFault? v 3
  | .byte _, [.register d, .immediate v] => lowFault? d <|> immediateFault? v 8
  | .high op, [.register d, .register m] =>
    if 16 ≤ d ∨ 16 ≤ m then some .notARegister
    else if d = pc ∨ m = pc then some .programCounter
    else if op = .cmp ∧ isLow d ∧ isLow m then some .lowCompare
    else none
  | _, _ => none

/-- **The fields of a halfword** for operands. -/
def Form.fieldBits : Form → List Operand → Nat
  | .data _, [.register d, .register m] => m * 8 + d
  | .addSub _, [.register d, .register n, .register m] => m * 64 + n * 8 + d
  | .addSubImmediate _, [.register d, .register n, .immediate v] => v * 64 + n * 8 + d
  | .byte _, [.register d, .immediate v] => d * 256 + v
  | .high _, [.register d, .register m] => d / 8 * 128 + m * 8 + d % 8
  | _, _ => 0

/-- The forms of a mnemonic that take operands of these kinds. -/
def candidates (m : Mnemonic) (ops : List Operand) : List Form :=
  Form.all.filter fun f => f.mnemonic == m && f.shape.accepts ops

namespace Instruction

/-- **The instruction of a mnemonic and operands**: its form is the first one whose fields hold the operands. If there
    is none, the first form that takes operands of these kinds tells why. -/
def make (m : Mnemonic) (ops : List Operand) (cond : Condition := .al) : Except EncodeError Instruction :=
  if maxOperands < ops.length then .error .invalid
  else
    match (candidates m ops).find? fun f => (f.fault? ops).isNone with
    | some f => .ok { form := some f, cond, ops }
    | none =>
      match (candidates m ops).findSome? fun f => f.fault? ops with
      | some fault => .error (.unfit m fault)
      | none => .error (.wrongKinds m ops.length)

/-- The first high register among operands. -/
def highRegister? : List Operand → Option Nat
  | [] => none
  | .register code :: ops => if isLow code then highRegister? ops else some code
  | _ :: ops => highRegister? ops

/-- **The halfword of an instruction**; in an IT block only low registers can be encoded. -/
def halfword (inst : Instruction) (inBlock : Bool) : Except EncodeError Halfword :=
  match inst.form with
  | none => .error .noForm
  | some f =>
    if f.shape.accepts inst.ops = false then .error (.mismatch f.mnemonic)
    else
      match f.fault? inst.ops with
      | some why => .error (.fault why)
      | none =>
        match if inBlock then highRegister? inst.ops else none with
        | some code => .error (.highInBlock f.mnemonic code)
        | none => .ok (f.opcode ||| BitVec.ofNat 16 (f.fieldBits inst.ops))

end Instruction

/-- The two bytes of a halfword, low byte first. -/
def halfwordBytes (bits : Halfword) : List Byte := [bits.setWidth 8, (bits >>> 8).setWidth 8]

/-- The mask of an IT block of one instruction. -/
def singleMask : Nat := 8

/-- **The IT halfword** of a condition and the low four bits of a mask. -/
def itHalfword (cond : Condition) (mask : Nat := singleMask) : Halfword :=
  BitVec.ofNat 16 (0xbf00 + cond.code * 16 + mask % 16)

/-- **The bytes of an instruction.** A conditional one is a block of its own. -/
def Instruction.encode (inst : Instruction) : Except EncodeError (List Byte) :=
  if inst.cond = .nv then .error .never
  else
    match inst.halfword inst.isConditional with
    | .error e => .error e
    | .ok bits =>
      .ok ((if inst.isConditional then halfwordBytes (itHalfword inst.cond) else []) ++ halfwordBytes bits)

/-! ## Decoding -/

/-- The form whose fixed bits a halfword has. No halfword has those of two forms. -/
def formOf? (bits : Halfword) : Option Form := Form.all.find? fun f => bits &&& f.mask == f.opcode

/-- **The operands in a halfword** of a form. -/
def Form.operands (f : Form) (bits : Halfword) : List Operand :=
  let n := bits.toNat
  match f.shape with
  | .dataProcessing => [.register (n % 8), .register (n / 8 % 8)]
  | .addSubRegister => [.register (n % 8), .register (n / 8 % 8), .register (n / 64 % 8)]
  | .addSubImm3 => [.register (n % 8), .register (n / 8 % 8), .immediate (n / 64 % 8)]
  | .imm8 => [.register (n / 256 % 8), .immediate (n % 256)]
  | .highRegister => [.register (n / 128 % 2 * 8 + n % 8), .register (n / 8 % 16)]

/-- What is reserved about operands that were decoded. -/
def reservedOperands? (f : Form) (bits : Halfword) : Option HalfwordError :=
  match f.fault? (f.operands bits) with
  | some .programCounter => some (.usesPc bits)
  | some .lowCompare => some (.lowCompare bits)
  | _ => none

/-- **The instruction of a halfword**, with the condition that its IT block gives it, if it is in one. -/
def decodeHalfword (bits : Halfword) (cond : Condition) (inBlock : Bool) : Except HalfwordError Instruction :=
  match formOf? bits with
  | none => .error (.unsupported bits)
  | some f =>
    match reservedOperands? f bits with
    | some e => .error e
    | none =>
      match if inBlock then Instruction.highRegister? (f.operands bits) else none with
      | some code => .error (.highInBlock bits code)
      | none => .ok { form := some f, cond, ops := f.operands bits }

end ArmToolkit.T32
