import ArmToolkit.Text.Ascii
import ArmToolkit.Text.Numeral

/-!
# `T32.Form` — registers, mnemonics and the forms of 16-bit instructions

## Contents
- **Registers.** The names of the sixteen registers, and reading them.
- **Operands.** `Operand` is a register or an immediate.
- **Mnemonics.** `Mnemonic`, with the capitalised names of trace text.
- **Forms.** `Form` is a shape together with one of its operations, so that nothing else can be built. `Form.all` is in
  the order in which forms are tried: forms of low registers come before those of any register.
-/

namespace ArmToolkit.T32

open Text

/-- A 16-bit instruction word. -/
abbrev Halfword := BitVec 16

/-! ## Registers -/

/-- The names of the registers. -/
def registerNames : List String :=
  ["r0", "r1", "r2", "r3", "r4", "r5", "r6", "r7", "r8", "r9", "r10", "r11", "r12", "sp", "lr", "pc"]

/-- The name of a register; a code outside the register file has none. -/
def registerName (code : Nat) : String := registerNames.getD code "<invalid>"

/-- The number of the program counter. -/
def pc : Nat := 15

/-- Whether a register is one of the lowest eight. -/
def isLow (code : Nat) : Bool := decide (code < 8)

/-- A register by its number behind an `r`; what follows the digits is ignored. -/
def numberedRegister? (name : String) : Option Nat :=
  match name.toList with
  | c :: cs =>
    if lower c = 'r' then
      match IntKind.u32.scan 10 cs with
      | some (n, _) => if n < 16 then some n.toNat else none
      | none => none
    else none
  | [] => none

/-- **The register that a name stands for**, in any case: one of the names, or any number below sixteen. -/
def registerOfName? (name : String) : Option Nat :=
  ((List.range 16).find? fun i => equalNoCase name (registerName i)) <|> numberedRegister? name

/-! ## Operands -/

/-- **An operand.** -/
inductive Operand
  | none
  | register (code : Nat)
  | immediate (value : Nat)
  deriving DecidableEq, Inhabited

/-! ## Mnemonics -/

/-- An instruction name. -/
inductive Mnemonic
  | and | eor | lsl | lsr | asr | adc | sbc | ror | tst | rsb | cmp | cmn | orr | mul | bic | mvn | mov | add | sub
  deriving DecidableEq, Inhabited

namespace Mnemonic

/-- The mnemonics in order. -/
def all : List Mnemonic :=
  [and, eor, lsl, lsr, asr, adc, sbc, ror, tst, rsb, cmp, cmn, orr, mul, bic, mvn, mov, add, sub]

/-- The name of a mnemonic, which is capitalised. -/
def name : Mnemonic → String
  | and => "And" | eor => "Eor" | lsl => "Lsl" | lsr => "Lsr" | asr => "Asr" | adc => "Adc" | sbc => "Sbc"
  | ror => "Ror" | tst => "Tst" | rsb => "Rsb" | cmp => "Cmp" | cmn => "Cmn" | orr => "Orr" | mul => "Mul"
  | bic => "Bic" | mvn => "Mvn" | mov => "Mov" | add => "Add" | sub => "Sub"

/-- The mnemonic that a name stands for, in any case. -/
def ofName? (s : String) : Option Mnemonic := all.find? fun m => equalNoCase s m.name

end Mnemonic

/-! ## Forms -/

/-- The operations on two low registers, the first of which is also the destination. -/
inductive DataOp
  | and | eor | lsl | lsr | asr | adc | sbc | ror | tst | rsb | cmp | cmn | orr | mul | bic | mvn
  deriving DecidableEq

namespace DataOp

/-- The operations in the order of their codes. -/
def all : List DataOp := [and, eor, lsl, lsr, asr, adc, sbc, ror, tst, rsb, cmp, cmn, orr, mul, bic, mvn]

/-- The four-bit code of an operation. -/
def code : DataOp → Nat
  | and => 0 | eor => 1 | lsl => 2 | lsr => 3 | asr => 4 | adc => 5 | sbc => 6 | ror => 7 | tst => 8 | rsb => 9
  | cmp => 10 | cmn => 11 | orr => 12 | mul => 13 | bic => 14 | mvn => 15

/-- The mnemonic of an operation. -/
def mnemonic : DataOp → Mnemonic
  | and => .and | eor => .eor | lsl => .lsl | lsr => .lsr | asr => .asr | adc => .adc | sbc => .sbc | ror => .ror
  | tst => .tst | rsb => .rsb | cmp => .cmp | cmn => .cmn | orr => .orr | mul => .mul | bic => .bic | mvn => .mvn

end DataOp

/-- Addition and subtraction with three operands. -/
inductive AddSub
  | add | sub
  deriving DecidableEq

/-- The operations with an 8-bit immediate. -/
inductive ByteOp
  | mov | cmp | add | sub
  deriving DecidableEq

/-- The operations on two registers of any number but the program counter. -/
inductive HighOp
  | add | cmp | mov
  deriving DecidableEq

/-- How the fields of a halfword are laid out. -/
inductive Shape
  | dataProcessing | addSubRegister | addSubImm3 | imm8 | highRegister
  deriving DecidableEq

namespace Shape

/-- The shapes in order. -/
def all : List Shape := [dataProcessing, addSubRegister, addSubImm3, imm8, highRegister]

/-- The name of a shape. -/
def name : Shape → String
  | dataProcessing => "DataProcessing"
  | addSubRegister => "AddSubRegister"
  | addSubImm3 => "AddSubImm3"
  | imm8 => "Imm8"
  | highRegister => "HighRegister"

/-- Whether operands are of the kinds and the number that a shape takes. -/
def accepts : Shape → List Operand → Bool
  | dataProcessing, [.register _, .register _] => true
  | highRegister, [.register _, .register _] => true
  | addSubRegister, [.register _, .register _, .register _] => true
  | addSubImm3, [.register _, .register _, .immediate _] => true
  | imm8, [.register _, .immediate _] => true
  | _, _ => false

end Shape

/-- **A form**: a shape together with one of its operations. -/
inductive Form
  | data (op : DataOp)
  | addSub (op : AddSub)
  | addSubImmediate (op : AddSub)
  | byte (op : ByteOp)
  | high (op : HighOp)
  deriving DecidableEq

namespace Form

/-- **All forms**, in the order in which they are tried. -/
def all : List Form :=
  DataOp.all.map data ++
    [addSub .add, addSub .sub, addSubImmediate .add, addSubImmediate .sub,
      byte .mov, byte .cmp, byte .add, byte .sub, high .add, high .cmp, high .mov]

/-- The shape of a form. -/
def shape : Form → Shape
  | data _ => .dataProcessing
  | addSub _ => .addSubRegister
  | addSubImmediate _ => .addSubImm3
  | byte _ => .imm8
  | high _ => .highRegister

/-- The mnemonic of a form. -/
def mnemonic : Form → Mnemonic
  | data op => op.mnemonic
  | addSub .add | addSubImmediate .add => .add
  | addSub .sub | addSubImmediate .sub => .sub
  | byte .mov => .mov
  | byte .cmp => .cmp
  | byte .add => .add
  | byte .sub => .sub
  | high .add => .add
  | high .cmp => .cmp
  | high .mov => .mov

/-- The fixed bits of a form. -/
def opcode : Form → Halfword
  | data op => BitVec.ofNat 16 (0x4000 + 64 * op.code)
  | addSub .add => 0x1800
  | addSub .sub => 0x1a00
  | addSubImmediate .add => 0x1c00
  | addSubImmediate .sub => 0x1e00
  | byte .mov => 0x2000
  | byte .cmp => 0x2800
  | byte .add => 0x3000
  | byte .sub => 0x3800
  | high .add => 0x4400
  | high .cmp => 0x4500
  | high .mov => 0x4600

/-- Which bits of a form are fixed. -/
def mask (f : Form) : Halfword :=
  match f.shape with
  | .dataProcessing => 0xffc0
  | .addSubRegister | .addSubImm3 => 0xfe00
  | .imm8 => 0xf800
  | .highRegister => 0xff00

/-- The form of a mnemonic and a shape, if there is one. -/
def of? (m : Mnemonic) (s : Shape) : Option Form := all.find? fun f => f.mnemonic == m && f.shape == s

end Form

end ArmToolkit.T32
