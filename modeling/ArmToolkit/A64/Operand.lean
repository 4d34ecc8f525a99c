import ArmToolkit.A64.Lane

/-!
# `A64.Operand` — registers and operands

## Contents
- **Registers.** `XReg` (general), `VReg` (scalar view), `ZReg` (vector) and `PReg` (predicate) are the registers
  that assembler methods take.
- **Operands.** `Operand` is one operand of an instruction as the encoder sees it: a kind, and the fields that
  some kind uses. The constructors `Operand.ofX` … `Operand.label` fill in only the fields that their kind uses.

Register codes and shift amounts are plain numbers: what the encoder accepts is decided there, not here.
-/

namespace ArmToolkit.A64

/-! ## Registers -/

/-- The width of a general register. -/
inductive Width
  | w | x
  deriving DecidableEq

/-- The number of bits of a general register. -/
def Width.bits : Width → Nat
  | .w => 32
  | .x => 64

/-- A shift of a register operand. -/
inductive ShiftType
  | lsl | lsr | asr | ror
  deriving DecidableEq, Inhabited

namespace ShiftType

/-- The shifts in the order of their codes. -/
def all : List ShiftType := [lsl, lsr, asr, ror]

/-- The two-bit code of a shift. -/
def code : ShiftType → Nat
  | lsl => 0 | lsr => 1 | asr => 2 | ror => 3

/-- The shift of a two-bit code. -/
def ofCode (n : Nat) : ShiftType :=
  match n with
  | 0 => lsl
  | 1 => lsr
  | 2 => asr
  | _ => ror

/-- The name of a shift. -/
def name : ShiftType → String
  | lsl => "lsl" | lsr => "lsr" | asr => "asr" | ror => "ror"

end ShiftType

/-- What a governing predicate does to inactive lanes: zero them, or keep them. -/
inductive Qualifier
  | zeroing | merging
  deriving DecidableEq

/-- A general register. Code 31 is the zero register or the stack pointer, as the operand's place decides. -/
structure XReg where
  code : Nat
  width : Width

/-- A scalar view of a vector register. -/
structure VReg where
  code : Nat
  lane : Option LaneSize

/-- A scalable vector register, with the lane size it is viewed at, if any. -/
structure ZReg where
  code : Nat
  lane : Option LaneSize

/-- A predicate register, with a lane size or a qualifier, if any. -/
structure PReg where
  code : Nat
  lane : Option LaneSize
  qualifier : Option Qualifier

namespace XReg

/-- The 64-bit register of a code. -/
def x (code : Nat) : XReg := ⟨code, .x⟩

/-- The 32-bit register of a code. -/
def w (code : Nat) : XReg := ⟨code, .w⟩

/-- The zero register of a width. -/
def zero (width : Width) : XReg := ⟨31, width⟩

/-- The link register. -/
def link : XReg := ⟨30, .x⟩

end XReg

namespace ZReg

/-- The same register viewed at a lane size. -/
def withLane (r : ZReg) (lane : Option LaneSize) : ZReg := { r with lane }

/-- The same register without a lane size. -/
def unsized (r : ZReg) : ZReg := { r with lane := none }

end ZReg

namespace PReg

/-- The same register viewed at a lane size, without a qualifier. -/
def withLane (r : PReg) (lane : Option LaneSize) : PReg := ⟨r.code, lane, none⟩

/-- The same register alone. -/
def plain (r : PReg) : PReg := ⟨r.code, none, none⟩

/-- The same register as a zeroing governing predicate. -/
def zeroing (r : PReg) : PReg := ⟨r.code, none, some .zeroing⟩

/-- The same register as a merging governing predicate. -/
def merging (r : PReg) : PReg := ⟨r.code, none, some .merging⟩

end PReg

/-! ## Operands -/

/-- The kinds of operand. -/
inductive OperandKind
  | none | x | w | v | z | p | imm | pattern | mem | memMulVl | label
  deriving DecidableEq, Inhabited

/-- The name of a kind. -/
def OperandKind.name : OperandKind → String
  | none => "none" | x => "x" | w => "w" | v => "v" | z => "z" | p => "p" | imm => "imm"
  | pattern => "pattern" | mem => "mem" | memMulVl => "mem_mul_vl" | label => "label"

/-- **An operand.** `reg` is the register code, or the base register of a memory operand; `shift` is the left shift
    of an immediate or the shift amount of a register; `imm` is an immediate, a pattern, a memory offset, an
    element index or a branch offset, as a signed 64-bit number. -/
structure Operand where
  kind : OperandKind := .none
  reg : Nat := 0
  lane : Option LaneSize := none
  qualifier : Option Qualifier := none
  shiftType : ShiftType := .lsl
  shift : Nat := 0
  imm : BitVec 64 := 0
  deriving DecidableEq, Inhabited

namespace Operand

/-- A general register. -/
def ofX (r : XReg) : Operand :=
  { kind := match r.width with
      | .w => .w
      | .x => .x
    reg := r.code }

/-- A general register with a shift. -/
def shifted (r : XReg) (type : ShiftType) (amount : Nat) : Operand :=
  { ofX r with shiftType := type, shift := amount }

/-- A scalar register. -/
def ofV (r : VReg) : Operand := { kind := .v, reg := r.code, lane := r.lane }

/-- A vector register. -/
def ofZ (r : ZReg) : Operand := { kind := .z, reg := r.code, lane := r.lane }

/-- A predicate register. -/
def ofP (r : PReg) : Operand := { kind := .p, reg := r.code, lane := r.lane, qualifier := r.qualifier }

/-- An immediate. -/
def ofImm (value : BitVec 64) : Operand := { kind := .imm, imm := value }

/-- An immediate with a left shift. -/
def shiftedImm (value : BitVec 64) (shift : Nat) : Operand := { kind := .imm, imm := value, shift }

/-- A predicate pattern. -/
def ofPattern (bits : Nat) : Operand := { kind := .pattern, imm := BitVec.ofNat 64 bits }

/-- A memory operand: a base register and an offset in bytes. -/
def memOffset (base : Nat) (offset : BitVec 64) : Operand := { kind := .mem, reg := base, imm := offset }

/-- A memory operand: a base register and an offset in vector or predicate lengths. -/
def mulVl (base : Nat) (offset : BitVec 64) : Operand := { kind := .memMulVl, reg := base, imm := offset }

/-- A branch target, as a byte offset from the branch. -/
def label (offset : BitVec 64) : Operand := { kind := .label, imm := offset }

/-- Whether the operand is a general register of either width. -/
def isGeneral (o : Operand) : Bool := o.kind == .x || o.kind == .w

/-- The low eight bits of the immediate, which is all that a pattern holds. -/
def patternBits (o : Operand) : Nat := o.imm.toNat % 256

end Operand

/-- Operand `i` of a list; past the end it is the operand of no kind. -/
def arg (ops : List Operand) (i : Nat) : Operand := ops.getD i {}

end ArmToolkit.A64
