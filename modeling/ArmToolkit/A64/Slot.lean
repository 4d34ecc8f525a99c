import ArmToolkit.A64.BitmaskImmediate
import ArmToolkit.A64.Field
import ArmToolkit.A64.OperandText
import ArmToolkit.A64.Operation
import ArmToolkit.PowerOfTwo

/-!
# `A64.Slot` — the places that operands take in an instruction

An instruction is a row of slots. A slot says everything about one operand: which kind of operand it takes, which
fields of the word hold it, how it is read back, which of its values cannot be encoded, and how it is printed.

## Contents
- **Slots.** `Slot`, and `LaneRule` for the lane size that a register slot is read with.
- **One slot at a time.** `Slot.accepts`, `Slot.fault?`, `Slot.fields`, `Slot.values`, `Slot.read?`, `Slot.text`.
- **Lane sizes.** `Sizing` says where a word keeps the lane size that its slots share.
- **Faults.** `OperandFault` lists the reasons why an operand cannot be encoded, with their wording.
-/

namespace ArmToolkit.A64

open Text

/-! ## Slots -/

/-- The lane size that a register is read with: none, the one of the instruction, or always a doubleword. -/
inductive LaneRule
  | none | element | double
  deriving DecidableEq

/-- The lane size that a rule gives, where `lane` is the lane size of the instruction. -/
def LaneRule.apply (rule : LaneRule) (lane : Option LaneSize) : Option LaneSize :=
  match rule with
  | .none => Option.none
  | .element => lane
  | .double => some .d

/-- **The place of one operand.** -/
inductive Slot
  /-- A general register of a fixed width. -/
  | general (field : Field) (width : Width) (code31 : Code31)
  /-- A general register as wide as the lanes need: 64 bits for doublewords, otherwise 32. -/
  | generalOfLane (field : Field) (code31 : Code31)
  /-- A general register with a shift. -/
  | shifted (width : Width) (rotates : Bool)
  /-- A scalar register of a fixed size. -/
  | scalarAt (field : Field) (lane : LaneSize)
  /-- A scalar register. -/
  | scalar (field : Field) (rule : LaneRule)
  /-- A vector register. -/
  | vector (field : Field) (rule : LaneRule)
  /-- A predicate register with a fixed qualifier. -/
  | predicate (field : Field) (rule : LaneRule) (qualifier : Option Qualifier)
  /-- A governing predicate of either qualifier; one bit of the word tells which. -/
  | governing (field mergingBit : Field)
  /-- The register of an earlier slot once more. -/
  | again (slot : Slot)
  /-- A 16-bit immediate for one halfword of a register. -/
  | halfword (width : Width)
  /-- A 12-bit immediate, shifted by 12 or not. -/
  | arithmetic
  /-- A bitmask immediate for a general register. -/
  | bitmask (width : Width)
  /-- A bitmask immediate for the lanes of a vector. -/
  | laneBitmask
  /-- A branch offset. -/
  | target (field : Field)
  /-- A 16-bit code. -/
  | code
  /-- An unsigned immediate. -/
  | unsigned (field : Field)
  /-- A signed immediate. -/
  | signed (field : Field)
  /-- An 8-bit immediate, signed or unsigned, that can be shifted by eight, or not. -/
  | byte (isSigned shiftable : Bool)
  /-- A multiplier from 1 to 16. -/
  | multiplier
  /-- The start or the step of an index vector. -/
  | term (field : Field) (source : IndexSource)
  /-- The index of an element in a scalar register. -/
  | scalarIndex
  /-- The index of an element in a vector register. -/
  | vectorIndex
  /-- A predicate pattern. -/
  | pattern
  /-- A base register and an unsigned offset in units of the transfer. -/
  | offset (scale : Nat)
  /-- A base register and a signed offset in register lengths, in nine bits. -/
  | registerOffset
  /-- A base register and a signed offset in vector lengths, in four bits. -/
  | vectorOffset
  deriving DecidableEq

/-! ## Faults -/

/-- **Why an operand cannot be encoded.** -/
inductive OperandFault
  | outside (value least greatest : Int)
  | shiftedImmediate
  | laneNotAllowed (lane : Option LaneSize)
  | laneExpected (lane : Option LaneSize)
  | notTied (other : Nat)
  | registerLimit (count : Nat)
  | widthExpected (is64 : Bool)
  | shiftedRegister
  | noSuchRegister (code : Nat)
  | noSuchPredicate (code : Nat)
  | byteShift (shiftable : Bool)
  | byteShiftOfBytes
  | vectorOffset (value least greatest : Int)
  | laneTooNarrow (bits : Nat)
  | notBitmask
  | halfwordShift (bits : Nat)
  | arithmeticShift
  | rotation
  | shiftAmount (bits : Nat)
  | wordTooNarrow
  | unreachable (offset : Int)
  | misplaced (unit greatest : Nat)
  | widthDiffers

/-- The name of a lane size in messages. -/
def laneWord (lane : Option LaneSize) : String :=
  match lane with
  | some l => l.name
  | none => "none"

/-- The wording of a fault. -/
def OperandFault.message : OperandFault → String
  | outside v a b => "value " ++ decInt v ++ " is outside [" ++ decInt a ++ ", " ++ decInt b ++ "]"
  | shiftedImmediate => "immediate shift is not allowed"
  | laneNotAllowed lane => "lane size '" ++ laneWord lane ++ "' is not allowed"
  | laneExpected lane => "expected lane size '" ++ laneWord lane ++ "'"
  | notTied other => "must be the same register as operand " ++ dec (other + 1)
  | registerLimit count => "register must be below " ++ dec count
  | widthExpected is64 => "expected a " ++ (if is64 then "64-bit" else "32-bit") ++ " register"
  | shiftedRegister => "register shift is not allowed"
  | noSuchRegister code => "invalid register code " ++ dec code
  | noSuchPredicate code => "invalid predicate register p" ++ dec code
  | byteShift shiftable => "immediate shift must be 0" ++ (if shiftable then " or 8" else "")
  | byteShiftOfBytes => "shifted immediate is not allowed with byte lanes"
  | vectorOffset v a b =>
    "offset " ++ decInt v ++ " mul vl is outside [" ++ decInt a ++ ", " ++ decInt b ++ "]"
  | laneTooNarrow bits => "value does not fit in a " ++ dec bits ++ "-bit lane"
  | notBitmask => "not encodable as a bitmask immediate"
  | halfwordShift bits => "shift must be a multiple of 16 below " ++ dec bits
  | arithmeticShift => "shift must be 0 or 12"
  | rotation => "ror is not allowed"
  | shiftAmount bits => "shift amount must be below " ++ dec bits
  | wordTooNarrow => "value does not fit in 32 bits"
  | unreachable offset => "branch offset " ++ decInt offset ++ " is not encodable"
  | misplaced unit greatest => "offset must be a multiple of " ++ dec unit ++ " in [0, " ++ dec greatest ++ "]"
  | widthDiffers => "must be the same width as operand 1"

/-- The fault of a value outside a range. -/
def rangeFault? (v least greatest : Int) : Option OperandFault :=
  if least ≤ v ∧ v ≤ greatest then none else some (.outside v least greatest)

/-- The fault of an immediate with a shift. -/
def shiftFault? (op : Operand) : Option OperandFault :=
  if op.shift = 0 then none else some .shiftedImmediate

/-- Whether a number fits in `bits` bits, read as unsigned or as signed. -/
def fitsEither (bits : Nat) (v : Int) : Bool :=
  decide ((0 ≤ v ∧ v < twoPow bits) ∨ (-(twoPow (bits - 1) : Int) ≤ v ∧ v < twoPow (bits - 1)))

/-- The width in bits of a lane size, and zero for none. -/
def laneBits (lane : Option LaneSize) : Nat :=
  match lane with
  | some l => l.bits
  | none => 0

/-- The encoded size of a lane. -/
def laneLog2 (lane : Option LaneSize) : Nat :=
  match lane with
  | some l => l.log2
  | none => 5

/-- Whether lanes of this size are held by 64-bit general registers. -/
def isDouble (lane : Option LaneSize) : Bool := lane == some .d

/-! ## One slot at a time -/

namespace Slot

/-- The field of a destination register. -/
def rd : Field := ⟨0, 5⟩

/-- The field of a first source register. -/
def rn : Field := ⟨5, 5⟩

/-- The field of a second source register. -/
def rm : Field := ⟨16, 5⟩

/-- **Whether the slot takes an operand**, by its kind. Values and lane sizes are looked at later. -/
def accepts : Slot → Operand → Bool
  | general _ .x _, op | shifted .x _, op => op.kind == .x
  | general _ .w _, op | shifted .w _, op => op.kind == .w
  | generalOfLane _ _, op | term _ .reg, op => op.isGeneral
  | scalarAt _ lane, op => op.kind == .v && op.lane == some lane
  | scalar _ _, op => op.kind == .v
  | vector _ _, op => op.kind == .z
  | predicate _ _ q, op => op.kind == .p && op.qualifier == q
  | governing _ _, op => op.kind == .p && op.qualifier.isSome
  | again s, op => s.accepts op
  | halfword _, op | arithmetic, op | bitmask _, op | laneBitmask, op | code, op | unsigned _, op | signed _, op
  | byte _ _, op | multiplier, op | term _ .imm, op | scalarIndex, op | vectorIndex, op => op.kind == .imm
  | target _, op => op.kind == .label
  | pattern, op => op.kind == .pattern
  | offset _, op => op.kind == .mem
  | registerOffset, op | vectorOffset, op => op.kind == .memMulVl

/-- The encoding of the bitmask immediate in the lanes of a vector. -/
def laneBitmask? (lane : Option LaneSize) (op : Operand) : Option Nat :=
  BitmaskImmediate.encode? (BitmaskImmediate.replicate op.imm (laneBits lane)) 64

/-- The encoding of the bitmask immediate in a general register. -/
def bitmask? (width : Width) (op : Operand) : Option Nat :=
  match width with
  | .x => BitmaskImmediate.encode? op.imm 64
  | .w => BitmaskImmediate.encode? (op.imm &&& BitmaskImmediate.onesBelow 32) 32

/-- The fault of a general register that is not as wide as the lanes need. -/
def widthFault? (lane : Option LaneSize) (op : Operand) : Option OperandFault :=
  if (op.kind == .x) = isDouble lane then none else some (.widthExpected (isDouble lane))

/-- The fault of an immediate outside the signed range of a field, or with a shift. -/
def signedFault? (f : Field) (op : Operand) : Option OperandFault :=
  rangeFault? op.value (-(twoPow (f.width - 1) : Int)) (twoPow (f.width - 1) - 1) <|> shiftFault? op

/-- The fault of an offset in vector lengths outside the signed range of some bits. -/
def vectorOffsetFault? (bits : Nat) (op : Operand) : Option OperandFault :=
  if -(twoPow (bits - 1) : Int) ≤ op.value ∧ op.value < twoPow (bits - 1) then none
  else some (.vectorOffset op.value (-(twoPow (bits - 1) : Int)) (twoPow (bits - 1) - 1))

/-- **Why the value of an operand cannot be encoded in the slot**, where `lane` is the lane size of the instruction.
    Of two faults the one named first is reported. Register codes are not looked at here. -/
def fault? (slot : Slot) (lane : Option LaneSize) (op : Operand) : Option OperandFault :=
  match slot with
  | generalOfLane _ _ | term _ .reg => widthFault? lane op
  | shifted width rotates =>
    if !rotates && op.shiftType == .ror then some .rotation
    else if op.shift < width.bits then none
    else some (.shiftAmount width.bits)
  | halfword width =>
    rangeFault? op.value 0 65535 <|>
      if op.shift % 16 = 0 ∧ op.shift < width.bits then none else some (.halfwordShift width.bits)
  | arithmetic =>
    rangeFault? op.value 0 4095 <|> if op.shift = 0 ∨ op.shift = 12 then none else some .arithmeticShift
  | bitmask width =>
    shiftFault? op <|>
      if width = .w ∧ fitsEither 32 op.value = false then some .wordTooNarrow
      else if (bitmask? width op).isSome then none
      else some .notBitmask
  | laneBitmask =>
    shiftFault? op <|>
      if fitsEither (laneBits lane) op.value = false then some (.laneTooNarrow (laneBits lane))
      else if (laneBitmask? lane op).isSome then none
      else some .notBitmask
  | target f =>
    if op.value % 4 = 0 ∧ -(twoPow (f.width + 1) : Int) ≤ op.value ∧ op.value < twoPow (f.width + 1) then none
    else some (.unreachable op.value)
  | code => rangeFault? op.value 0 65535 <|> shiftFault? op
  | unsigned f => rangeFault? op.value 0 (twoPow f.width - 1) <|> shiftFault? op
  | signed f | term f .imm => signedFault? f op
  | byte isSigned shiftable =>
    (if op.shift = 0 then none
     else if shiftable = false ∨ op.shift ≠ 8 then some (.byteShift shiftable)
     else if lane = some .b then some .byteShiftOfBytes
     else none) <|>
    (if isSigned then rangeFault? op.value (-128) 127 else rangeFault? op.value 0 255)
  | multiplier => rangeFault? op.value 1 16 <|> shiftFault? op
  | scalarIndex => rangeFault? op.value 0 (16 / twoPow (laneLog2 lane) - 1) <|> shiftFault? op
  | vectorIndex => shiftFault? op <|> rangeFault? op.value 0 (64 / twoPow (laneLog2 lane) - 1)
  | pattern => rangeFault? op.value 0 31
  | offset scale =>
    if op.value % twoPow scale = 0 ∧ 0 ≤ op.value ∧ op.value / twoPow scale ≤ 4095 then none
    else some (.misplaced (twoPow scale) (4095 * twoPow scale))
  | registerOffset => vectorOffsetFault? 9 op
  | vectorOffset => vectorOffsetFault? 4 op
  | general _ _ _ | scalarAt _ _ | scalar _ _ | vector _ _ | predicate _ _ _ | governing _ _ | again _ => none

/-- The fields that hold the operand. -/
def fields : Slot → List Field
  | general f _ _ | generalOfLane f _ | scalarAt f _ | scalar f _ | vector f _ | predicate f _ _ | target f
  | unsigned f | signed f | term f _ => [f]
  | shifted _ _ => [⟨22, 2⟩, rm, ⟨10, 6⟩]
  | governing f m => [f, m]
  | again _ => []
  | halfword _ => [⟨21, 2⟩, ⟨5, 16⟩]
  | arithmetic => [⟨22, 1⟩, ⟨10, 12⟩]
  | bitmask _ => [⟨10, 13⟩]
  | laneBitmask => [⟨5, 13⟩]
  | code => [⟨5, 16⟩]
  | byte _ _ => [⟨13, 1⟩, ⟨5, 8⟩]
  | multiplier => [⟨16, 4⟩]
  | scalarIndex => [⟨16, 5⟩]
  | vectorIndex => [⟨22, 2⟩, ⟨16, 5⟩]
  | pattern => [⟨5, 5⟩]
  | offset _ => [⟨10, 12⟩, rn]
  | registerOffset => [⟨16, 6⟩, ⟨10, 3⟩, rn]
  | vectorOffset => [⟨16, 4⟩, rn]

/-- The index of an element, with the lane size as its lowest set bit. -/
def markedIndex (lane : Option LaneSize) (op : Operand) : Nat :=
  (2 * op.imm.toNat + 1) * twoPow (laneLog2 lane)

/-- **What the fields hold for an operand**, one number a field. A number wider than its field loses upper bits. -/
def values (slot : Slot) (lane : Option LaneSize) (op : Operand) : List Nat :=
  match slot with
  | general _ _ _ | generalOfLane _ _ | scalarAt _ _ | scalar _ _ | vector _ _ | predicate _ _ _ | term _ .reg =>
    [op.reg]
  | shifted _ _ => [op.shiftType.code, op.reg, op.shift]
  | governing _ _ => [op.reg, if op.qualifier = some .merging then 1 else 0]
  | again _ => []
  | halfword _ => [op.shift / 16, op.imm.toNat]
  | arithmetic => [if op.shift = 0 then 0 else 1, op.imm.toNat]
  | bitmask width => [(bitmask? width op).getD 0]
  | laneBitmask => [(laneBitmask? lane op).getD 0]
  | target _ => [op.imm.toNat / 4]
  | code | unsigned _ | signed _ | term _ .imm | pattern => [op.imm.toNat]
  | byte _ _ => [if op.shift = 0 then 0 else 1, op.imm.toNat]
  | multiplier => [op.imm.toNat - 1]
  | scalarIndex => [markedIndex lane op]
  | vectorIndex => [markedIndex lane op / 32, markedIndex lane op]
  | offset scale => [op.imm.toNat / twoPow scale, op.reg]
  | registerOffset => [op.imm.toNat / 8, op.imm.toNat, op.reg]
  | vectorOffset => [op.imm.toNat, op.reg]

/-- An unsigned number as an immediate. -/
def natImm (n : Nat) : BitVec 64 := BitVec.ofNat 64 n

/-- A signed number as an immediate. -/
def intImm (z : Int) : BitVec 64 := BitVec.ofInt 64 z

/-- **The operand that a word holds in the slot**, where `lane` is the lane size of the instruction; nothing if the
    fields hold a reserved value. -/
def read? (slot : Slot) (lane : Option LaneSize) (w : Word) : Option Operand :=
  match slot with
  | general f width _ => some (.ofX ⟨f.get w, width⟩)
  | generalOfLane f _ | term f .reg => some (.ofX ⟨f.get w, if isDouble lane then .x else .w⟩)
  | shifted width rotates =>
    let type := ShiftType.ofCode (Field.get ⟨22, 2⟩ w)
    let amount := Field.get ⟨10, 6⟩ w
    if (!rotates && type == .ror) || decide (width.bits ≤ amount) then none
    else some (.shifted ⟨rm.get w, width⟩ type amount)
  | scalarAt f l => some (.ofV ⟨f.get w, some l⟩)
  | scalar f rule => some (.ofV ⟨f.get w, rule.apply lane⟩)
  | vector f rule => some (.ofZ ⟨f.get w, rule.apply lane⟩)
  | predicate f rule q => some (.ofP ⟨f.get w, rule.apply lane, q⟩)
  | governing f m => some (.ofP ⟨f.get w, none, some (if m.get w = 1 then .merging else .zeroing)⟩)
  | again s => s.read? lane w
  | halfword width =>
    let hw := Field.get ⟨21, 2⟩ w
    if width.bits ≤ 16 * hw then none
    else some (.shiftedImm (natImm (Field.get ⟨5, 16⟩ w)) (16 * hw))
  | arithmetic => some (.shiftedImm (natImm (Field.get ⟨10, 12⟩ w)) (12 * Field.get ⟨22, 1⟩ w))
  | bitmask width =>
    (BitmaskImmediate.decode? (Field.get ⟨10, 13⟩ w) width.bits).map fun p => .ofImm p.1
  | laneBitmask =>
    (BitmaskImmediate.decode? (Field.get ⟨5, 13⟩ w) 64).map fun p =>
      .ofImm (p.1 &&& BitmaskImmediate.onesBelow (laneBits lane))
  | target f => some (.label (intImm (4 * f.getSigned w)))
  | code => some (.ofImm (natImm (Field.get ⟨5, 16⟩ w)))
  | unsigned f => some (.ofImm (natImm (f.get w)))
  | signed f | term f .imm => some (.ofImm (intImm (f.getSigned w)))
  | byte isSigned shiftable =>
    let isShifted := Field.get ⟨13, 1⟩ w = 1
    let f : Field := ⟨5, 8⟩
    if isShifted ∧ (shiftable = false ∨ lane = some .b) then none
    else some (.shiftedImm (if isSigned then intImm (f.getSigned w) else natImm (f.get w)) (if isShifted then 8 else 0))
  | multiplier => some (.ofImm (natImm (Field.get ⟨16, 4⟩ w + 1)))
  | scalarIndex => some (.ofImm (natImm (Field.get ⟨16, 5⟩ w / twoPow (laneLog2 lane + 1))))
  | vectorIndex =>
    some (.ofImm (natImm ((32 * Field.get ⟨22, 2⟩ w + Field.get ⟨16, 5⟩ w) / twoPow (laneLog2 lane + 1))))
  | pattern => some (.ofPattern (Field.get ⟨5, 5⟩ w))
  | offset scale => some (.memOffset (rn.get w) (natImm (twoPow scale * Field.get ⟨10, 12⟩ w)))
  | registerOffset =>
    some (.mulVl (rn.get w) (intImm (8 * Field.getSigned ⟨16, 6⟩ w + Field.get ⟨10, 3⟩ w)))
  | vectorOffset => some (.mulVl (rn.get w) (intImm (Field.getSigned ⟨16, 4⟩ w)))

/-- **The operand as the disassembler shows it** in this slot, whatever its kind. -/
def text : Slot → Operand → String
  | general _ _ c, op | generalOfLane _ c, op => op.generalText c
  | shifted _ _, op => op.generalText .zero
  | scalarAt _ _, op | scalar _ _, op => op.scalarText
  | vector _ _, op => op.vectorText
  | predicate _ _ _, op | governing _ _, op => op.predicateText
  | again s, op => s.text op
  | halfword _, op | arithmetic, op | bitmask _, op | laneBitmask, op | code, op => op.hexText
  | term _ _, op => if op.isGeneral then op.generalText .zero else op.decimalText
  | target _, op => op.labelText
  | unsigned _, op | signed _, op | byte _ _, op => op.decimalText
  | multiplier, op => "mul #" ++ decInt op.value
  | scalarIndex, op | vectorIndex, op => decInt op.value
  | pattern, op => Pattern.name op.patternBits
  | offset _, op | registerOffset, op | vectorOffset, op => op.memoryText

end Slot

/-! ## Lane sizes -/

/-- **Where a word keeps its lane size**: nowhere, in a size field, in a bit that makes general registers 64 bits wide,
    as the lowest set bit in front of an element index, or in a bitmask immediate. -/
inductive Sizing
  | fixed (lane : Option LaneSize)
  | field
  | widthBit
  | scalarIndex
  | vectorIndex
  | bitmask
  deriving DecidableEq

namespace Sizing

/-- The fields that hold the lane size and nothing else. -/
def fields : Sizing → List Field
  | field => [⟨22, 2⟩]
  | widthBit => [⟨22, 1⟩]
  | fixed _ | scalarIndex | vectorIndex | bitmask => []

/-- What these fields hold for a lane size. -/
def values (s : Sizing) (lane : Option LaneSize) : List Nat :=
  match s with
  | field => [laneLog2 lane]
  | widthBit => [if isDouble lane then 1 else 0]
  | fixed _ | scalarIndex | vectorIndex | bitmask => []

/-- The place of the lowest set bit among the lowest five, and nothing if none of the lowest `limit` is set. -/
def marker? (limit n : Nat) : Option LaneSize :=
  ((List.range limit).find? fun i => n.testBit i).bind LaneSize.ofLog2?

/-- The narrowest lane size that holds an element of a number of bits. -/
def laneOfBits (bits : Nat) : LaneSize :=
  if bits ≤ 8 then .b else if bits ≤ 16 then .h else if bits ≤ 32 then .s else .d

/-- **The lane size of a word**; nothing if the word is reserved. -/
def read? (s : Sizing) (w : Word) : Option (Option LaneSize) :=
  match s with
  | fixed lane => some lane
  | field => some (some (.ofField (Field.get ⟨22, 2⟩ w)))
  | widthBit => some (some (if Field.get ⟨22, 1⟩ w = 1 then .d else .s))
  | scalarIndex => (marker? 4 (Field.get ⟨16, 5⟩ w)).map some
  | vectorIndex => (marker? 5 (Field.get ⟨16, 5⟩ w)).map some
  | bitmask => (BitmaskImmediate.decode? (Field.get ⟨5, 13⟩ w) 64).map fun p => some (laneOfBits p.2)

end Sizing

end ArmToolkit.A64
