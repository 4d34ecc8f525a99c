import ArmToolkit.A64.Assembler

/-!
# `A64.Macro` — operations without the limits of single instructions

A macro takes operands that no single instruction takes: registers that alias in any way, or immediates of any size.
It emits the shortest of a few sequences.

## Contents
- **Moves.** Immediates of any value, and registers.
- **Two vectors.** Predicated operations whose destination may be any of the sources, and multiplication with
  addition.
- **Immediates.** Operations, copies and compares with immediates of any value.
- **Predicates.** The first and the next active lane.
- **Memory.** Loads and stores at any multiple of the register length.
-/

namespace ArmToolkit.A64

/-! ## How a destructive operation is emitted -/

/-- **How an operation of two sources becomes one that overwrites its first source.** -/
inductive DestructiveForm
  /-- The destination is the first source. -/
  | destructive
  /-- The destination is the second source, and the sources can be swapped. -/
  | swapped
  /-- The destination is the second source, and there is an operation with swapped sources. -/
  | reversed
  /-- The first source is copied to the destination before. -/
  | copied
  /-- The second source, which is the destination, is saved before. -/
  | saved
  deriving DecidableEq

namespace DestructiveForm

/-- The name of a destructive form. -/
def name : DestructiveForm → String
  | destructive => "Destructive"
  | swapped => "DestructiveSwapped"
  | reversed => "Reversed"
  | copied => "Prefixed"
  | saved => "PrefixedWithScratch"

/-- The form for a destination and two sources, by their codes. -/
def select (zd zn zm : Nat) (commutes reverses : Bool) : DestructiveForm :=
  if zd = zn then destructive
  else if zd = zm then (if commutes then swapped else if reverses then reversed else saved)
  else copied

end DestructiveForm

/-- Whether the sources of an operation can be swapped. -/
def PredicatedOp.commutes : PredicatedOp → Bool
  | add | mul | and | orr | eor | smax | smin | umax | umin => true
  | sub | subr | sdiv | udiv | sdivr | udivr | bic => false

/-- The operation with its sources swapped. -/
def PredicatedOp.reversed? : PredicatedOp → Option PredicatedOp
  | sub => some .subr
  | sdiv => some .sdivr
  | udiv => some .udivr
  | _ => none

/-- The operation that does the same with the negated immediate. -/
def ImmediateOp.negated? : ImmediateOp → Option ImmediateOp
  | add => some .sub
  | sub => some .add
  | _ => none

/-- The unpredicated operation on two vectors, if there is one. -/
def ImmediateOp.unpredicated? : ImmediateOp → Option UnpredicatedOp
  | add => some .add
  | sub => some .sub
  | sqadd => some .sqadd
  | uqadd => some .uqadd
  | sqsub => some .sqsub
  | uqsub => some .uqsub
  | subr | smax | umax | smin | umin | mul => none

/-- The relation with its sides swapped, for those that only exist so as compares of vectors. -/
def Relation.swapped? : Relation → Option Relation
  | lt => some .gt
  | le => some .ge
  | lo => some .hi
  | ls => some .hs
  | eq | ne | gt | ge | hi | hs => none

namespace PReg

/-- The same register viewed as byte lanes. -/
def asBytes (r : PReg) : PReg := r.withLane (some .b)

/-- Whether the register is a zeroing governing predicate. -/
def isZeroing (r : PReg) : Bool := r.qualifier == some .zeroing

/-- The register as a governing predicate, which merges unless it zeroes. -/
def governing (r : PReg) : PReg := if r.isZeroing then r.zeroing else r.merging

end PReg

/-- The bits of an immediate that fit in a lane, as an unsigned number. -/
def laneUnsigned (lane : Option LaneSize) (imm : BitVec 64) : BitVec 64 :=
  imm &&& BitmaskImmediate.onesBelow (laneBits lane)

/-- The bits of an immediate that fit in a lane, as a signed number. -/
def laneSigned (lane : Option LaneSize) (imm : BitVec 64) : BitVec 64 :=
  (imm.setWidth (laneBits lane)).signExtend 64

/-- An immediate that can be written as an 8-bit one shifted left by eight, divided by that shift. -/
def byteShifted? (lane : Option LaneSize) (imm : BitVec 64) : Option (BitVec 64) :=
  if lane ≠ some .b ∧ imm ≠ 0 ∧ imm.toInt % 256 = 0 then some (BitVec.ofInt 64 (imm.toInt / 256)) else none

namespace Assembler

variable (a : Assembler)

/-! ## Moves -/

/-- The halfwords of a number, with their shifts. -/
def halfwords (bits : Nat) (v : BitVec 64) : List (Nat × Nat) :=
  (List.range (bits / 16)).map fun i => (16 * i, (v >>> (16 * i)).toNat % 65536)

/-- Emits a halfword for the start of a sequence: the other halfwords become zeros, or ones if inverted. -/
def firstHalfword (rd : XReg) (inverted : Bool) (shift halfword : Nat) : Assembler :=
  if inverted then a.emit .movn [.ofX rd, .shiftedImm (Slot.natImm (65535 - halfword)) shift]
  else a.emit .movz [.ofX rd, .shiftedImm (Slot.natImm halfword) shift]

/-- Emits a halfword that keeps the others. -/
def nextHalfword (rd : XReg) (p : Nat × Nat) : Assembler :=
  a.emit .movk [.ofX rd, .shiftedImm (Slot.natImm p.2) p.1]

/-- Emits the halfwords that differ from those that the first move fills in. -/
def halfwordSequence (rd : XReg) (inverted : Bool) (hws : List (Nat × Nat)) : Assembler :=
  match hws.filter fun p => p.2 != if inverted then 65535 else 0 with
  | [] => a.firstHalfword rd inverted 0 (if inverted then 65535 else 0)
  | p :: ps => ps.foldl (fun a p => a.nextHalfword rd p) (a.firstHalfword rd inverted p.1 p.2)

/-- **Moves an immediate into a general register**: in one move, as a bitmask immediate, or halfword by halfword. -/
def moveImmediate (rd : XReg) (imm : BitVec 64) : Assembler :=
  let bits := rd.width.bits
  let value := imm &&& BitmaskImmediate.onesBelow bits
  let hws := halfwords bits value
  let nonzero := hws.countP fun p => p.2 != 0
  let notOnes := hws.countP fun p => p.2 != 65535
  -- one move is enough where all halfwords but one are zeros, or all but one are ones
  if nonzero ≤ 1 ∨ notOnes ≤ 1 then a.halfwordSequence rd (decide (1 < nonzero)) hws
  else if (BitmaskImmediate.encode? value bits).isSome then
    a.emit .orr [.ofX rd, .ofX (.zero rd.width), .ofImm value]
  else a.halfwordSequence rd (decide (notOnes < nonzero)) hws

/-- Moves a general register. -/
def moveRegister (rd rm : XReg) : Assembler := a.emit .orr [.ofX rd, .ofX (.zero rd.width), .ofX rm]

/-- Moves a vector register; nothing is emitted for a move to itself. -/
def moveVector (zd zn : ZReg) : Assembler :=
  let d (r : ZReg) : Operand := .ofZ (r.withLane (some .d))
  if zd.code = zn.code then a else a.emit .orr [d zd, d zn, d zn]

/-- Moves a predicate register; nothing is emitted for a move to itself. -/
def movePredicate (pd pn : PReg) : Assembler :=
  if pd.code = pn.code then a
  else a.emit .orr [.ofP pd.asBytes, .ofP pn.zeroing, .ofP pn.asBytes, .ofP pn.asBytes]

/-! ## Two vectors -/

/-- Emits a predicated operation. -/
def predicated (op : PredicatedOp) (zd : ZReg) (pg : PReg) (zn zm : ZReg) : Assembler :=
  a.emit op.op.mnemonic [.ofZ zd, .ofP pg, .ofZ zn, .ofZ zm]

/-- Copies the active lanes of a vector. -/
def copyActive (zd : ZReg) (pg : PReg) (zn : ZReg) : Assembler := a.emit .movprfx [.ofZ zd, .ofP pg, .ofZ zn]

/-- Copies a whole vector; nothing is emitted where source and destination are one register. -/
def copyWhole (zd zn : ZReg) : Assembler :=
  if zd.code = zn.code then a else a.emit .movprfx [.ofZ zd.unsized, .ofZ zn.unsized]

/-- Clears the inactive lanes of the destination if the predicate zeroes. -/
def zeroInactive (zd : ZReg) (pg : PReg) : Assembler := if pg.isZeroing then a.copyActive zd pg.zeroing zd else a

/-- **A predicated operation with any aliasing.** Inactive lanes are zeroed by the copy in front; the operation itself
    keeps them. -/
def predicatedBinary (op : PredicatedOp) (zd : ZReg) (pg : PReg) (zn zm : ZReg) : Assembler :=
  let pgm := pg.merging
  match DestructiveForm.select zd.code zn.code zm.code op.commutes op.reversed?.isSome with
  | .destructive => (a.zeroInactive zd pg).predicated op zd pgm zd zm
  | .swapped => (a.zeroInactive zd pg).predicated op zd pgm zd zn
  | .reversed => (a.zeroInactive zd pg).predicated (op.reversed?.getD op) zd pgm zd zn
  | .copied => (a.copyActive zd pg.governing zn).predicated op zd pgm zd zm
  -- the copy would overwrite the second source, which is the destination
  | .saved =>
    a.inScope fun a => a.withScratch .vector fun code a =>
      ((a.moveVector ⟨code, none⟩ zm).copyActive zd pg.governing zn).predicated op zd pgm zd ⟨code, zm.lane⟩

/-- An unpredicated operation. -/
def unpredicatedBinary (op : UnpredicatedOp) (zd zn zm : ZReg) : Assembler :=
  a.emit op.op.mnemonic [.ofZ zd, .ofZ zn, .ofZ zm]

/-- **An addend plus a product**, or minus a product, with any aliasing. -/
def multiplyAccumulate (negated : Bool) (zd : ZReg) (pg : PReg) (za zn zm : ZReg) : Assembler :=
  let pgm := pg.merging
  let accumulate := if negated then Mnemonic.mls else .mla
  let multiply := if negated then Mnemonic.msb else .mad
  let emit4 (a : Assembler) (m : Mnemonic) (z z' : ZReg) := a.emit m [.ofZ zd, .ofP pgm, .ofZ z, .ofZ z']
  -- a factor in the destination is overwritten by the last instruction alone
  if zd.code = za.code then emit4 a accumulate zn zm
  else if zd.code = zn.code then emit4 a multiply zm za
  else if zd.code = zm.code then emit4 a multiply zn za
  else emit4 (a.copyActive zd pgm za) accumulate zn zm

/-! ## Immediates -/

/-- The scratch register that holds an immediate for lanes of a size. -/
def acquireForLane (lane : Option LaneSize) (body : XReg → Assembler → Assembler) : Assembler :=
  a.withScratch .general fun code a => body ⟨code, if isDouble lane then .x else .w⟩ a

/-- The word of an operation with an 8-bit immediate, shifted or not. -/
def byteImmediate? (m : Mnemonic) (ops : List Operand) (lane : Option LaneSize) (imm : BitVec 64) : Option Word :=
  tryEncode? m (ops ++ [.ofImm imm]) <|>
    (byteShifted? lane imm).bind fun v => tryEncode? m (ops ++ [.shiftedImm v 8])

/-- **An immediate copied to every lane**: as an immediate, as a bitmask immediate, or through a scratch register. -/
def dup (zd : ZReg) (imm : BitVec 64) : Assembler :=
  let value := laneSigned zd.lane imm
  match byteImmediate? .dup [.ofZ zd] zd.lane value <|> tryEncode? .dupm [.ofZ zd, .ofImm value] with
  | some w => a.dc32 w
  | none =>
    a.inScope fun a => a.acquireForLane zd.lane fun tmp a =>
      (a.moveImmediate tmp value).emit .dup [.ofZ zd, .ofX tmp]

/-- Works with a scratch vector that holds an immediate in every lane. -/
def withVectorImmediate (lane : Option LaneSize) (imm : BitVec 64) (body : ZReg → Assembler → Assembler) :
    Assembler :=
  a.withScratch .vector fun code a => body ⟨code, lane⟩ (a.dup ⟨code, lane⟩ imm)

/-- The word of an operation that overwrites the destination with an immediate, if the immediate fits. -/
def destructiveImmediate? (op : ImmediateOp) (zd : ZReg) (imm : BitVec 64) : Option Word :=
  byteImmediate? op.op.mnemonic [.ofZ zd, .ofZ zd] zd.lane imm

/-- The word of the operation with the negated immediate, if there is such an operation and the immediate fits. -/
def negatedImmediate? (op : ImmediateOp) (zd : ZReg) (imm : BitVec 64) : Option Word :=
  op.negated?.bind fun op => destructiveImmediate? op zd (laneUnsigned zd.lane (-imm))

/-- An operation with an immediate in a scratch vector. Operations that only exist with a predicate get one that has
    all lanes active. -/
def synthesizedImmediate (op : ImmediateOp) (zd zn : ZReg) (imm : BitVec 64) : Assembler :=
  a.inScope fun a => a.withVectorImmediate zd.lane imm fun tmp a =>
    match op.unpredicated? with
    | some op => a.unpredicatedBinary op zd zn tmp
    | none =>
      a.withScratch .governing fun code a =>
        let pg : PReg := ⟨code, none, none⟩
        ((a.emit .ptrue [.ofP (pg.withLane zd.lane), .ofPattern 31]).copyWhole zd zn).emit op.op.mnemonic
          [.ofZ zd, .ofP pg.merging, .ofZ zd, .ofZ tmp]

/-- The immediate as the operation reads it: sums and differences wrap in the lane, and products are signed. -/
def wideOperand (op : ImmediateOp) (lane : Option LaneSize) (imm : BitVec 64) : BitVec 64 :=
  match op with
  | .add | .sub => laneUnsigned lane imm
  | .mul => laneSigned lane imm
  | _ => imm

/-- **An operation with an immediate of any value.** -/
def wideImmediate (op : ImmediateOp) (zd zn : ZReg) (imm : BitVec 64) : Assembler :=
  let imm := wideOperand op zd.lane imm
  -- an immediate that does not fit as it is may fit the opposite operation, negated
  match destructiveImmediate? op zd imm <|> negatedImmediate? op zd imm with
  | some w => (a.copyWhole zd zn).dc32 w
  | none => a.synthesizedImmediate op zd zn imm

/-- **A bitwise operation with an immediate of any value.** -/
def logicalImmediate (op : BitmaskOp) (zd zn : ZReg) (imm : BitVec 64) : Assembler :=
  let value := laneUnsigned zd.lane imm
  let d (r : ZReg) : Operand := .ofZ (r.withLane (some .d))
  match tryEncode? op.op.mnemonic [.ofZ zd, .ofZ zd, .ofImm value] with
  | some w => (a.copyWhole zd zn).dc32 w
  | none =>
    a.inScope fun a => a.withVectorImmediate zd.lane value fun tmp a =>
      a.emit op.op.mnemonic [d zd, d zn, d tmp]

/-- **An immediate of any value copied to the active lanes.** -/
def cpy (zd : ZReg) (pg : PReg) (imm : BitVec 64) : Assembler :=
  let value := laneSigned zd.lane imm
  match byteImmediate? .cpy [.ofZ zd, .ofP pg.governing] zd.lane value with
  | some w => a.dc32 w
  | none =>
    a.inScope fun a => a.acquireForLane zd.lane fun tmp a =>
      ((a.moveImmediate tmp value).zeroInactive zd pg).emit .cpy [.ofZ zd, .ofP pg.merging, .ofX tmp]

/-- **Two vectors compared** by any relation. -/
def compare (rel : Relation) (pd pg : PReg) (zn zm : ZReg) : Assembler :=
  match rel.swapped? with
  | some rel => a.emit rel.mnemonic [.ofP pd, .ofP pg.zeroing, .ofZ zm, .ofZ zn]
  | none => a.emit rel.mnemonic [.ofP pd, .ofP pg.zeroing, .ofZ zn, .ofZ zm]

/-- **A vector compared with an immediate of any value.** -/
def compareImmediate (rel : Relation) (pd pg : PReg) (zn : ZReg) (imm : BitVec 64) : Assembler :=
  match tryEncode? rel.mnemonic [.ofP pd, .ofP pg.zeroing, .ofZ zn, .ofImm imm] with
  | some w => a.dc32 w
  | none => a.inScope fun a => a.withVectorImmediate zn.lane imm fun tmp a => a.compare rel pd pg zn tmp

/-- An immediate of any value shifted in as the lowest lane. -/
def insr (zdn : ZReg) (imm : BitVec 64) : Assembler :=
  a.inScope fun a => a.acquireForLane zdn.lane fun tmp a =>
    (a.moveImmediate tmp imm).emit .insr [.ofZ zdn, .ofX tmp]

/-- Works with the start or step of an index vector as an operand: an immediate if it fits, or a scratch register. -/
def withIndexTerm (lane : Option LaneSize) (imm : BitVec 64) (body : Operand → Assembler → Assembler) : Assembler :=
  if -16 ≤ imm.toInt ∧ imm.toInt ≤ 15 then body (.ofImm imm) a
  else a.acquireForLane lane fun tmp a => body (.ofX tmp) (a.moveImmediate tmp imm)

/-- **A vector of equally spaced lanes** with any start and step. -/
def index (zd : ZReg) (start step : BitVec 64) : Assembler :=
  a.inScope fun a => a.withIndexTerm zd.lane start fun s a => a.withIndexTerm zd.lane step fun t a =>
    a.emit .index [.ofZ zd, s, t]

/-! ## Predicates -/

/-- Works on a copy of a predicate in the destination. A governing predicate that the copy would overwrite is saved. -/
def onPredicateCopy (m : Mnemonic) (lane : Option LaneSize) (pd pg pn : PReg) : Assembler :=
  let last (a : Assembler) (pg : PReg) :=
    a.emit m [.ofP (pd.withLane lane), .ofP pg.plain, .ofP (pd.withLane lane)]
  if pd.code = pg.code ∧ pd.code ≠ pn.code then
    a.inScope fun a => a.withScratch .predicate fun code a =>
      let tmp : PReg := ⟨code, none, none⟩
      last ((a.movePredicate tmp pg).movePredicate pd pn) tmp
  else last (a.movePredicate pd pn) pg

/-- **The first active lane added to a predicate**, with any aliasing. -/
def pfirst (pd pg pn : PReg) : Assembler := a.onPredicateCopy .pfirst (some .b) pd pg pn

/-- **The next active lane behind a predicate**, with any aliasing. -/
def pnext (pd pv pn : PReg) : Assembler := a.onPredicateCopy .pnext pn.lane pd pv pn

/-! ## Memory -/

/-- A number brought into a range. -/
def clampInt (least greatest z : Int) : Int := max least (min greatest z)

/-- The steps, each one that a single instruction can make, that add up to a number of vector lengths. -/
def lengthSteps (vls : Int) : List Int :=
  if _h : vls = 0 then []
  else
    let step := clampInt (-32) 31 vls
    step :: lengthSteps (vls - step)
termination_by vls.natAbs
decreasing_by
  simp only [clampInt]
  omega

/-- Moves the address in a register by steps, starting from a base register. -/
def moveAddress (addr : XReg) (a : Assembler) (src : XReg) : List Int → Assembler
  | [] => a
  | step :: steps =>
    moveAddress addr (a.emit .addvl [.ofX addr, .ofX src, .ofImm (Slot.intImm step)]) addr steps

/-- The number of vector lengths that an offset is moved by, so that the rest can be encoded. An offset is counted in
    units of which `unit` make a vector length. -/
def lengthsMoved (offset unit : Int) : Int :=
  let excess := offset - clampInt (-256) 255 offset
  if 0 < excess then (excess + unit - 1) / unit else -((-excess + unit - 1) / unit)

/-- **A load or store at any multiple of the register length.** -/
def transferAt (m : Mnemonic) (rt : Operand) (base : XReg) (offset unit : Int) : Assembler :=
  if -256 ≤ offset ∧ offset ≤ 255 then a.emit m [rt, .mulVl base.code (Slot.intImm offset)]
  else
    let vls := lengthsMoved offset unit
    a.inScope fun a => a.withScratch .general fun code a =>
      (moveAddress (.x code) a base (lengthSteps vls)).emit m [rt, .mulVl code (Slot.intImm (offset - vls * unit))]

/-- A load or store of a vector register at any multiple of the vector length. -/
def transferVector (access : Access) (zt : ZReg) (base : XReg) (offset : Int) : Assembler :=
  a.transferAt access.mnemonic (.ofZ zt.unsized) base offset 1

/-- A load or store of a predicate register at any multiple of the predicate length. -/
def transferPredicate (access : Access) (pt : PReg) (base : XReg) (offset : Int) : Assembler :=
  a.transferAt access.mnemonic (.ofP pt.plain) base offset 8

end Assembler

end ArmToolkit.A64
