import ArmToolkit.A64.LaneSum
import ArmToolkit.A64.Semantics.General

/-!
# `A64.Semantics.Vector` — instructions on vector registers

Every function here replaces the lanes of the destination within the vector length and keeps the bits above them.
The new lanes are a function of the registers before the instruction, so a destination that is also a source needs no
special care.

## Contents
- **Arithmetic.** Predicated and unpredicated operations, immediates, multiplication with addition.
- **Copies.** Immediates, scalars and vectors copied to all or to the active lanes; index vectors.
- **Rearrangement.** Reversal, insertion, table look-up, interleaving.
- **Reductions.** The active lanes folded into a scalar.
-/

namespace ArmToolkit.A64.Semantics

/-- The lane size of operand `i`. -/
def laneAt (ops : List Operand) (i : Nat) : LaneSize := ((arg ops i).lane).getD .b

/-- The register code of operand `i`. -/
def regAt (ops : List Operand) (i : Nat) : Nat := (arg ops i).reg

/-- What a governing predicate does to inactive lanes: whether it keeps them. -/
def keepsInactive (pg : Operand) : Bool := pg.qualifier != some .zeroing

section

variable (vl : VectorLength) (ops : List Operand) (r : Registers)

/-- The lanes of the destination replaced by the values of a function. -/
def onAll (l : LaneSize) (zd : Nat) (f : Nat → BitVec l.bits) : Registers := r.mapLanes zd l.bits (vl.lanes l) f

/-- The active lanes of the destination replaced by the values of a function, and the others kept or cleared. -/
def onActive (l : LaneSize) (pg zd : Nat) (keep : Bool) (f : Nat → BitVec l.bits) : Registers :=
  onAll vl r l zd fun i =>
    if activeLane l.bytes (r.pBits pg) i then f i
    else if keep then r.zLane zd l.bits i
    else 0

/-! ## Arithmetic -/

/-- An operation of the destination with a vector, on the active lanes. -/
def predicated (op : ElementOp) : Registers :=
  let l := laneAt ops 0
  onActive vl r l (regAt ops 1) (regAt ops 0) true fun i =>
    op.apply (r.zLane (regAt ops 0) l.bits i) (r.zLane (regAt ops 3) l.bits i)

/-- An operation of two vectors, on all lanes one by one. -/
def lanewise (op : ElementOp) : Registers :=
  let l := laneAt ops 0
  onAll vl r l (regAt ops 0) fun i => op.apply (r.zLane (regAt ops 1) l.bits i) (r.zLane (regAt ops 2) l.bits i)

/-- An operation of two vectors, on all lanes. Sums are formed for all lanes at once. -/
def unpredicated (op : ElementOp) : Registers :=
  match op with
  | .add =>
    let l := laneAt ops 0
    let sums := laneSums l (r.zBits (regAt ops 1)) (r.zBits (regAt ops 2))
    r.setZ (regAt ops 0) (putLow (vl.lanes l * l.bits) (r.zBits (regAt ops 0)) sums)
  | op => lanewise vl ops r op

/-- **An operation of two vectors works lane by lane**, sums not excepted. -/
theorem unpredicated_eq_lanewise (op : ElementOp) : unpredicated vl ops r op = lanewise vl ops r op := by
  cases op <;> try rfl
  exact congrArg (r.setZ (regAt ops 0)) (putLow_laneSums _ _ _ _ (vl.lanes_mul_bits_le _))

/-- An element combined with an immediate. The immediate of a signed saturating operation is not cut to the lane: it
    is added to or subtracted from the exact value. -/
def withImmediate {n : Nat} (op : ImmediateOp) (a : BitVec n) (imm : BitVec 64) : BitVec n :=
  match op with
  | .sqadd => clampSigned n (a.toInt + imm.toInt)
  | .sqsub => clampSigned n (a.toInt - imm.toInt)
  | op => op.op.apply a (imm.setWidth n)

/-- An operation of the destination with an 8-bit immediate. -/
def immediate (op : ImmediateOp) : Registers :=
  let l := laneAt ops 0
  onAll vl r l (regAt ops 0) fun i => withImmediate op (r.zLane (regAt ops 0) l.bits i) (shiftedValue (arg ops 2))

/-- An operation of the destination with a bitmask immediate. -/
def bitmask (op : BitmaskOp) : Registers :=
  let l := laneAt ops 0
  onAll vl r l (regAt ops 0) fun i => op.op.apply (r.zLane (regAt ops 0) l.bits i) ((arg ops 2).imm.setWidth l.bits)

/-- A product added to an addend, or subtracted from it. -/
def accumulate {n : Nat} (negated : Bool) (addend a b : BitVec n) : BitVec n :=
  if negated then addend - a * b else addend + a * b

/-- The product of two vectors added to the destination, on the active lanes. -/
def multiplyAdd (negated : Bool) : Registers :=
  let l := laneAt ops 0
  let z (k i : Nat) := r.zLane (regAt ops k) l.bits i
  onActive vl r l (regAt ops 1) (regAt ops 0) true fun i => accumulate negated (z 0 i) (z 2 i) (z 3 i)

/-- The product of the destination and a vector added to another vector, on the active lanes. -/
def multiplyInto (negated : Bool) : Registers :=
  let l := laneAt ops 0
  let z (k i : Nat) := r.zLane (regAt ops k) l.bits i
  onActive vl r l (regAt ops 1) (regAt ops 0) true fun i => accumulate negated (z 3 i) (z 0 i) (z 2 i)

/-! ## Copies -/

/-- A value copied to every lane. -/
def broadcast (value : BitVec 64) : Registers :=
  let l := laneAt ops 0
  onAll vl r l (regAt ops 0) fun _ => value.setWidth l.bits

/-- A value copied to the active lanes. -/
def copyActive (value : BitVec 64) : Registers :=
  let l := laneAt ops 0
  onActive vl r l (regAt ops 1) (regAt ops 0) (keepsInactive (arg ops 1)) fun _ => value.setWidth l.bits

/-- The value of a scalar register operand at the lane size of the destination. -/
def scalarValue (i : Nat) : BitVec 64 := (r.scalar (regAt ops i) (laneAt ops 0).bits).setWidth 64

/-- Lanes chosen from two vectors by a predicate. -/
def select : Registers :=
  let l := laneAt ops 0
  onAll vl r l (regAt ops 0) fun i =>
    r.zLane (if activeLane l.bytes (r.pBits (regAt ops 1)) i then regAt ops 2 else regAt ops 3) l.bits i

/-- A vector copied within the vector length. -/
def movprfx : Registers := r.mapLanes (regAt ops 0) 8 vl.bytes fun i => r.zLane (regAt ops 1) 8 i

/-- The active lanes of a vector copied. -/
def movprfxPredicated : Registers :=
  let l := laneAt ops 0
  onActive vl r l (regAt ops 1) (regAt ops 0) (keepsInactive (arg ops 1)) fun i => r.zLane (regAt ops 2) l.bits i

/-- The start or the step of an index vector. -/
def indexTerm (i : Nat) : BitVec 64 :=
  let op := arg ops i
  if op.kind = .imm then op.imm else r.general op .zero

/-- Equally spaced lanes. -/
def index : Registers :=
  let l := laneAt ops 0
  onAll vl r l (regAt ops 0) fun i =>
    (indexTerm ops r 1 + indexTerm ops r 2 * BitVec.ofNat 64 i).setWidth l.bits

/-! ## Rearrangement -/

/-- The lane of a result that rearranges two vectors of `count` lanes. -/
def permuteLane {n : Nat} (op : PermuteOp) (count : Nat) (a b : Nat → BitVec n) (i : Nat) : BitVec n :=
  let even := i % 2 = 0
  let half := count / 2
  let concat (k : Nat) := if k < count then a k else b (k - count)
  match op with
  | .tbl => if (b i).toNat < count then a (b i).toNat else 0
  | .zip1 => if even then a (i / 2) else b (i / 2)
  | .zip2 => if even then a (half + i / 2) else b (half + i / 2)
  | .uzp1 => concat (2 * i)
  | .uzp2 => concat (2 * i + 1)
  | .trn1 => if even then a i else b (i - 1)
  | .trn2 => if even then a (i + 1) else b i

/-- The lanes of two vectors rearranged. -/
def permute (op : PermuteOp) : Registers :=
  let l := laneAt ops 0
  onAll vl r l (regAt ops 0) fun i =>
    permuteLane op (vl.lanes l) (r.zLane (regAt ops 1) l.bits) (r.zLane (regAt ops 2) l.bits) i

/-- The lanes of a vector in reverse order. -/
def reverse : Registers :=
  let l := laneAt ops 0
  onAll vl r l (regAt ops 0) fun i => r.zLane (regAt ops 1) l.bits (vl.lanes l - 1 - i)

/-- The lanes moved up by one, and a value put into the lowest. -/
def insert (value : BitVec 64) : Registers :=
  let l := laneAt ops 0
  onAll vl r l (regAt ops 0) fun i =>
    if i = 0 then value.setWidth l.bits else r.zLane (regAt ops 0) l.bits (i - 1)

/-- One lane copied to every lane; zeros if there is no such lane. -/
def duplicate : Registers :=
  let l := laneAt ops 0
  let k := (arg ops 2).imm.toNat
  onAll vl r l (regAt ops 0) fun _ => if k < vl.lanes l then r.zLane (regAt ops 1) l.bits k else 0

/-! ## Reductions -/

/-- **Elements folded into one number**, starting from the neutral element of the operation. -/
def fold {n : Nat} (op : ReductionOp) (xs : List (BitVec n)) : BitVec 64 :=
  match op with
  | .saddv => xs.foldl (fun s x => s + x.signExtend 64) 0
  | .uaddv => xs.foldl (fun s x => s + x.setWidth 64) 0
  | .smaxv => (xs.foldl (ElementOp.apply .smax) (BitVec.intMin n)).setWidth 64
  | .umaxv => (xs.foldl (ElementOp.apply .umax) 0).setWidth 64
  | .sminv => (xs.foldl (ElementOp.apply .smin) (BitVec.intMax n)).setWidth 64
  | .uminv => (xs.foldl (ElementOp.apply .umin) (BitVec.allOnes n)).setWidth 64
  | .orv => (xs.foldl (ElementOp.apply .orr) 0).setWidth 64
  | .eorv => (xs.foldl (ElementOp.apply .eor) 0).setWidth 64
  | .andv => (xs.foldl (ElementOp.apply .and) (BitVec.allOnes n)).setWidth 64

/-- The active lanes of a vector folded into a scalar register. -/
def reduction (op : ReductionOp) : Registers :=
  let l := laneAt ops 2
  let seen := activeLanes l.bytes (r.pBits (regAt ops 1)) (vl.lanes l)
  let n := scalarBits (arg ops 0)
  r.writeScalar (regAt ops 0) n ((fold op (seen.map (r.zLane (regAt ops 2) l.bits))).setWidth n)

end

end ArmToolkit.A64.Semantics
