import ArmToolkit.A64.Pattern
import ArmToolkit.A64.Semantics.Vector

/-!
# `A64.Semantics.Predicate` — instructions that write or count predicates

## Contents
- **Compares.** A predicate of the active lanes in which a relation holds.
- **Predicates.** Patterns, bitwise operations, the first and the next active lane.
- **Counts.** The active lanes, or the lanes of a pattern, counted into general and vector registers.
-/

namespace ArmToolkit.A64.Semantics

section

variable (vl : VectorLength) (ops : List Operand) (r : Registers)

/-! ## Compares -/

/-- The registers with a result predicate written, and the flags that describe it. -/
def setTested (l : LaneSize) (pd : Nat) (governing result : PBits) : Registers :=
  { r.setP pd result with flags := predicateTest l.bytes governing result (vl.lanes l) }

/-- The active lanes of a vector compared with the values of a function. -/
def compareLanes (rel : Relation) (l : LaneSize) (b : Nat → BitVec l.bits) : Registers :=
  let pg := r.pBits (regAt ops 1)
  let result := predicateOf l.bytes (vl.lanes l) fun i =>
    activeLane l.bytes pg i && rel.holds (r.zLane (regAt ops 2) l.bits i) (b i)
  setTested vl r l (regAt ops 0) pg result

/-- Two vectors compared. -/
def compareVectors (rel : Relation) : Registers :=
  let l := laneAt ops 2
  compareLanes vl ops r rel l fun i => r.zLane (regAt ops 3) l.bits i

/-- A vector compared with an immediate. -/
def compareImmediate (rel : Relation) : Registers :=
  let l := laneAt ops 2
  compareLanes vl ops r rel l fun _ => (arg ops 3).imm.setWidth l.bits

/-- The flags after a loop test: N if the loop ends, otherwise V where C is clear. -/
def loopTest (onDifference : Bool) : Registers :=
  let equal := r.general (arg ops 0) .zero == r.general (arg ops 1) .zero
  let ends := equal != onDifference
  { r with flags := { r.flags with n := ends, v := !ends && !r.flags.c } }

/-! ## Predicates -/

/-- The lowest lanes set, as many as a pattern selects. -/
def ptrue (setsFlags : Bool) : Registers :=
  let l := laneAt ops 0
  let count := Pattern.count (arg ops 1).patternBits (vl.lanes l)
  let result := lowestActive l.bytes (vl.lanes l) count
  if setsFlags then setTested vl r l (regAt ops 0) result result else r.setP (regAt ops 0) result

/-- No lane set. -/
def pfalse : Registers := r.setP (regAt ops 0) 0

/-- The flags that describe a predicate. -/
def ptest : Registers :=
  { r with flags := predicateTest 1 (r.pBits (regAt ops 0)) (r.pBits (regAt ops 1)) vl.bytes }

/-- The first active lane set as well. -/
def pfirst : Registers :=
  let l := laneAt ops 0
  let pg := r.pBits (regAt ops 1)
  let pd := r.pBits (regAt ops 0)
  let result :=
    match activeLanes l.bytes pg (vl.lanes l) with
    | i :: _ => setActive l.bytes pd i true
    | [] => pd
  setTested vl r l (regAt ops 0) pg result

/-- Only the first active lane behind the last set lane set. -/
def pnext : Registers :=
  let l := laneAt ops 0
  let pg := r.pBits (regAt ops 1)
  let pd := r.pBits (regAt ops 0)
  let start :=
    match (activeLanes l.bytes pd (vl.lanes l)).getLast? with
    | some i => i + 1
    | none => 0
  let result :=
    match (activeLanes l.bytes pg (vl.lanes l)).find? fun i => decide (start ≤ i) with
    | some i => setActive l.bytes 0 i true
    | none => 0
  setTested vl r l (regAt ops 0) pg result

/-- One lane of a bitwise operation on predicates. -/
def predicateLane (op : PredicateOp) (active n m : Bool) : Bool :=
  match op with
  | .and | .ands => active && (n && m)
  | .bic => active && (n && !m)
  | .eor => active && (n != m)
  | .orr => active && (n || m)
  | .sel => if active then n else m

/-- A bitwise operation on predicates, byte lane by byte lane. -/
def predicateLogic (op : PredicateOp) : Registers :=
  let pg := r.pBits (regAt ops 1)
  let result := predicateOf 1 vl.bytes fun i =>
    predicateLane op (activeLane 1 pg i) (activeLane 1 (r.pBits (regAt ops 2)) i)
      (activeLane 1 (r.pBits (regAt ops 3)) i)
  if op = .ands then setTested vl r .b (regAt ops 0) pg result else r.setP (regAt ops 0) result

/-! ## Counts -/

/-- The number of active lanes of a predicate. -/
def activeCount (l : LaneSize) (p : Nat) : Nat := (activeLanes l.bytes (r.pBits p) (vl.lanes l)).length

/-- The number of lanes that are active in two predicates. -/
def cntp : Registers :=
  let l := laneAt ops 2
  let governed := (activeLanes l.bytes (r.pBits (regAt ops 1)) (vl.lanes l)).filter fun i =>
    activeLane l.bytes (r.pBits (regAt ops 2)) i
  r.setGeneral (arg ops 0) (BitVec.ofNat 64 governed.length) .zero

/-- The number of active lanes of a predicate operand. -/
def operandCount (i : Nat) : Nat := activeCount vl r (laneAt ops i) (regAt ops i)

/-- A 64-bit register adjusted by a count. -/
def countX (op : CountOp) : Registers :=
  let v := r.general (arg ops 0) .zero
  r.setGeneral (arg ops 0) (op.overflow.adjust op.decrements v (operandCount vl ops r 1)) .zero

/-- The lower half of a register adjusted by a count. -/
def wordCount (op : CountOp) : BitVec 32 :=
  op.overflow.adjust op.decrements ((r.read (regAt ops 0) .zero).setWidth 32) (operandCount vl ops r 1)

/-- A 32-bit register adjusted by a count, zero-extended. -/
def countW (op : CountOp) : Registers := r.write (regAt ops 0) ((wordCount vl ops r op).setWidth 64) .zero

/-- A 32-bit register adjusted by a count, sign-extended. -/
def countExtended (op : CountOp) : Registers :=
  r.write (regAt ops 0) ((wordCount vl ops r op).signExtend 64) .zero

/-- Every lane adjusted by a count. -/
def countZ (op : CountOp) : Registers :=
  let l := laneAt ops 0
  let count := activeCount vl r l (regAt ops 1)
  onAll vl r l (regAt ops 0) fun i => op.overflow.adjust op.decrements (r.zLane (regAt ops 0) l.bits i) count

/-- A multiple of the number of lanes that a pattern selects, written, added or subtracted. -/
def elementCount (op : Counting) (element : Element) : Registers :=
  let lanes := Pattern.count (arg ops 1).patternBits (vl.lanes element.lane)
  let count := BitVec.ofNat 64 lanes * (arg ops 2).imm
  let old := r.general (arg ops 0) .zero
  let value :=
    match op with
    | .cnt => count
    | .inc => old + count
    | .dec => old - count
  r.setGeneral (arg ops 0) value .zero

/-- A multiple of the vector length in bytes. -/
def lengthMultiple (imm : BitVec 64) : BitVec 64 := imm * BitVec.ofNat 64 vl.bytes

/-- A multiple of the vector length. -/
def rdvl : Registers := r.setGeneral (arg ops 0) (lengthMultiple vl (arg ops 1).imm) .zero

/-- A multiple of the vector length added to a register. -/
def addvl : Registers :=
  r.setGeneral (arg ops 0) (r.general (arg ops 1) .stack + lengthMultiple vl (arg ops 2).imm) .stack

end

end ArmToolkit.A64.Semantics
