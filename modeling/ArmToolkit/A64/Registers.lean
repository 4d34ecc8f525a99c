import ArmToolkit.A64.OperandText
import ArmToolkit.A64.VectorLength
import ArmToolkit.Condition

/-!
# `A64.Registers` — the register file

## Contents
- **The file.** `Registers`: general registers, stack pointer, program counter, flags, vector and predicate
  registers, the first-fault register, and the vector length, if one is configured.
- **General registers.** `read` and `write` take code 31 as zero or as the stack pointer; `general` and `setGeneral`
  do so for a register operand.
- **Vector registers.** `zLane`, `setZLane`, `mapLanes` (all lanes of the vector length at once) and `writeScalar`.
- **Predicates.** `active` and its relatives read a predicate as a row of lanes. A lane is active when the lowest bit
  of its part of the register is set.

Codes past the end of a register file read as zero and are not written.
-/

namespace ArmToolkit.A64

/-- The bits of a vector register at the greatest vector length. -/
abbrev ZBits := BitVec 2048

/-- The bits of a predicate register at the greatest vector length: one a byte of a vector register. -/
abbrev PBits := BitVec 256

/-- **The register file.** Vector and predicate registers have room for the greatest vector length. -/
structure Registers where
  x : Vector (BitVec 64) 31
  sp : BitVec 64
  pc : BitVec 64
  flags : Flags
  z : Vector ZBits 32
  p : Vector PBits 16
  ffr : PBits
  vl : Option VectorLength
  deriving DecidableEq

namespace Registers

/-- All registers zero, and a vector length. -/
def zero (vl : Option VectorLength) : Registers where
  x := .replicate 31 0
  sp := 0
  pc := 0
  flags := .clear
  z := .replicate 32 0
  p := .replicate 16 0
  ffr := 0
  vl := vl

/-- All registers zero; the vector length is kept. -/
def reset (r : Registers) : Registers := zero r.vl

/-! ## General registers -/

/-- **A general register.** Code 31 is zero, or the stack pointer. -/
def read (r : Registers) (code : Nat) (c : Code31) : BitVec 64 :=
  if code = 31 then
    match c with
    | .zero => 0
    | .stack => r.sp
  else r.x.toArray.getD code 0

/-- Writes a general register. Code 31 is dropped, or the stack pointer. -/
def write (r : Registers) (code : Nat) (value : BitVec 64) (c : Code31) : Registers :=
  if code = 31 then
    match c with
    | .zero => r
    | .stack => { r with sp := value }
  else { r with x := r.x.setIfInBounds code value }

/-- Writing a general register changes that register alone. -/
theorem read_write (r : Registers) (c d : Nat) (v : BitVec 64) (hc : c < 31) (hd : d < 31) (k l : Code31) :
    (r.write c v k).read d l = if c = d then v else r.read d l := by
  have : ¬ c = 31 := by omega
  have : ¬ d = 31 := by omega
  by_cases e : c = d
  · subst e; simp [read, write, *, Array.getD]
  · simp [read, write, *, Array.getD]

/-- The value of a general register operand; a 32-bit one is zero-extended. -/
def general (r : Registers) (op : Operand) (c : Code31) : BitVec 64 :=
  let v := r.read op.reg c
  if op.kind = .w then (v.setWidth 32).setWidth 64 else v

/-- Writes a general register operand; a 32-bit one is zero-extended. -/
def setGeneral (r : Registers) (op : Operand) (value : BitVec 64) (c : Code31) : Registers :=
  r.write op.reg (if op.kind = .w then (value.setWidth 32).setWidth 64 else value) c

/-! ## Vector registers -/

/-- The bits of a vector register. -/
def zBits (r : Registers) (code : Nat) : ZBits := r.z.toArray.getD code 0

/-- Replaces the bits of a vector register. -/
def setZ (r : Registers) (code : Nat) (v : ZBits) : Registers := { r with z := r.z.setIfInBounds code v }

/-- Replacing the bits of a vector register changes that register alone. -/
theorem zBits_setZ (r : Registers) (c d : Nat) (v : ZBits) :
    (r.setZ c v).zBits d = if c = d ∧ c < 32 then v else r.zBits d := by
  by_cases h : d < 32
  · by_cases e : c = d
    · subst e; simp [zBits, setZ, h, Array.getD]
    · simp [zBits, setZ, h, Array.getD, e]
  · have : ¬ (c = d ∧ c < 32) := by omega
    simp [zBits, setZ, h, Array.getD, this]

/-- Lane `i` of a vector register. -/
def zLane (r : Registers) (code n i : Nat) : BitVec n := lane n (r.zBits code) i

/-- Replaces lane `i` of a vector register. -/
def setZLane (r : Registers) (code n i : Nat) (v : BitVec n) : Registers :=
  r.setZ code (setLane n (r.zBits code) i v)

/-- **Replaces the lowest lanes of a vector register**; the bits above them are kept. -/
def mapLanes (r : Registers) (code n count : Nat) (f : Nat → BitVec n) : Registers :=
  r.setZ code (putLanes n (r.zBits code) count f)

/-- The number of bytes of a vector register. -/
def zBytes : Nat := 256

/-- Clears a vector register from a byte on; past its end there is nothing to clear. -/
def clearZFrom (r : Registers) (code byte : Nat) : Registers :=
  if byte < zBytes then r.setZ code (((r.zBits code).setWidth (8 * byte)).setWidth 2048) else r

/-- The lowest `n` bits of a vector register. -/
def scalar (r : Registers) (code n : Nat) : BitVec n := r.zLane code n 0

/-- **Writes a scalar**: the lowest bits of a vector register, with zeros above them. -/
def writeScalar (r : Registers) (code n : Nat) (v : BitVec n) : Registers := r.setZ code (v.setWidth 2048)

/-! ## Predicates -/

/-- The bits of a predicate register. -/
def pBits (r : Registers) (code : Nat) : PBits := r.p.toArray.getD code 0

/-- Replaces the bits of a predicate register. -/
def setP (r : Registers) (code : Nat) (v : PBits) : Registers := { r with p := r.p.setIfInBounds code v }

/-- Replacing the bits of a predicate register changes that register alone. -/
theorem pBits_setP (r : Registers) (c d : Nat) (v : PBits) :
    (r.setP c v).pBits d = if c = d ∧ c < 16 then v else r.pBits d := by
  by_cases h : d < 16
  · by_cases e : c = d
    · subst e; simp [pBits, setP, h, Array.getD]
    · simp [pBits, setP, h, Array.getD, e]
  · have : ¬ (c = d ∧ c < 16) := by omega
    simp [pBits, setP, h, Array.getD, this]

end Registers

/-- **Whether lane `i` of a predicate is active**, for lanes of `k` bytes. -/
def activeLane (k : Nat) (v : PBits) (i : Nat) : Bool := v.getLsbD (i * k)

/-- The bits of one lane of `k` bytes: the lowest bit tells whether it is active. -/
def laneFlag (k : Nat) (active : Bool) : BitVec k := BitVec.ofNat k active.toNat

/-- Sets one lane of a predicate active or inactive. -/
def setActive (k : Nat) (v : PBits) (i : Nat) (active : Bool) : PBits := setLane k v i (laneFlag k active)

/-- **The predicate with the given lanes active**, and all other bits clear. -/
def predicateOf (k count : Nat) (f : Nat → Bool) : PBits := ofLanes k 256 count fun i => laneFlag k (f i)

/-- The predicate whose lowest lanes are active, out of `count`. -/
def lowestActive (k count active : Nat) : PBits := predicateOf k count fun i => decide (i < active)

/-- The places of the active lanes among the lowest `count`, in rising order. -/
def activeLanes (k : Nat) (v : PBits) (count : Nat) : List Nat :=
  (List.range count).filter fun i => activeLane k v i

/-- **The flags that describe a result predicate** seen through a governing one: N tells whether the first governed
    lane is set, Z that no governed lane is, and C that the last one is not. -/
def predicateTest (k : Nat) (governing result : PBits) (count : Nat) : Flags :=
  let seen := (activeLanes k governing count).map fun i => activeLane k result i
  { n := seen.head?.getD false
    z := !seen.any id
    c := !(seen.getLast?.getD false)
    v := false }

end ArmToolkit.A64
