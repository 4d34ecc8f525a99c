import ArmToolkit.A64.Memory
import ArmToolkit.A64.Semantics.Vector
import ArmToolkit.PowerOfTwo

/-!
# `A64.Semantics.Transfer` — loads and stores

A transfer succeeds where all its bytes lie in one mapped region. Loads change no memory. A store of active elements
works lane by lane from the lowest: where a lane cannot be stored, the lanes below it have been.
-/

namespace ArmToolkit.A64

/-- The registers and the memory. -/
structure Core where
  regs : Registers
  mem : Memory
  deriving DecidableEq

/-- An access to memory that is not mapped. -/
structure AccessFault where
  access : Access
  size : Nat
  address : BitVec 64
  deriving DecidableEq

/-- **What a transfer does**: it succeeds, or it faults. Either way it leaves registers and memory as given. -/
inductive TransferResult
  | done (core : Core)
  | fault (why : AccessFault) (core : Core)

namespace Semantics

/-- The registers after a load of `n` bytes. -/
def loading (core : Core) (address : BitVec 64) (n : Nat) (use : List Text.Byte → Registers) : TransferResult :=
  match core.mem.read? address n with
  | some bytes => .done { core with regs := use bytes }
  | none => .fault ⟨.load, n, address⟩ core

/-- The memory after a store of bytes. -/
def storing (core : Core) (address : BitVec 64) (bytes : List Text.Byte) : TransferResult :=
  match core.mem.write? address bytes with
  | some mem => .done { core with mem }
  | none => .fault ⟨.store, bytes.length, address⟩ core

/-- The address of a memory operand with an offset in units of some bytes. -/
def address (mem : Operand) (unit : Nat) (r : Registers) : BitVec 64 :=
  r.read mem.reg .stack + mem.imm * BitVec.ofNat 64 unit

/-- A load or store of a general register. -/
def transfer (access : Access) (size : TransferSize) (ops : List Operand) (core : Core) : TransferResult :=
  let rt := arg ops 0
  let n := twoPow size.log2
  let a := address (arg ops 1) 1 core.regs
  match access with
  | .load => loading core a n fun bytes => core.regs.setGeneral rt (ofBytes 64 bytes) .zero
  | .store => storing core a (bytesOf n (core.regs.general rt .zero))

/-- A load or store of a scalar register. -/
def transferScalar (access : Access) (l : LaneSize) (ops : List Operand) (core : Core) : TransferResult :=
  let a := address (arg ops 1) 1 core.regs
  let code := regAt ops 0
  match access with
  | .load => loading core a l.bytes fun bytes => core.regs.writeScalar code l.bits (ofBytes l.bits bytes)
  | .store => storing core a (bytesOf l.bytes (core.regs.zBits code))

/-- A load or store of a vector register. -/
def transferZ (access : Access) (vl : VectorLength) (ops : List Operand) (core : Core) : TransferResult :=
  let a := address (arg ops 1) vl.bytes core.regs
  let code := regAt ops 0
  match access with
  | .load => loading core a vl.bytes fun bytes => core.regs.mapLanes code 8 vl.bytes fun i => bytes.getD i 0
  | .store => storing core a (bytesOf vl.bytes (core.regs.zBits code))

/-- A load or store of a predicate register. -/
def transferP (access : Access) (vl : VectorLength) (ops : List Operand) (core : Core) : TransferResult :=
  let n := vl.predicateBytes
  let a := address (arg ops 1) n core.regs
  let code := regAt ops 0
  match access with
  | .load =>
    loading core a n fun bytes =>
      core.regs.setP code (putLanes 8 (core.regs.pBits code) n fun i => bytes.getD i 0)
  | .store => storing core a (bytesOf n (core.regs.pBits code))

/-- The address of lane `i` of a transfer of elements. -/
def laneAddress (base : BitVec 64) (l : LaneSize) (i : Nat) : BitVec 64 := base + BitVec.ofNat 64 (i * l.bytes)

/-- The first of some lanes that cannot be loaded. -/
def firstUnreadable? (mem : Memory) (base : BitVec 64) (l : LaneSize) (lanes : List Nat) : Option Nat :=
  lanes.find? fun i => (mem.read? (laneAddress base l i) l.bytes).isNone

/-- A load of the active elements; inactive ones are zero. -/
def loadElements (l : LaneSize) (vl : VectorLength) (ops : List Operand) (core : Core) : TransferResult :=
  let r := core.regs
  let base := address (arg ops 2) vl.bytes r
  let pg := r.pBits (regAt ops 1)
  match firstUnreadable? core.mem base l (activeLanes l.bytes pg (vl.lanes l)) with
  | some i => .fault ⟨.load, l.bytes, laneAddress base l i⟩ core
  | none =>
    let value (i : Nat) : BitVec l.bits := ofBytes l.bits ((core.mem.read? (laneAddress base l i) l.bytes).getD [])
    .done { core with regs := onActive vl r l (regAt ops 1) (regAt ops 0) false value }

/-- The stores of some lanes of a vector, in order, up to the first that faults. -/
def storeLanes (l : LaneSize) (v : ZBits) (base : BitVec 64) (core : Core) : List Nat → TransferResult
  | [] => .done core
  | i :: is =>
    match storing core (laneAddress base l i) (bytesOf l.bytes (lane l.bits v i)) with
    | .done core => storeLanes l v base core is
    | .fault why core => .fault why core

/-- A store of the active elements. -/
def storeElements (l : LaneSize) (vl : VectorLength) (ops : List Operand) (core : Core) : TransferResult :=
  let r := core.regs
  storeLanes l (r.zBits (regAt ops 0)) (address (arg ops 2) vl.bytes r) core
    (activeLanes l.bytes (r.pBits (regAt ops 1)) (vl.lanes l))

end Semantics

end ArmToolkit.A64
