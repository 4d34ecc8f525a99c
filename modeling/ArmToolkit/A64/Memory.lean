import ArmToolkit.A64.Lane
import ArmToolkit.A64.SparseBytes
import ArmToolkit.PowerOfTwo
import ArmToolkit.Text.HexBytes
import ArmToolkit.Text.Numeral

/-!
# `A64.Memory` — byte memory made of mapped regions

## Contents
- **Regions.** `Memory` is a list of regions that do not meet. `Memory.map?` adds one.
- **Bytes.** `Memory.read?` and `Memory.write?` succeed where all bytes lie in one region.
- **Numbers.** `bytesOf` and `ofBytes` turn numbers into little-endian bytes and back (`ofBytes_bytesOf`); `load?` and
  `store?` read and write numbers.
-/

namespace ArmToolkit.A64

open Text (Byte hex)

/-! ## Numbers as bytes -/

/-- The lowest `n` bytes of a number, lowest first. -/
def bytesOf (n : Nat) {w : Nat} (v : BitVec w) : List Byte := (List.range n).map fun i => lane 8 v i

/-- The number whose bytes are given, lowest first. -/
def natOfBytes : List Byte → Nat
  | [] => 0
  | b :: bs => b.toNat + 256 * natOfBytes bs

/-- **The number whose bytes are given**, lowest first. -/
def ofBytes (w : Nat) (bs : List Byte) : BitVec w := BitVec.ofNat w (natOfBytes bs)

/-- As many bytes as were asked for. -/
theorem length_bytesOf (n : Nat) {w : Nat} (v : BitVec w) : (bytesOf n v).length = n := by simp [bytesOf]

/-- The lowest byte comes first, and the rest are those of the number shifted down. -/
theorem bytesOf_succ (n : Nat) {w : Nat} (v : BitVec w) :
    bytesOf (n + 1) v = v.setWidth 8 :: bytesOf n (v >>> 8) := by
  rw [bytesOf, List.range_succ_eq_map, List.map_cons, List.map_map, bytesOf]
  congr 1
  · apply BitVec.eq_of_getLsbD_eq
    intro j hj
    rw [getLsbD_lane, BitVec.getLsbD_setWidth, Nat.zero_mul, Nat.zero_add]
  · apply List.map_congr_left
    intro i _
    apply BitVec.eq_of_getLsbD_eq
    intro j hj
    rw [Function.comp_apply, getLsbD_lane, getLsbD_lane, BitVec.getLsbD_ushiftRight,
      show i.succ * 8 + j = 8 + (i * 8 + j) by omega]

/-- The bytes of a number hold its lowest bits. -/
theorem natOfBytes_bytesOf (n : Nat) {w : Nat} (v : BitVec w) :
    natOfBytes (bytesOf n v) = v.toNat % twoPow (8 * n) := by
  induction n generalizing v with
  | zero => simp [bytesOf, natOfBytes, twoPow_zero, Nat.mod_one]
  | succ n ih =>
    have byte : (2 : Nat) ^ 8 = 256 := rfl
    have width : twoPow (8 * (n + 1)) = 256 * twoPow (8 * n) := by rw [Nat.mul_succ, Nat.add_comm, twoPow_add]; rfl
    rw [bytesOf_succ, natOfBytes, ih, BitVec.toNat_setWidth, BitVec.toNat_ushiftRight, Nat.shiftRight_eq_div_pow,
      byte, width, Nat.mod_mul]

/-- A number is read back from its bytes. -/
theorem ofBytes_bytesOf (n : Nat) (v : BitVec (8 * n)) : ofBytes (8 * n) (bytesOf n v) = v := by
  apply BitVec.eq_of_toNat_eq
  rw [ofBytes, BitVec.toNat_ofNat, natOfBytes_bytesOf]
  exact (congrArg (· % _) (Nat.mod_eq_of_lt v.isLt)).trans (Nat.mod_eq_of_lt v.isLt)

/-! ## Regions -/

/-- A mapped region: so many bytes from an address on. -/
structure Region where
  base : Nat
  size : Nat
  bytes : SparseBytes := .zeros
  deriving DecidableEq

namespace Region

/-- The address behind the last byte of a region. -/
def limit (r : Region) : Nat := r.base + r.size

/-- Whether `n` bytes from an address on lie in the region. -/
def contains (r : Region) (address n : Nat) : Bool := decide (r.base ≤ address ∧ address + n ≤ r.limit)

/-- Whether the region meets the addresses from `a` up to `b`. -/
def meets (r : Region) (a b : Nat) : Bool := decide (a < r.limit ∧ r.base < b)

/-- The `n` bytes at an address of the region. -/
def slice (r : Region) (address n : Nat) : List Byte := r.bytes.slice (address - r.base) n

/-- The region with bytes put at an address. -/
def put (r : Region) (address : Nat) (bs : List Byte) : Region :=
  { r with bytes := r.bytes.put (address - r.base) bs }

/-- Bytes that were put into a region are read back. -/
theorem slice_put (r : Region) (address : Nat) (bs : List Byte) :
    (r.put address bs).slice address bs.length = bs := SparseBytes.slice_put _ _ _

end Region

/-- **A memory**: regions in the order in which they were mapped. -/
structure Memory where
  regions : List Region
  deriving DecidableEq

/-- Why a region cannot be mapped: it is empty or wraps, or it meets another. -/
inductive MapError
  | invalid (base size : Nat)
  | overlap (base limit otherBase otherLimit : Nat)

/-- The wording of a mapping error. -/
def MapError.message : MapError → String
  | invalid base size => "Invalid region 0x" ++ hex base ++ " size 0x" ++ hex size
  | overlap a b c d =>
    "Region 0x" ++ hex a ++ "-0x" ++ hex b ++ " overlaps 0x" ++ hex c ++ "-0x" ++ hex d

namespace Memory

/-- Nothing mapped. -/
def empty : Memory := ⟨[]⟩

/-- The end of the address space. -/
def addressLimit : Nat := twoPow 64

/-- **Why a region cannot be mapped**, if it cannot: it needs bytes, its end has to be an address, and it may meet no
    region that is mapped already. -/
def obstacle? (m : Memory) (base : BitVec 64) (size : Nat) : Option MapError :=
  let limit := base.toNat + size
  if size = 0 ∨ addressLimit ≤ limit then some (.invalid base.toNat size)
  else (m.regions.find? fun r => r.meets base.toNat limit).map fun r => .overlap base.toNat limit r.base r.limit

/-- The memory with one more region. -/
def add (m : Memory) (r : Region) : Memory := ⟨m.regions ++ [r]⟩

/-- **Maps a region** with the given bytes. -/
def map? (m : Memory) (base : BitVec 64) (data : List Byte) : Except MapError Memory :=
  match m.obstacle? base data.length with
  | some e => .error e
  | none => .ok (m.add { base := base.toNat, size := data.length, bytes := .ofList data })

/-- Maps a region of zeros. -/
def mapZeros? (m : Memory) (base : BitVec 64) (size : Nat) : Except MapError Memory :=
  match m.obstacle? base size with
  | some e => .error e
  | none => .ok (m.add { base := base.toNat, size })

/-! ## Bytes -/

/-- Whether all of `n` bytes lie in one region. -/
def isMapped (m : Memory) (address : BitVec 64) (n : Nat) : Bool :=
  m.regions.any fun r => r.contains address.toNat n

/-- **The `n` bytes at an address**, if they lie in one region. -/
def read? (m : Memory) (address : BitVec 64) (n : Nat) : Option (List Byte) :=
  (m.regions.find? fun r => r.contains address.toNat n).map fun r => r.slice address.toNat n

/-- Puts bytes into the first region that contains them. -/
def putFirst (address : Nat) (bs : List Byte) : List Region → List Region
  | [] => []
  | r :: rs => if r.contains address bs.length then r.put address bs :: rs else r :: putFirst address bs rs

/-- **Writes bytes at an address**, if they lie in one region. -/
def write? (m : Memory) (address : BitVec 64) (bs : List Byte) : Option Memory :=
  if m.isMapped address bs.length then some ⟨putFirst address.toNat bs m.regions⟩ else none

/-! ## Numbers -/

/-- The number of `n` bytes at an address. -/
def load? (m : Memory) (address : BitVec 64) (n : Nat) : Option (BitVec (8 * n)) :=
  (m.read? address n).map (ofBytes (8 * n))

/-- Writes the lowest `n` bytes of a number at an address. -/
def store? (m : Memory) (address : BitVec 64) (n : Nat) {w : Nat} (v : BitVec w) : Option Memory :=
  m.write? address (bytesOf n v)

end Memory

end ArmToolkit.A64
