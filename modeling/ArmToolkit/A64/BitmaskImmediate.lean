import ArmToolkit.Bits
import ArmToolkit.PowerOfTwo

/-!
# `A64.BitmaskImmediate` — immediates made of one repeated run of ones

A bitmask immediate fills the register with copies of an element of 2, 4, 8, 16, 32 or 64 bits, and the element is
a rotated run of at least one and not only ones. It is encoded in thirteen bits `N:immr:imms`: `N` and the leading
ones of `imms` give the element size, the rest of `imms` the length of the run less one, and `immr` the rotation.

## Contents
- `replicate`, `rotateRight`, `onesBelow` — the arithmetic of elements.
- `encode?` — the encoding of a value, with the smallest element size.
- `decode?` — the value and the element size of an encoding.
-/

namespace ArmToolkit.A64.BitmaskImmediate

/-- The number whose lowest `n` bits are set. -/
def onesBelow (n : Nat) : BitVec 64 := if 64 ≤ n then BitVec.allOnes 64 else BitVec.ofNat 64 (twoPow n - 1)

/-- Doubles the number of copies `k` times: the element sits in the lowest `size` bits. -/
def doublings : Nat → Nat → BitVec 64 → BitVec 64
  | 0, _, v => v
  | k + 1, size, v =>
    if size = 0 ∨ 64 ≤ size then v else doublings k (2 * size) (v ||| (v <<< size))

/-- **The lowest `size` bits of a value, repeated** over all 64 bits. -/
def replicate (v : BitVec 64) (size : Nat) : BitVec 64 := doublings 6 size (v &&& onesBelow size)

/-- The lowest `size` bits of a value, rotated right within those bits. -/
def rotateRight (v : BitVec 64) (amount size : Nat) : BitVec 64 :=
  let e := v &&& onesBelow size
  if amount = 0 then e else ((e >>> amount) ||| (e <<< (size - amount))) &&& onesBelow size

/-- The element sizes from small to large. -/
def sizes : List Nat := [2, 4, 8, 16, 32, 64]

/-- The smallest element size whose repetition gives the value. -/
def elementSize (v : BitVec 64) : Nat := (sizes.find? fun e => replicate v e == v).getD 64

/-- A value of a register of `size` bits as a value of 64 bits, the lower half doubled for a 32-bit register; nothing
    if it has bits above the register. -/
def widen? (v : BitVec 64) (size : Nat) : Option (BitVec 64) :=
  if size = 32 then
    if v >>> 32 = 0 then some (v ||| (v <<< 32)) else none
  else some v

/-- **The encoding of a value** for a register of `size` bits, 32 or 64. -/
def encode? (v : BitVec 64) (size : Nat) : Option Nat := do
  let full ← widen? v size
  if full = 0 ∨ full = BitVec.allOnes 64 then none
  let e := elementSize full
  let element := full &&& onesBelow e
  let count := Bits.ones element
  let rotation ← (List.range e).find? fun r => rotateRight (onesBelow count) r e == element
  let n := if e = 64 then 1 else 0
  let imms := (64 - 2 * e) % 64 + (count - 1)
  pure (n * 4096 + rotation * 64 + imms)

/-- **The value and the element size of an encoding** for a register of `size` bits; nothing if it is reserved. -/
def decode? (bits size : Nat) : Option (BitVec 64 × Nat) :=
  let n := bits / 4096 % 2
  let immr := bits / 64 % 64
  let imms := bits % 64
  let combined := n * 64 + (63 - imms)
  if size = 32 ∧ n ≠ 0 then none
  else if combined ≤ 1 then none
  else
    let e := twoPow combined.log2
    let run := imms % e
    let rotation := immr % e
    if run = e - 1 then none
    else
      let full := replicate (rotateRight (onesBelow (run + 1)) rotation e) e
      some (if size = 32 then full &&& onesBelow 32 else full, e)

end ArmToolkit.A64.BitmaskImmediate
