import ArmToolkit.A64.Lane
import ArmToolkit.Text.Numeral

/-!
# `A64.VectorLength` — the length of vector registers

A vector length is a multiple of 128 bits from 128 to 2048. `VectorLength.clamp` turns any number of bits into one.
-/

namespace ArmToolkit.A64

/-- Whether vector registers can have this many bits. -/
def isVectorLength (bits : Nat) : Bool := decide (128 ≤ bits ∧ bits ≤ 2048 ∧ bits % 128 = 0)

/-- **A vector length**, in bits. -/
structure VectorLength where
  bits : Nat
  valid : isVectorLength bits = true
  deriving DecidableEq

namespace VectorLength

/-- The vector length of a number of bits. -/
def ofBits? (bits : Nat) : Option VectorLength :=
  if h : isVectorLength bits = true then some ⟨bits, h⟩ else none

/-- What is said about a number of bits that is no vector length. -/
def refusal (bits : Nat) : String :=
  "Vector length " ++ Text.dec bits ++ " is not a multiple of 128 in [128, 2048]"

/-- The length in bytes. -/
def bytes (vl : VectorLength) : Nat := vl.bits / 8

/-- The length of a predicate register in bytes: one bit a byte of a vector. -/
def predicateBytes (vl : VectorLength) : Nat := vl.bits / 64

/-- The number of bits rounded down to a multiple of 128, and brought into the range of vector lengths. -/
def clamp (bits : Nat) : Nat := max 128 (min 2048 (bits - bits % 128))

/-- The number of lanes of a size. -/
def lanes (vl : VectorLength) (lane : LaneSize) : Nat := vl.bytes / lane.bytes

/-- The lanes lie within a register. -/
theorem lanes_mul_bits_le (vl : VectorLength) (lane : LaneSize) : vl.lanes lane * lane.bits ≤ 2048 := by
  have bound : vl.bits ≤ 2048 := by
    have := vl.valid
    simp only [isVectorLength, decide_eq_true_eq] at this
    exact this.2.1
  have eight : lane.bits = lane.bytes * 8 := by cases lane <;> rfl
  rw [eight, ← Nat.mul_assoc, lanes, bytes]
  exact Nat.le_trans (Nat.mul_le_mul_right 8 (Nat.div_mul_le_self _ _)) (by omega)

end VectorLength

end ArmToolkit.A64
