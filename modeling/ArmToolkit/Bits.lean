import ArmToolkit.PowerOfTwo

/-!
# `Bits` — counting bits, and numbers that fit in bits

## Contents
- **Counting.** The lowest and the highest bit that is set, zeros at both ends, and the number of ones.
- **Numbers.** The lowest bits as a number, sign extension, and whether a number fits in a number of bits.
-/

namespace ArmToolkit.Bits

/-! ## Counting -/

/-- The lowest bit that is set. -/
def lowest? {n : Nat} (v : BitVec n) : Option Nat := (List.range n).find? fun i => v.getLsbD i

/-- The highest bit that is set. -/
def highest? {n : Nat} (v : BitVec n) : Option Nat := (List.range n).reverse.find? fun i => v.getLsbD i

/-- The number of zeros below the lowest one; all bits of zero count. -/
def trailingZeros {n : Nat} (v : BitVec n) : Nat := (lowest? v).getD n

/-- The number of zeros above the highest one; all bits of zero count. -/
def leadingZeros {n : Nat} (v : BitVec n) : Nat :=
  match highest? v with
  | some i => n - 1 - i
  | none => n

/-- The number of ones. -/
def ones {n : Nat} (v : BitVec n) : Nat := (List.range n).countP fun i => v.getLsbD i

/-! ## Numbers -/

/-- **The lowest bits as a two's complement number**; from 64 bits on it is the whole word. -/
def signedValue (bits : Nat) (v : BitVec 64) : Int := if 64 ≤ bits then v.toInt else (v.setWidth bits).toInt

/-- **Sign extension by shifts**: up to the top of the value's own width and arithmetically down again. The shifts
are done in a word of at least 32 bits, so nothing leaves a narrower value at its top, and it stays as it is. -/
def extendByShifts {n : Nat} (bits : Nat) (v : BitVec n) : BitVec n :=
  (((v.signExtend (max 32 n)) <<< (n - bits)).sshiftRight (n - bits)).setWidth n

/-- Whether a number fits in a two's complement field; from 64 bits on every number of a word does. -/
def fitsSigned (bits : Nat) (z : Int) : Bool :=
  decide (64 ≤ bits ∨ (-(twoPow (bits - 1) : Int) ≤ z ∧ z < twoPow (bits - 1)))

/-- Whether a number fits in an unsigned field; from 64 bits on every number of a word that is not negative does. -/
def fitsUnsigned (bits : Nat) (z : Int) : Bool := decide (0 ≤ z ∧ (64 ≤ bits ∨ z < twoPow bits))

end ArmToolkit.Bits
