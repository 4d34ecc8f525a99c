/-!
# `PowerOfTwo` — how many numbers a given number of bits holds

## Contents
- **Powers.** `twoPow n` is two to the power `n`.
- **Laws.** It starts at one, doubles with every bit, is never zero, grows with the bits, and turns sums into products.
- **Two's complement.** Half of the numbers of so many bits are negative (`toInt_bounds`, `toInt_ofInt_of_range`), and fewer
  bits are the lowest ones of more (`setWidth_ofInt`).
-/

namespace ArmToolkit

/-- **Two to the power `n`**: the count of the numbers of `n` bits. -/
def twoPow (n : Nat) : Nat := Nat.pow 2 n

/-- No bits hold one number. -/
theorem twoPow_zero : twoPow 0 = 1 := rfl

/-- One bit more holds twice as many numbers. -/
theorem twoPow_succ (n : Nat) : twoPow (n + 1) = twoPow n * 2 := rfl

/-- The range of a number of bits is twice that of one bit less. -/
theorem twoPow_pred {n : Nat} (positive : 0 < n) : twoPow n = 2 * twoPow (n - 1) := by
  rw [← Nat.mul_comm, ← twoPow_succ, Nat.sub_add_cancel positive]

/-- Some number is always held. -/
theorem twoPow_pos (n : Nat) : 0 < twoPow n := Nat.pow_pos (by decide)

/-- Bits side by side hold the products. -/
theorem twoPow_add (m n : Nat) : twoPow (m + n) = twoPow m * twoPow n := Nat.pow_add 2 m n

/-- More bits hold at least as many numbers. -/
theorem twoPow_le {m n : Nat} (h : m ≤ n) : twoPow m ≤ twoPow n := Nat.pow_le_pow_right (by decide) h

/-- The numbers of some bits go into those of more bits evenly. -/
theorem twoPow_dvd {m n : Nat} (h : m ≤ n) : twoPow m ∣ twoPow n := Nat.pow_dvd_pow 2 h

section

variable {n : Nat}

/-- The range of signed numbers. -/
theorem toInt_bounds (a : BitVec n) : -(twoPow (n - 1) : Int) ≤ a.toInt ∧ a.toInt < twoPow (n - 1) :=
  ⟨by exact_mod_cast a.le_toInt, by exact_mod_cast a.toInt_lt⟩

/-- A number in range is the value of its bits. -/
theorem toInt_ofInt_of_range (positive : 0 < n) {z : Int} (low : -(twoPow (n - 1) : Int) ≤ z) (high : z < twoPow (n - 1)) :
    (BitVec.ofInt n z).toInt = z :=
  BitVec.toInt_ofInt_eq_self positive (by exact_mod_cast low) (by exact_mod_cast high)

/-- An unsigned number in range is the value of its bits. -/
theorem toNat_ofInt_of_range {z : Int} (low : 0 ≤ z) (high : z < twoPow n) : ((BitVec.ofInt n z).toNat : Int) = z := by
  have whole : z % (twoPow n : Int) = z := Int.emod_eq_of_lt low high
  rw [BitVec.toNat_ofInt]
  exact (congrArg (fun m : Int => (m.toNat : Int)) whole).trans (Int.toNat_of_nonneg low)

/-- The lowest bits of a number do not depend on how many there are above. -/
theorem setWidth_ofInt {m : Nat} (narrow : n ≤ m) (z : Int) : (BitVec.ofInt m z).setWidth n = BitVec.ofInt n z := by
  have divides : (twoPow n : Int) ∣ (twoPow m : Int) := Int.natCast_dvd_natCast.mpr (twoPow_dvd narrow)
  have cut : z.bmod (twoPow m) % (twoPow n : Int) = z % (twoPow n : Int) := by
    rw [← Int.emod_emod_of_dvd _ divides, Int.bmod_emod, Int.emod_emod_of_dvd _ divides]
  rw [← BitVec.signExtend_eq_setWidth_of_le _ narrow, BitVec.signExtend, BitVec.toInt_ofInt]
  apply BitVec.eq_of_toNat_eq
  rw [BitVec.toNat_ofInt, BitVec.toNat_ofInt]
  exact congrArg Int.toNat cut

end

end ArmToolkit
