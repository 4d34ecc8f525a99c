import ArmToolkit.A64.Slot
import ArmToolkit.Proofs.Fields

/-!
# `Proofs.Immediates` — numbers as 64-bit immediates and as fields

Operands hold numbers in 64 bits, fields in a few. A number that passes the range check of its slot is the same in both.

## Contents
- **Immediates.** `Slot.natImm` and `Slot.intImm` against the number and the value of an immediate.
- **Signed fields.** `Field.getSigned_bounds`, `Field.getSigned_mod`, and that the two determine the value
  (`Field.getSigned_eq`).
- **Range checks.** What passes `rangeFault?`, `shiftFault?` and their combinations.
-/

namespace ArmToolkit.A64

/-! ## Immediates -/

namespace Slot

theorem natImm_toNat (v : BitVec 64) : natImm v.toNat = v := (BitVec.ofNat_toNat 64 v).trans (BitVec.setWidth_eq v)

theorem intImm_toInt (v : BitVec 64) : intImm v.toInt = v := BitVec.ofInt_toInt

theorem toNat_natImm {n : Nat} (h : n < twoPow 64) : (natImm n).toNat = n :=
  (BitVec.toNat_ofNat n 64).trans (Nat.mod_eq_of_lt h)

theorem toInt_natImm {n : Nat} (h : n < twoPow 63) : (natImm n).toInt = n := by
  have wide : (natImm n).toNat = n := toNat_natImm (Nat.lt_of_lt_of_le h (twoPow_le (by decide)))
  have bound : n < 2 ^ 63 := h
  rw [BitVec.toInt_eq_toNat_cond, wide, if_pos (by omega)]

theorem toInt_intImm {z : Int} (low : -(twoPow 63 : Int) ≤ z) (high : z < twoPow 63) : (intImm z).toInt = z := by
  have low : -(2 ^ 63) ≤ z := low
  have high : z < 2 ^ 63 := high
  rw [intImm, BitVec.toInt_ofInt, Int.bmod_eq_of_le_mul_two (by omega) (by omega)]

/-- An immediate that is not negative has its value as its number. -/
theorem toNat_eq_toInt {v : BitVec 64} (h : 0 ≤ v.toInt) : (v.toNat : Int) = v.toInt := by
  rw [BitVec.toInt_eq_toNat_cond] at h ⊢
  split <;> omega

/-- An immediate in the unsigned range of some bits is the number of these bits. -/
theorem toNat_mod_of_range {v : BitVec 64} {k : Nat} (low : 0 ≤ v.toInt) (high : v.toInt < twoPow k) :
    v.toNat % twoPow k = v.toNat := by
  have := toNat_eq_toInt low
  exact Nat.mod_eq_of_lt (by omega)

/-- The lowest bits of an immediate are those of its value. -/
theorem toNat_emod {v : BitVec 64} {k : Nat} (hk : k ≤ 64) :
    (v.toNat : Int) % (twoPow k : Int) = v.toInt % (twoPow k : Int) := by
  have whole : (v.toNat : Int) % (twoPow 64 : Int) = v.toInt % (twoPow 64 : Int) := by
    show _ % ((2 ^ 64 : Nat) : Int) = _ % ((2 ^ 64 : Nat) : Int)
    rw [BitVec.toInt_eq_toNat_bmod, Int.bmod_emod]
  have divides : (twoPow k : Int) ∣ (twoPow 64 : Int) := Int.natCast_dvd_natCast.mpr (twoPow_dvd hk)
  rw [← Int.emod_emod_of_dvd _ divides, whole, Int.emod_emod_of_dvd _ divides]

/-- The bits of an immediate above the lowest two are those of a quarter of its value. -/
theorem toNat_quarter_emod {v : BitVec 64} {k : Nat} (hk : k ≤ 62) :
    ((v.toNat / 4 : Nat) : Int) % (twoPow k : Int) = v.toInt / 4 % (twoPow k : Int) := by
  obtain ⟨c, wraps⟩ : ∃ c : Int, (v.toNat : Int) = v.toInt + 4 * (twoPow 62 * c) := by
    rw [BitVec.toInt_eq_toNat_cond]
    split
    · exact ⟨0, by omega⟩
    · have quarter : (twoPow 62 : Int) = 2 ^ 62 := rfl
      exact ⟨1, by omega⟩
  obtain ⟨d, divides⟩ : (twoPow k : Int) ∣ (twoPow 62 : Int) := Int.natCast_dvd_natCast.mpr (twoPow_dvd hk)
  rw [Int.natCast_ediv, wraps]
  rw [show ((4 : Nat) : Int) = 4 from rfl, Int.add_mul_ediv_left _ _ (by decide), divides, Int.mul_assoc,
    Int.add_mul_emod_self_left]

end Slot

/-! ## Signed fields -/

namespace Field

theorem getSigned_mod (f : Field) (w : Word) : f.getSigned w % (twoPow f.width : Int) = f.get w := by
  have lt := f.get_lt w
  show (w.extractLsb' f.lsb f.width).toInt % ((2 ^ f.width : Nat) : Int) = _
  rw [BitVec.toInt_eq_toNat_bmod, Int.bmod_emod]
  exact Int.emod_eq_of_lt (by omega) (Int.ofNat_lt.mpr lt)

theorem getSigned_bounds {f : Field} {k : Nat} (hk : f.width = k + 1) (w : Word) :
    -(twoPow k : Int) ≤ f.getSigned w ∧ f.getSigned w < twoPow k := by
  obtain ⟨lsb, width⟩ := f
  cases hk
  have low := BitVec.le_toInt (w.extractLsb' lsb (k + 1))
  have high := BitVec.toInt_lt (x := w.extractLsb' lsb (k + 1))
  rw [Nat.add_sub_cancel] at low high
  constructor
  · show -((2 ^ k : Nat) : Int) ≤ _
    exact_mod_cast low
  · show _ < ((2 ^ k : Nat) : Int)
    exact_mod_cast high

/-- A signed number reduced modulo the count of its range. -/
theorem emod_of_signed {z m : Int} (low : -m ≤ z) (high : z < m) : z % (2 * m) = if 0 ≤ z then z else z + 2 * m := by
  split
  · exact Int.emod_eq_of_lt (by omega) (by omega)
  · rw [← Int.add_emod_right]
    exact Int.emod_eq_of_lt (by omega) (by omega)

theorem double_twoPow (k : Nat) : (twoPow (k + 1) : Int) = 2 * twoPow k := by
  rw [twoPow_succ, Int.natCast_mul, Int.mul_comm]
  rfl

/-- **The signed number of a field** is the one in its range with the bits of the field. -/
theorem getSigned_eq {f : Field} {k : Nat} (hk : f.width = k + 1) {w : Word} {z : Int}
    (same : z % (twoPow (k + 1) : Int) = f.get w) (low : -(twoPow k : Int) ≤ z) (high : z < twoPow k) :
    f.getSigned w = z := by
  obtain ⟨low', high'⟩ := getSigned_bounds hk w
  have same' := getSigned_mod f w
  rw [hk, ← same, double_twoPow, emod_of_signed low' high', emod_of_signed low high] at same'
  split at same' <;> split at same' <;> omega

end Field

/-! ## Range checks -/

theorem rangeFault?_eq_none {v least greatest : Int} :
    rangeFault? v least greatest = none ↔ least ≤ v ∧ v ≤ greatest := by
  rw [rangeFault?]
  split <;> simp [*]

theorem shiftFault?_eq_none {op : Operand} : shiftFault? op = none ↔ op.shift = 0 := by
  rw [shiftFault?]
  split <;> simp [*]

/-- Of two faults there is none where neither is. -/
theorem orElse_eq_none {α : Type} {a c : Option α} : (a <|> c) = none ↔ a = none ∧ c = none := by
  cases a <;> simp

/-- A fault that is reported where a condition fails. -/
theorem ite_some_eq_none {α : Type} {p : Prop} [Decidable p] {a : α} : (if p then none else some a) = none ↔ p := by
  split <;> simp [*]

end ArmToolkit.A64
