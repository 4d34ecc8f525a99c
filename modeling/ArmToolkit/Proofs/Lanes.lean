import ArmToolkit.A64.Semantics

/-!
# `Proofs.Lanes` — the lanes of a vector register after an instruction

## Contents
- **Sizes.** The lanes of every size fill a vector length (`VectorLength.lanes_mul_bits`), and have as many bits in a
  predicate as they have bytes (`VectorLength.lanes_mul_bytes`).
- **Regrouping.** Lanes of one size are bits that can be read at another (`Semantics.onAll_regroup`).
- **Reading.** What is read after the lanes of a register have been replaced: the new values in that register, and the
  old ones in all others (`Semantics.zLane_onAll`).
- **Copies.** A register that is copied lane by lane is copied at every lane size (`Semantics.onAll_copy`).
-/

namespace ArmToolkit.A64

/-! ## Sizes -/

theorem LaneSize.bits_pos (l : LaneSize) : 0 < l.bits := by cases l <;> decide

theorem LaneSize.bytes_pos (l : LaneSize) : 0 < l.bytes := by cases l <;> decide

theorem LaneSize.bits_le (l : LaneSize) : l.bits ≤ 128 := by cases l <;> decide

theorem LaneSize.bits_eq (l : LaneSize) : l.bits = l.bytes * 8 := by cases l <;> rfl

namespace VectorLength

variable (vl : VectorLength)

/-- What makes a number of bits a vector length. -/
theorem bounds : 128 ≤ vl.bits ∧ vl.bits ≤ 2048 ∧ vl.bits % 128 = 0 := by
  simpa only [isVectorLength, decide_eq_true_eq] using vl.valid

/-- **The lanes of a size fill a vector length.** -/
theorem lanes_mul_bits (l : LaneSize) : vl.lanes l * l.bits = vl.bits := by
  have bounds := vl.bounds
  unfold lanes bytes
  cases l with
  | b | h | s | d | q =>
    simp only [LaneSize.bytes, LaneSize.bits]
    omega

/-- Bytes are the lanes of eight bits. -/
theorem lanes_b : vl.lanes .b = vl.bytes := Nat.div_one _

theorem bytes_mul_eight : vl.bytes * 8 = vl.bits := vl.lanes_b ▸ vl.lanes_mul_bits .b

theorem predicateBytes_mul_eight : vl.predicateBytes * 8 = vl.bytes := by
  have bounds := vl.bounds
  unfold predicateBytes bytes
  omega

theorem bytes_le : vl.bytes ≤ 256 := by
  have bounds := vl.bounds
  have bits := vl.bytes_mul_eight
  omega

/-- The lanes have as many bits in a predicate as they have bytes. -/
theorem lanes_mul_bytes (l : LaneSize) : vl.lanes l * l.bytes = vl.bytes := by
  have bits := vl.lanes_mul_bits l
  have eight := vl.bytes_mul_eight
  rw [l.bits_eq, ← Nat.mul_assoc] at bits
  omega

/-- The lanes of a vector length lie within a predicate. -/
theorem lanes_mul_bytes_le (l : LaneSize) : vl.lanes l * l.bytes ≤ 256 := vl.lanes_mul_bytes l ▸ vl.bytes_le

/-- Lanes that integer instructions work on come in pairs. -/
theorem lanes_even {l : LaneSize} (allowed : l ∈ Form.bhsd) : vl.lanes l % 2 = 0 := by
  have bounds := vl.bounds
  unfold lanes bytes
  cases l with
  | b | h | s | d =>
    simp only [LaneSize.bytes]
    omega
  | q => exact absurd allowed (by decide)

variable {l : LaneSize} {i : Nat}

/-- A lane lies within the vector. -/
theorem lane_fits (hi : i < vl.lanes l) : i * l.bits + l.bits ≤ vl.bits := by
  have room := Nat.mul_le_mul_right l.bits (Nat.succ_le_of_lt hi)
  rwa [Nat.succ_mul, vl.lanes_mul_bits] at room

theorem lane_bytes_fit (hi : i < vl.lanes l) : i * l.bytes + l.bytes ≤ vl.bytes := by
  have room := Nat.mul_le_mul_right l.bytes (Nat.succ_le_of_lt hi)
  rwa [Nat.succ_mul, vl.lanes_mul_bytes] at room

/-- A bit of lane `i` is a bit of the vector. -/
theorem bit_lt {j : Nat} (hi : i < vl.lanes l) (hj : j < l.bits) : i * l.bits + j < vl.bits := by
  have fits := vl.lane_fits hi
  omega

end VectorLength

/-! ## Regrouping -/

/-- The lane of a bit, and the place of the bit in its lane. -/
theorem LaneSize.bit_lane (l : LaneSize) {i j : Nat} (hj : j < l.bits) :
    (i * l.bits + j) / l.bits = i ∧ (i * l.bits + j) % l.bits = j := by
  rw [Nat.mul_comm]
  exact ⟨by rw [Nat.mul_add_div l.bits_pos, Nat.div_eq_of_lt hj, Nat.add_zero],
    by rw [Nat.mul_add_mod, Nat.mod_eq_of_lt hj]⟩

/-- A bit of a vector register, as a bit of its lane. -/
theorem Registers.getLsbD_zLane_div (r : Registers) (z : Nat) (l : LaneSize) (j : Nat) :
    (r.zLane z l.bits (j / l.bits)).getLsbD (j % l.bits) = (r.zBits z).getLsbD j := by
  rw [zLane, getLsbD_lane, decide_eq_true (Nat.mod_lt j l.bits_pos), Bool.true_and, Nat.mul_comm, Nat.div_add_mod]

namespace Semantics

variable (vl : VectorLength) (r : Registers)

/-- The bits of a register whose lanes are replaced. -/
theorem getLsbD_putLanes_vl (l : LaneSize) (v : ZBits) (f : Nat → BitVec l.bits) (j : Nat) :
    (putLanes l.bits v (vl.lanes l) f).getLsbD j =
      if j < vl.bits then (f (j / l.bits)).getLsbD (j % l.bits) else v.getLsbD j := by
  rw [getLsbD_putLanes v f (vl.lanes_mul_bits_le l), vl.lanes_mul_bits]

/-- **Lanes that have the same bits may be put in at either size.** -/
theorem onAll_regroup {l l' : LaneSize} {zd : Nat} {f : Nat → BitVec l.bits} {g : Nat → BitVec l'.bits}
    (same : ∀ j, j < vl.bits → (f (j / l.bits)).getLsbD (j % l.bits) = (g (j / l'.bits)).getLsbD (j % l'.bits)) :
    onAll vl r l zd f = onAll vl r l' zd g := by
  refine congrArg (r.setZ zd) (BitVec.eq_of_getLsbD_eq fun j _ => ?_)
  rw [getLsbD_putLanes_vl, getLsbD_putLanes_vl]
  by_cases inside : j < vl.bits
  · rw [if_pos inside, if_pos inside, same j inside]
  · rw [if_neg inside, if_neg inside]

/-! ## Reading -/

/-- **The lanes of a register that were replaced** are read back, and other registers are as before. -/
theorem zLane_onAll {l : LaneSize} {zd : Nat} (hzd : zd < 32) (f : Nat → BitVec l.bits) (z : Nat) {i : Nat}
    (hi : i < vl.lanes l) : (onAll vl r l zd f).zLane z l.bits i = if z = zd then f i else r.zLane z l.bits i := by
  rw [Registers.zLane, onAll, Registers.mapLanes, Registers.zBits_setZ]
  by_cases same : z = zd
  · rw [if_pos ⟨same.symm, hzd⟩, if_pos same]
    apply BitVec.eq_of_getLsbD_eq
    intro j hj
    obtain ⟨quotient, remainder⟩ := l.bit_lane (i := i) hj
    rw [getLsbD_lane, getLsbD_putLanes_vl, if_pos (vl.bit_lt hi hj), quotient, remainder, decide_eq_true hj, Bool.true_and]
  · rw [if_neg fun h => same h.1.symm, if_neg same]
    rfl

/-! ## Copies -/

/-- **A register that is copied lane by lane** is copied at every lane size. -/
theorem onAll_copy {l' : LaneSize} {zd zn : Nat} {f : Nat → BitVec l'.bits} (copies : ∀ k, f k = r.zLane zn l'.bits k)
    (l : LaneSize) : onAll vl r l' zd f = onAll vl r l zd (r.zLane zn l.bits) :=
  onAll_regroup vl r fun j _ => by
    rw [copies, Registers.getLsbD_zLane_div, Registers.getLsbD_zLane_div]

end Semantics

end ArmToolkit.A64
