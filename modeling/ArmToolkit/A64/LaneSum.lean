import ArmToolkit.A64.Lane

/-!
# `A64.LaneSum` — the sums of all lanes of two registers at once

Two registers are added lane by lane in a few steps on whole registers: without the highest bit of every lane no carry
leaves its lane, and the highest bits are added without carry afterwards.

## Contents
- **Sums.** `topBits` has the highest bit of every lane, and `addApart` adds two registers without a carry over them.
  `laneSums` does so for a lane size.
- **Replacing.** `putLow` replaces the lowest bits of a register.
- **Laws.** Every lane of the sum is the sum of the lanes (`lane_addApart`), so that the sums of the lowest lanes may be
  put into a register at once (`putLow_laneSums`).
-/

namespace ArmToolkit.A64

/-! ## Sums -/

/-- The highest bit of every lane. -/
def topBits (n w : Nat) : BitVec w := ofLanes n w (w / n) fun _ => BitVec.intMin n

/-- **The sums of all lanes**, where `top` has the highest bit of every lane. -/
def addApart {w : Nat} (top x y : BitVec w) : BitVec w :=
  ((x &&& ~~~top) + (y &&& ~~~top)) ^^^ ((x ^^^ y) &&& top)

/-- The bits that are the highest of a lane. -/
theorem getLsbD_topBits {n w : Nat} (h : n ∣ w) (j : Nat) :
    (topBits n w).getLsbD j = (decide (j < w) && decide (j % n + 1 = n)) := by
  rw [topBits, ofLanes, BitVec.getLsbD_ofNat, packLanes_testBit, Nat.div_mul_cancel h]
  by_cases hw : j < w
  · have npos : 0 < n := by
      rcases Nat.eq_zero_or_pos n with rfl | positive
      · have := Nat.eq_zero_of_zero_dvd h
        omega
      · exact positive
    have := Nat.mod_lt j npos
    simp [hw, BitVec.intMin, this]
    omega
  · simp [hw]

/-- The highest bit of lane `i`, by its place in the lane. -/
theorem getLsbD_topBits_lane {n w : Nat} (h : n ∣ w) {i j : Nat} (hj : j < n) (hw : i * n + j < w) :
    (topBits n w).getLsbD (i * n + j) = decide (j + 1 = n) := by
  rw [getLsbD_topBits h, Nat.mul_comm, Nat.mul_add_mod, Nat.mod_eq_of_lt hj, Nat.mul_comm]
  simp [hw]

/-- The carry into a bit of lane `i` is the one that the lanes have there. -/
theorem carry_apart {n w : Nat} (h : n ∣ w) (x y : BitVec w) (i j : Nat) (hj : j < n) (hw : i * n + j < w) :
    BitVec.carry (i * n + j) (x &&& ~~~topBits n w) (y &&& ~~~topBits n w) false =
      BitVec.carry j (lane n x i) (lane n y i) false := by
  induction j with
  | zero =>
    rw [Nat.add_zero, BitVec.carry_zero]
    cases i with
    | zero => rw [Nat.zero_mul, BitVec.carry_zero]
    | succ i =>
      rw [Nat.succ_mul] at hw ⊢
      have top := getLsbD_topBits_lane h (i := i) (j := n - 1) (by omega) (by omega)
      rw [show i * n + n = i * n + (n - 1) + 1 by omega, BitVec.carry_succ]
      simp only [BitVec.getLsbD_and, BitVec.getLsbD_not, top, show n - 1 + 1 = n by omega, decide_true, Bool.not_true,
        Bool.and_false, Bool.atLeastTwo, Bool.false_and, Bool.or_false]
  | succ j ih =>
    have top := getLsbD_topBits_lane h (i := i) (j := j) (by omega) (by omega)
    rw [← Nat.add_assoc, BitVec.carry_succ, BitVec.carry_succ, ih (by omega) (by omega)]
    simp only [BitVec.getLsbD_and, BitVec.getLsbD_not, top, getLsbD_lane, show j < n by omega,
      show i * n + j < w by omega, show ¬ j + 1 = n by omega, decide_true, decide_false, Bool.not_false, Bool.and_true,
      Bool.true_and]

/-- **Every lane of the sum is the sum of the lanes.** -/
theorem lane_addApart {n w : Nat} (h : n ∣ w) (x y : BitVec w) (i : Nat) (hw : i * n + n ≤ w) :
    lane n (addApart (topBits n w) x y) i = lane n x i + lane n y i := by
  apply BitVec.eq_of_getLsbD_eq
  intro j hj
  have inside : i * n + j < w := by omega
  have top := getLsbD_topBits_lane h hj inside
  rw [getLsbD_lane, BitVec.getLsbD_add hj, addApart, BitVec.getLsbD_xor, BitVec.getLsbD_add inside,
    carry_apart h x y i j hj inside]
  simp only [BitVec.getLsbD_and, BitVec.getLsbD_not, BitVec.getLsbD_xor, top, getLsbD_lane, hj, inside, decide_true,
    Bool.true_and]
  cases decide (j + 1 = n) <;> cases x.getLsbD (i * n + j) <;> cases y.getLsbD (i * n + j) <;> simp

/-- **The sums of all lanes of two vector registers.** -/
def laneSums (l : LaneSize) (x y : BitVec 2048) : BitVec 2048 :=
  match l with
  | .b => addApart (topBits 8 2048) x y
  | .h => addApart (topBits 16 2048) x y
  | .s => addApart (topBits 32 2048) x y
  | .d => addApart (topBits 64 2048) x y
  | .q => addApart (topBits 128 2048) x y

/-- Every lane of the sums is the sum of the lanes. -/
theorem lane_laneSums (l : LaneSize) (x y : BitVec 2048) (i : Nat) (hw : i * l.bits + l.bits ≤ 2048) :
    lane l.bits (laneSums l x y) i = lane l.bits x i + lane l.bits y i := by
  cases l <;> exact lane_addApart (by decide) x y i hw

/-! ## Replacing -/

/-- **The register with its lowest `k` bits taken from another.** -/
def putLow {w : Nat} (k : Nat) (v new : BitVec w) : BitVec w :=
  v ^^^ ((v ^^^ new) &&& (BitVec.allOnes k).setWidth w)

/-- The bits of a register with its lowest ones replaced. -/
theorem getLsbD_putLow {w : Nat} (k : Nat) (v new : BitVec w) (j : Nat) :
    (putLow k v new).getLsbD j = if j < k then new.getLsbD j else v.getLsbD j := by
  simp only [putLow, BitVec.getLsbD_xor, BitVec.getLsbD_and, BitVec.getLsbD_setWidth, BitVec.getLsbD_allOnes]
  by_cases hw : j < w
  · by_cases hk : j < k <;> cases v.getLsbD j <;> cases new.getLsbD j <;> simp [hw, hk]
  · simp [BitVec.getLsbD_of_ge v j (by omega), BitVec.getLsbD_of_ge new j (by omega)]

/-- **The sums of the lowest lanes may be put into a register at once.** -/
theorem putLow_laneSums (l : LaneSize) (v x y : BitVec 2048) {count : Nat} (h : count * l.bits ≤ 2048) :
    putLow (count * l.bits) v (laneSums l x y) =
      putLanes l.bits v count fun i => lane l.bits x i + lane l.bits y i := by
  apply BitVec.eq_of_getLsbD_eq
  intro j _
  rw [getLsbD_putLow, getLsbD_putLanes v _ h]
  by_cases hj : j < count * l.bits
  · have npos : 0 < l.bits := by cases l <;> decide
    have low : j / l.bits < count := (Nat.div_lt_iff_lt_mul npos).mpr hj
    have fits := Nat.mul_le_mul_right l.bits (Nat.succ_le_of_lt low)
    rw [Nat.succ_mul] at fits
    have place : j / l.bits * l.bits + j % l.bits = j := by rw [Nat.mul_comm]; exact Nat.div_add_mod j l.bits
    rw [if_pos hj, if_pos hj, ← lane_laneSums l x y _ (by omega), getLsbD_lane, place]
    simp [Nat.mod_lt j npos]
  · rw [if_neg hj, if_neg hj]

end ArmToolkit.A64
