/-!
# `A64.Lane` — element sizes, and registers as rows of lanes

## Contents
- **Sizes.** `LaneSize` is the width of an element of a vector or of a scalar view; `Element` is one of the four
  sizes that integer vector instructions work on.
- **Lanes.** A register of `w` bits read as a row of `n`-bit lanes, lowest lane first: `lane` reads one,
  `setLane` replaces one, `ofLanes` builds a register, and `putLanes` replaces the lowest lanes and keeps the
  bits above them. Every lane view of a register is a regrouping of the same bits.
- **Laws.** A lane that was replaced holds the new value (`lane_setLane_self`) and the bits outside of it are kept
  (`getLsbD_setLane`); a register built from lanes has them (`lane_ofLanes`).
-/

namespace ArmToolkit.A64

/-! ## Sizes -/

/-- The width of a lane: byte, halfword, word, doubleword or quadword. -/
inductive LaneSize
  | b | h | s | d | q
  deriving DecidableEq, Inhabited

namespace LaneSize

/-- The lane sizes from narrow to wide. -/
def all : List LaneSize := [b, h, s, d, q]

/-- The binary logarithm of the width in bytes, which is also how the size is encoded. -/
def log2 : LaneSize → Nat
  | b => 0 | h => 1 | s => 2 | d => 3 | q => 4

/-- The width in bytes. -/
def bytes : LaneSize → Nat
  | b => 1 | h => 2 | s => 4 | d => 8 | q => 16

/-- The width in bits. -/
def bits : LaneSize → Nat
  | b => 8 | h => 16 | s => 32 | d => 64 | q => 128

/-- The letter of the size. -/
def name : LaneSize → String
  | b => "b" | h => "h" | s => "s" | d => "d" | q => "q"

/-- The lane size of a logarithm up to 4. -/
def ofLog2? (n : Nat) : Option LaneSize := all[n]?

/-- The lane size of a two-bit size field. -/
def ofField (n : Nat) : LaneSize :=
  match n with
  | 0 => b
  | 1 => h
  | 2 => s
  | _ => d

end LaneSize

/-- A lane size that integer vector instructions work on. -/
inductive Element
  | b | h | s | d
  deriving DecidableEq

namespace Element

/-- The element sizes from narrow to wide. -/
def all : List Element := [b, h, s, d]

/-- The element size as a lane size. -/
def lane : Element → LaneSize
  | b => .b | h => .h | s => .s | d => .d

end Element

/-! ## Lanes of a register -/

/-- **Lane `i`** of a register read as a row of `n`-bit lanes. -/
def lane (n : Nat) {w : Nat} (v : BitVec w) (i : Nat) : BitVec n := v.extractLsb' (i * n) n

/-- The register with lane `i` replaced. -/
def setLane (n : Nat) {w : Nat} (v : BitVec w) (i : Nat) (x : BitVec n) : BitVec w :=
  (v &&& ~~~((BitVec.allOnes n).setWidth w <<< (i * n))) ||| (x.setWidth w <<< (i * n))

/-- The bits of a lane. -/
theorem getLsbD_lane {n w : Nat} (v : BitVec w) (i j : Nat) :
    (lane n v i).getLsbD j = (decide (j < n) && v.getLsbD (i * n + j)) := by
  simp [lane, BitVec.getLsbD_extractLsb']

/-- Replacing a lane replaces its bits and no others. -/
theorem getLsbD_setLane {n w : Nat} (v : BitVec w) (i : Nat) (x : BitVec n) (j : Nat) :
    (setLane n v i x).getLsbD j =
      if i * n ≤ j ∧ j < i * n + n then decide (j < w) && x.getLsbD (j - i * n) else v.getLsbD j := by
  simp only [setLane, BitVec.getLsbD_or, BitVec.getLsbD_and, BitVec.getLsbD_not, BitVec.getLsbD_shiftLeft,
    BitVec.getLsbD_setWidth, BitVec.getLsbD_allOnes]
  by_cases hw : j < w
  · by_cases hlo : i * n ≤ j
    · by_cases hhi : j < i * n + n
      · have : j - i * n < n := by omega
        have h2 : j - i * n < w := by omega
        simp [hw, hlo, hhi, this, h2, Nat.not_lt.mpr hlo]
      · have : ¬ j - i * n < n := by omega
        simp [hw, hlo, hhi, this, BitVec.getLsbD_of_ge x (j - i * n) (by omega)]
    · simp [hw, hlo, Nat.not_le.mp hlo]
  · simp [hw, BitVec.getLsbD_of_ge v j (by omega)]

/-- A lane that was replaced holds the new value. -/
theorem lane_setLane_self {n w : Nat} (v : BitVec w) (i : Nat) (x : BitVec n) (h : i * n + n ≤ w) :
    lane n (setLane n v i x) i = x := by
  apply BitVec.eq_of_getLsbD_eq
  intro j hj
  rw [getLsbD_lane, getLsbD_setLane, if_pos (by omega)]
  simp [hj, show i * n + j < w by omega]

/-- The number whose `n`-bit digits are the values of `f`, lowest first. -/
def packLanes (n : Nat) : Nat → (Nat → BitVec n) → Nat
  | 0, _ => 0
  | count + 1, f => packLanes n count f ||| ((f count).toNat <<< (count * n))

/-- The bits of a packed number, digit by digit. -/
theorem packLanes_testBit (n count : Nat) (f : Nat → BitVec n) (j : Nat) :
    (packLanes n count f).testBit j = (decide (j < count * n) && (f (j / n)).getLsbD (j % n)) := by
  induction count with
  | zero => simp [packLanes]
  | succ count ih =>
    rw [packLanes, Nat.testBit_or, ih, Nat.testBit_shiftLeft, BitVec.testBit_toNat, Nat.succ_mul]
    by_cases hlo : j < count * n
    · simp [hlo, Nat.not_le.mpr hlo, show j < count * n + n by omega]
    · have hge : count * n ≤ j := by omega
      by_cases hhi : j < count * n + n
      · have npos : 0 < n := by omega
        have hq : j / n = count := by
          rw [Nat.div_eq_iff npos]; omega
        have hr : j % n = j - count * n := by
          have := Nat.div_add_mod j n
          rw [hq, Nat.mul_comm] at this
          omega
        simp [hge, hhi, hq, hr, hlo]
      · simp [hlo, hhi, BitVec.getLsbD_of_ge (f count) (j - count * n) (by omega)]

/-- **A register built from its lowest lanes**; the bits above them are zero. -/
def ofLanes (n : Nat) (w count : Nat) (f : Nat → BitVec n) : BitVec w := BitVec.ofNat w (packLanes n count f)

/-- The bits of a register from bit `k` on; the bits below are zero. -/
def clearBelow {w : Nat} (v : BitVec w) (k : Nat) : BitVec w := (v >>> k) <<< k

/-- **A register with its lowest lanes replaced**; the bits above them are kept. -/
def putLanes (n : Nat) {w : Nat} (v : BitVec w) (count : Nat) (f : Nat → BitVec n) : BitVec w :=
  clearBelow v (count * n) ||| ofLanes n w count f

/-- A register built from lanes has them. -/
theorem lane_ofLanes {n w count : Nat} (f : Nat → BitVec n) {i : Nat} (hi : i < count) (h : count * n ≤ w) :
    lane n (ofLanes n w count f) i = f i := by
  apply BitVec.eq_of_getLsbD_eq
  intro j hj
  have inside : i * n + j < count * n := by
    have := Nat.mul_le_mul_right n (Nat.succ_le_of_lt hi)
    rw [Nat.succ_mul] at this
    omega
  have npos : 0 < n := by omega
  have quotient : (i * n + j) / n = i := by
    rw [Nat.mul_comm, Nat.mul_add_div npos, Nat.div_eq_of_lt hj, Nat.add_zero]
  have remainder : (i * n + j) % n = j := by rw [Nat.mul_comm, Nat.mul_add_mod, Nat.mod_eq_of_lt hj]
  rw [getLsbD_lane, ofLanes, BitVec.getLsbD_ofNat, packLanes_testBit, quotient, remainder]
  simp [hj, inside, show i * n + j < w by omega]

/-- **Replacing the lowest lanes** gives them their new values and keeps the bits above them. -/
theorem getLsbD_putLanes {n w count : Nat} (v : BitVec w) (f : Nat → BitVec n) (h : count * n ≤ w) (j : Nat) :
    (putLanes n v count f).getLsbD j =
      if j < count * n then (f (j / n)).getLsbD (j % n) else v.getLsbD j := by
  rw [putLanes, BitVec.getLsbD_or, ofLanes, BitVec.getLsbD_ofNat, packLanes_testBit, clearBelow,
    BitVec.getLsbD_shiftLeft, BitVec.getLsbD_ushiftRight]
  by_cases hj : j < count * n
  · simp [hj, show j < w by omega]
  · rw [if_neg hj]
    by_cases hw : j < w
    · simp [hj, hw, show count * n + (j - count * n) = j by omega]
    · simp [hj, hw, BitVec.getLsbD_of_ge v j (by omega)]

end ArmToolkit.A64
