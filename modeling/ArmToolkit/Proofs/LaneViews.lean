import ArmToolkit.Proofs.Faults
import ArmToolkit.Proofs.TestedPredicates

/-!
# `Proofs.LaneViews` — registers read and written at every lane size

## Contents
- **Numbers.** A lane is a digit of the number of its register (`toNat_lane`), so a lane of twice the width is two lanes, the
  upper one above the lower one (`toNat_lane_double`).
- **Vector registers.** Lanes of all sizes are the same bytes (`Registers.Regroups`). A lane that is written holds the value, as
  far as it fits, and no byte outside of it changes (`Registers.LaneWritten`).
- **Predicates.** A lane that is set is active as it was set, and no other lane changes (`Registers.LaneSet`).
- **The lowest lanes.** `IsLowest` is the predicate with the lowest lanes active. Setting the lanes one after the other leads to
  it (`IsLowest.succ`, `Registers.setEach_eq`), and so does setting as many as a count says at once (`Registers.LowestSet`).
-/

namespace ArmToolkit.A64

/-! ## Numbers -/

section

variable {w : Nat} (v : BitVec w)

/-- **A lane is a digit of the number of its register**, in the base that the width of the lane makes. -/
theorem toNat_lane (n i : Nat) : (lane n v i).toNat = v.toNat / twoPow (i * n) % twoPow n := by
  rw [lane, BitVec.extractLsb'_toNat, Nat.shiftRight_eq_div_pow]
  rfl

/-- **A lane of twice the width** is the lower half and, above it, the upper one. -/
theorem toNat_lane_double {n k : Nat} (double : n = 2 * k) (i : Nat) :
    (lane n v i).toNat = (lane k v (2 * i)).toNat + twoPow k * (lane k v (2 * i + 1)).toNat := by
  have lower : i * n = 2 * i * k := by rw [double, Nat.mul_left_comm, Nat.mul_assoc]
  have upper : (2 * i + 1) * k = i * n + k := by rw [Nat.succ_mul, lower]
  have whole : twoPow n = twoPow k * twoPow k := by rw [double, Nat.two_mul, twoPow_add]
  rw [toNat_lane, toNat_lane, toNat_lane, upper, ← lower, whole, Nat.mod_mul, Nat.div_div_eq_div_mul, ← twoPow_add]

end

/-- The bytes of a lane are those of the register. -/
theorem bytesOf_lane (l : LaneSize) (v : ZBits) (i : Nat) :
    bytesOf l.bytes (lane l.bits v i) = (List.range l.bytes).map fun k => lane 8 v (i * l.bytes + k) := by
  apply List.map_congr_left
  intro k hk
  exact Semantics.lane_lane l v i (List.mem_range.mp hk)

/-- As many bytes as a lane has are its number. -/
theorem natOfBytes_bytesOf_lane (l : LaneSize) (x : BitVec l.bits) : natOfBytes (bytesOf l.bytes x) = x.toNat := by
  rw [natOfBytes_bytesOf, Nat.mul_comm, ← l.bits_eq]
  exact Nat.mod_eq_of_lt x.isLt

/-- **A lane that is replaced** has no part in the bytes outside. -/
theorem lane_setLane_outside (l : LaneSize) (v : ZBits) {i j : Nat} (x : BitVec l.bits) (outside : j / l.bytes ≠ i) :
    lane 8 (setLane l.bits v i x) j = lane 8 v j := by
  apply BitVec.eq_of_getLsbD_eq
  intro b hb
  have apart : ¬ (i * l.bits ≤ j * 8 + b ∧ j * 8 + b < i * l.bits + l.bits) := by
    rintro ⟨low, high⟩
    apply outside
    rw [Nat.div_eq_iff l.bytes_pos]
    rw [l.bits_eq, ← Nat.mul_assoc] at low high
    omega
  rw [getLsbD_lane, getLsbD_lane, getLsbD_setLane, if_neg apart]

namespace Registers

/-- **The lanes of a vector register at every size are the same bytes**, the lowest one first. So a lane of twice the size is
    its lower half and, above it, its upper one. -/
structure Regroups (r : Registers) (z : Nat) : Prop where
  bytes : ∀ (l : LaneSize) (i : Nat), (r.zLane z l.bits i).toNat =
    natOfBytes ((List.range l.bytes).map fun k => r.zLane z 8 (i * l.bytes + k))
  halves : ∀ (half whole : LaneSize) (i : Nat), whole.bytes = 2 * half.bytes → (r.zLane z whole.bits i).toNat =
    (r.zLane z half.bits (2 * i)).toNat + twoPow (8 * half.bytes) * (r.zLane z half.bits (2 * i + 1)).toNat

/-- **Every register is regrouped at every size**, whatever was written to it. -/
theorem regroups (r : Registers) (z : Nat) : r.Regroups z where
  bytes l i := by
    show (lane l.bits (r.zBits z) i).toNat = natOfBytes ((List.range l.bytes).map fun k => lane 8 (r.zBits z) (i * l.bytes + k))
    rw [← bytesOf_lane, natOfBytes_bytesOf_lane]
  halves half whole i double := by
    have bits : whole.bits = 2 * half.bits := by rw [whole.bits_eq, half.bits_eq, double, Nat.mul_assoc]
    rw [Nat.mul_comm 8, ← half.bits_eq]
    exact toNat_lane_double (r.zBits z) bits i

/-- **A value was written to lane `i` of a vector register**: the lane holds as many of its lowest bits as it has, and nothing
    outside of the lane has changed. -/
structure LaneWritten (r after : Registers) (z : Nat) (l : LaneSize) (i value : Nat) : Prop where
  lane : (after.zLane z l.bits i).toNat = value % twoPow l.bits
  bytes : ∀ z' j, z' ≠ z ∨ j / l.bytes ≠ i → after.zLane z' 8 j = r.zLane z' 8 j
  rest : after = { r with z := after.z }
  regroups : ∀ z', after.Regroups z'

variable (r : Registers)

/-- Writing a lane that is inside the register leaves the register as it is described. -/
theorem laneWritten {z : Nat} (hz : z < 32) {l : LaneSize} {i : Nat} (inside : (i + 1) * l.bytes ≤ zBytes) (value : Nat) :
    r.LaneWritten (r.setZLane z l.bits i (BitVec.ofNat l.bits value)) z l i value where
  lane := by
    have room : i * l.bits + l.bits ≤ 2048 := by
      have bytes : i * l.bytes + l.bytes ≤ 256 := Nat.succ_mul i l.bytes ▸ inside
      rw [l.bits_eq, ← Nat.mul_assoc]
      omega
    rw [zLane, setZLane, zBits_setZ, if_pos ⟨rfl, hz⟩, lane_setLane_self _ _ _ room]
    rfl
  bytes z' j outside := by
    rw [zLane, setZLane, zBits_setZ]
    split
    · rename_i same
      obtain ⟨rfl, -⟩ := same
      exact lane_setLane_outside l _ _ (outside.resolve_left fun other => other rfl)
    · rfl
  rest := rfl
  regroups := regroups _

/-! ## Predicates -/

/-- **Lane `i` of a predicate was set**: it is active or not, as it was set, the other bits of the lane are clear, and nothing
    else has changed. -/
structure LaneSet (r after : Registers) (p : Nat) (l : LaneSize) (i : Nat) (active : Bool) : Prop where
  lane : activeLane l.bytes (after.pBits p) i = active
  clear : ∀ k, 0 < k → k < l.bytes → (after.pBits p).getLsbD (i * l.bytes + k) = false
  lanes : ∀ i', i' ≠ i → activeLane l.bytes (after.pBits p) i' = activeLane l.bytes (r.pBits p) i'
  bits : ∀ p' j, p' ≠ p ∨ j / l.bytes ≠ i → (after.pBits p').getLsbD j = (r.pBits p').getLsbD j
  rest : after = { r with p := after.p }

/-- Setting a lane that is inside the register leaves the register as it is described. -/
theorem laneSet {p : Nat} (hp : p < 16) {l : LaneSize} {i : Nat} (inside : (i + 1) * l.bytes ≤ 256) (active : Bool) :
    r.LaneSet (r.setP p (setActive l.bytes (r.pBits p) i active)) p l i active := by
  have positive := l.bytes_pos
  have low : i * l.bytes < 256 := by
    rw [Nat.succ_mul] at inside
    omega
  have bit (j : Nat) := getLsbD_setActive positive low (r.pBits p) active j
  have lane (i' : Nat) : i' * l.bytes / l.bytes = i' := Nat.mul_div_cancel i' positive
  have held : (r.setP p (setActive l.bytes (r.pBits p) i active)).pBits p = setActive l.bytes (r.pBits p) i active := by
    rw [pBits_setP, if_pos ⟨rfl, hp⟩]
  -- the lane, the bits inside its part, the other lanes, and all other bits and registers
  refine ⟨?_, ?_, ?_, ?_, rfl⟩
  · rw [held, activeLane, bit, if_pos (lane i), Nat.mul_mod_left]
    rfl
  · intro k above below
    have place : (i * l.bytes + k) / l.bytes = i := by
      rw [Nat.div_eq_iff positive]
      omega
    have offset : (i * l.bytes + k) % l.bytes = k := by
      rw [Nat.mul_comm, Nat.mul_add_mod, Nat.mod_eq_of_lt below]
    rw [held, bit, if_pos place, offset, decide_eq_false (Nat.ne_of_gt above)]
    rfl
  · intro i' other
    rw [held, activeLane, bit, lane, if_neg other]
    rfl
  · intro p' j outside
    rw [pBits_setP]
    split
    · rename_i same
      obtain ⟨rfl, -⟩ := same
      rw [bit, if_neg (outside.resolve_left fun other => other rfl)]
    · rfl

end Registers

/-! ## The lowest lanes -/

/-- **The predicate whose active lanes are the lowest `n`**, with all other bits clear. -/
def IsLowest (k n : Nat) (v : PBits) : Prop := ∀ j, v.getLsbD j = true ↔ ∃ i < n, j = i * k

section

variable {k n : Nat} {v : PBits}

/-- There is one predicate at most whose active lanes are the lowest `n`, with all other bits clear. -/
theorem IsLowest.unique {v' : PBits} (h : IsLowest k n v) (h' : IsLowest k n v') : v = v' := by
  apply BitVec.eq_of_getLsbD_eq
  intro j _
  rw [Bool.eq_iff_iff, h, h']

/-- No lane is active where all bits are clear. -/
theorem isLowest_zero (k : Nat) : IsLowest k 0 0 := by
  intro j
  simp

/-- **Setting the next lane** makes one lane more active. -/
theorem IsLowest.succ (h : IsLowest k n v) (positive : 0 < k) (inside : n * k < 256) :
    IsLowest k (n + 1) (setActive k v n true) := by
  intro j
  rw [getLsbD_setActive_true positive inside, h j]
  constructor
  · rintro (here | ⟨-, i, low, place⟩)
    · exact ⟨n, Nat.lt_succ_self n, here⟩
    · exact ⟨i, Nat.lt_succ_of_lt low, place⟩
  · rintro ⟨i, low, rfl⟩
    rcases Nat.lt_succ_iff_lt_or_eq.mp low with low | rfl
    · refine .inr ⟨?_, i, low, rfl⟩
      rw [Nat.mul_div_cancel i positive]
      exact Nat.ne_of_lt low
    · exact .inl rfl

/-- The lanes below `n` are active in the predicate of the lowest `n`, and no others. -/
theorem IsLowest.activeLane (h : IsLowest k n v) (positive : 0 < k) (i : Nat) : activeLane k v i = decide (i < n) := by
  rw [A64.activeLane, Bool.eq_iff_iff, h, decide_eq_true_eq]
  constructor
  · rintro ⟨i', low, place⟩
    rwa [Nat.eq_of_mul_eq_mul_right positive place]
  · intro low
    exact ⟨i, low, rfl⟩

/-- **The predicate of a count** is the one with as many lanes, or with all that there are. -/
theorem isLowest_lowestActive {lanes : Nat} (positive : 0 < k) (fits : lanes * k ≤ 256) (count : Nat) :
    IsLowest k (min count lanes) (lowestActive k lanes count) := by
  intro j
  rw [lowestActive, getLsbD_predicateOf positive fits]
  constructor
  · rintro ⟨i, inside, place, low⟩
    exact ⟨i, Nat.lt_min.mpr ⟨of_decide_eq_true low, inside⟩, place⟩
  · rintro ⟨i, low, place⟩
    obtain ⟨low, inside⟩ := Nat.lt_min.mp low
    exact ⟨i, inside, place, decide_eq_true low⟩

end

namespace Registers

variable (r : Registers)

/-- The number of lanes of a size; there are none without a vector length. -/
def laneCount (l : LaneSize) : Nat := (r.vl.map fun vl => vl.lanes l).getD 0

/-- The lanes lie within a predicate. -/
theorem laneCount_mul_bytes_le (l : LaneSize) : r.laneCount l * l.bytes ≤ 256 := by
  unfold laneCount
  cases r.vl with
  | none => simp
  | some vl => exact vl.lanes_mul_bytes_le l

/-- **The lowest lanes are set one after the other**, from a predicate that is clear. -/
def setEach (r : Registers) (p : Nat) (l : LaneSize) (count : Nat) : Registers :=
  (List.range count).foldl (fun r i => r.setP p (setActive l.bytes (r.pBits p) i true)) (r.setP p 0)

/-- The last lane is set behind the others. -/
theorem setEach_succ (p : Nat) (l : LaneSize) (count : Nat) : r.setEach p l (count + 1) =
    (r.setEach p l count).setP p (setActive l.bytes ((r.setEach p l count).pBits p) count true) := by
  unfold setEach
  rw [List.range_succ, List.foldl_append]
  rfl

/-- Of two values of a predicate the later one is left. -/
theorem setP_setP (p : Nat) (v v' : PBits) : (r.setP p v).setP p v' = r.setP p v' := by
  unfold setP
  simp

/-- **What is left** is the predicate with the lowest lanes active, in the register that they were set in. -/
theorem setEach_eq {p : Nat} (hp : p < 16) (l : LaneSize) {count : Nat} (fits : count * l.bytes ≤ 256) :
    ∃ v, IsLowest l.bytes count v ∧ r.setEach p l count = r.setP p v := by
  induction count with
  | zero => exact ⟨0, isLowest_zero _, rfl⟩
  | succ count ih =>
    rw [Nat.succ_mul] at fits
    have positive := l.bytes_pos
    obtain ⟨v, lowest, left⟩ := ih (by omega)
    refine ⟨_, lowest.succ positive (by omega), ?_⟩
    rw [setEach_succ, left, setP_setP, pBits_setP, if_pos ⟨rfl, hp⟩]

/-- **The lowest lanes of a predicate were set**: they are active, all other bits of the predicate are clear, and nothing else
    has changed. It is what setting them one after the other leaves. -/
structure LowestSet (r after : Registers) (p : Nat) (l : LaneSize) (count : Nat) : Prop where
  lanes : ∀ i, activeLane l.bytes (after.pBits p) i = decide (i < count)
  bits : ∀ j, (after.pBits p).getLsbD j = true ↔ ∃ i < count, j = i * l.bytes
  others : ∀ p', p' ≠ p → after.pBits p' = r.pBits p'
  rest : after = { r with p := after.p }
  each : after = r.setEach p l count

/-- Setting the predicate of a count leaves the register as it is described. -/
theorem lowestSet {p : Nat} (hp : p < 16) (l : LaneSize) (count : Nat) :
    r.LowestSet (r.setP p (lowestActive l.bytes (r.laneCount l) count)) p l (min count (r.laneCount l)) := by
  have fits := r.laneCount_mul_bytes_le l
  have lowest := isLowest_lowestActive l.bytes_pos fits count
  have held : (r.setP p (lowestActive l.bytes (r.laneCount l) count)).pBits p = lowestActive l.bytes (r.laneCount l) count := by
    rw [pBits_setP, if_pos ⟨rfl, hp⟩]
  refine ⟨?_, ?_, ?_, rfl, ?_⟩
  · rw [held]
    exact lowest.activeLane l.bytes_pos
  · rw [held]
    exact lowest
  · intro p' other
    rw [pBits_setP, if_neg fun same => other same.1.symm]
  · have room := Nat.mul_le_mul_right l.bytes (Nat.min_le_right count (r.laneCount l))
    obtain ⟨v, lowest', left⟩ := r.setEach_eq hp l (Nat.le_trans room fits)
    rw [left, lowest'.unique lowest]

/-- **Lanes of every size.** A lane that is written holds the value, as far as it fits, and nothing outside of it changes; at
    every other size the lanes are the same bytes, regrouped. A lane of a predicate that is set is active as it was set, with
    its other bits clear, and no other lane changes. And the lowest lanes of a predicate, up to a count, are set with all
    other bits clear. -/
theorem lane_views (l : LaneSize) :
    (∀ z < 32, ∀ i value, (i + 1) * l.bytes ≤ zBytes →
      r.LaneWritten (r.setZLane z l.bits i (BitVec.ofNat l.bits value)) z l i value) ∧
    (∀ p < 16, ∀ i active, (i + 1) * l.bytes ≤ 256 →
      r.LaneSet (r.setP p (setActive l.bytes (r.pBits p) i active)) p l i active) ∧
    ∀ p < 16, ∀ count,
      r.LowestSet (r.setP p (lowestActive l.bytes (r.laneCount l) count)) p l (min count (r.laneCount l)) := by
  refine ⟨?_, ?_, ?_⟩
  · intro z hz i value inside
    exact r.laneWritten hz inside value
  · intro p hp i active inside
    exact r.laneSet hp inside active
  · intro p hp count
    exact r.lowestSet hp l count

/-- In registers whose bits are all set: the last word lane of a vector, the last lane of a predicate, and more lanes than
    there are. -/
theorem lane_views_ones :
    let r : Registers := ((Registers.zero (VectorLength.ofBits? 256)).setZ 31 (BitVec.allOnes 2048)).setP 15 (BitVec.allOnes 256)
    let wrote := r.setZLane 31 32 63 (BitVec.ofNat 32 0x123456789)
    let set := r.setP 15 (setActive 4 (r.pBits 15) 63 false)
    let lowest := r.setP 15 (lowestActive 4 (r.laneCount .s) 1000)
    ((wrote.zLane 31 32 63).toNat = 0x23456789 ∧ wrote.zLane 31 8 251 = r.zLane 31 8 251) ∧
      (activeLane 4 (set.pBits 15) 63 = false ∧ (set.pBits 15).getLsbD 253 = false ∧
        activeLane 4 (set.pBits 15) 62 = activeLane 4 (r.pBits 15) 62) ∧
      activeLane 4 (lowest.pBits 15) 7 = true ∧ activeLane 4 (lowest.pBits 15) 8 = false := by
  intro r wrote set lowest
  obtain ⟨vectors, predicates, counts⟩ := r.lane_views .s
  have written := vectors 31 (by decide) 63 0x123456789 (by decide)
  have lane := predicates 15 (by decide) 63 false (by decide)
  have eight := (counts 15 (by decide) 1000).lanes
  exact ⟨⟨written.lane, written.bytes 31 251 (.inr (by decide))⟩,
    ⟨lane.lane, lane.clear 1 (by decide) (by decide), lane.lanes 62 (by decide)⟩, eight 7, eight 8⟩

end Registers

end ArmToolkit.A64
