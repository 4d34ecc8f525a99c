import ArmToolkit.Proofs.Lanes

/-!
# `Proofs.VisibleLanes` — registers that agree below the vector length

## Contents
- **Low bits.** `SameBelow`: two registers have the same lowest bits, so they have the same lanes there.
- **Register files.** `Registers.AgreeBelow`: two register files that differ at most in what lies above the vector length.
- **Reading.** Lanes, scalars, active lanes and flags of predicates are read alike.
- **Writing.** What is the same below the vector length may be written to both.
-/

namespace ArmToolkit.A64

/-! ## Low bits -/

/-- **Two registers have the same lowest bits.** -/
def SameBelow (m : Nat) {w : Nat} (a b : BitVec w) : Prop := ∀ j < m, a.getLsbD j = b.getLsbD j

namespace SameBelow

variable {m w : Nat} {a b : BitVec w}

theorem refl (m : Nat) (a : BitVec w) : SameBelow m a a := fun _ _ => rfl

/-- What is shifted up leaves the bits below. -/
theorem above (m : Nat) (a b : BitVec w) : SameBelow m (a <<< m) (b <<< m) := by
  intro j hj
  simp [hj]

theorem lane (h : SameBelow m a b) {n i : Nat} (inside : i * n + n ≤ m) : lane n a i = lane n b i := by
  apply BitVec.eq_of_getLsbD_eq
  intro j hj
  rw [getLsbD_lane, getLsbD_lane, h _ (by omega)]

theorem bytesOf (h : SameBelow m a b) {n : Nat} (inside : n * 8 ≤ m) : bytesOf n a = bytesOf n b := by
  apply List.map_congr_left
  intro i hi
  have := List.mem_range.mp hi
  exact h.lane (by omega)

theorem setLane (h : SameBelow m a b) {n : Nat} (i : Nat) (x : BitVec n) :
    SameBelow m (setLane n a i x) (setLane n b i x) := by
  intro j hj
  rw [getLsbD_setLane, getLsbD_setLane, h j hj]

/-- Bits that are replaced are those of the new lanes. -/
theorem putLanes (a b : BitVec w) {n count : Nat} {f g : Nat → BitVec n} (room : count * n ≤ w)
    (same : ∀ i < count, f i = g i) : SameBelow (count * n) (putLanes n a count f) (putLanes n b count g) := by
  intro j hj
  have place : j / n < count := Nat.div_lt_of_lt_mul (by rwa [Nat.mul_comm])
  rw [getLsbD_putLanes _ _ room, getLsbD_putLanes _ _ room, if_pos hj, if_pos hj, same _ place]

section

variable {p q : PBits} {k count : Nat}

theorem activeLane (h : SameBelow m p q) {i : Nat} (inside : i * k < m) : activeLane k p i = activeLane k q i := h _ inside

theorem activeLanes (h : SameBelow m p q) (positive : 0 < k) (inside : count * k ≤ m) :
    activeLanes k p count = activeLanes k q count := by
  apply List.filter_congr
  intro i hi
  have below := Nat.mul_lt_mul_of_pos_right (List.mem_range.mp hi) positive
  exact h.activeLane (by omega)

/-- The flags that describe a predicate. -/
theorem predicateTest {p' q' : PBits} (h : SameBelow m p q) (h' : SameBelow m p' q') (positive : 0 < k)
    (inside : count * k ≤ m) : predicateTest k p p' count = predicateTest k q q' count := by
  have seen : ((A64.activeLanes k p count).map fun i => A64.activeLane k p' i) =
      (A64.activeLanes k q count).map fun i => A64.activeLane k q' i := by
    rw [h.activeLanes positive inside]
    apply List.map_congr_left
    intro i hi
    have below := Nat.mul_lt_mul_of_pos_right (List.mem_range.mp (List.mem_filter.mp hi).1) positive
    exact h'.activeLane (by omega)
  unfold A64.predicateTest
  rw [seen]

end

end SameBelow

/-- A packed number is made of its digits alone. -/
theorem packLanes_congr {n count : Nat} {f g : Nat → BitVec n} (same : ∀ i < count, f i = g i) :
    packLanes n count f = packLanes n count g := by
  induction count with
  | zero => rfl
  | succ count ih =>
    unfold packLanes
    rw [ih fun i hi => same i (Nat.lt_succ_of_lt hi), same count (Nat.lt_succ_self count)]

/-- A predicate is made of its lanes alone. -/
theorem predicateOf_congr {k count : Nat} {f g : Nat → Bool} (same : ∀ i < count, f i = g i) :
    predicateOf k count f = predicateOf k count g := by
  unfold predicateOf ofLanes
  rw [packLanes_congr fun i hi => congrArg (laneFlag k) (same i hi)]

/-! ## Register files -/

/-- **Two register files that agree below the vector length**: in all general registers and flags, and in the bits of vector
    and predicate registers that the vector length has. -/
structure Registers.AgreeBelow (vl : VectorLength) (r s : Registers) : Prop where
  x : r.x = s.x
  sp : r.sp = s.sp
  pc : r.pc = s.pc
  flags : r.flags = s.flags
  z : ∀ code, SameBelow vl.bits (r.zBits code) (s.zBits code)
  p : ∀ code, SameBelow vl.bytes (r.pBits code) (s.pBits code)
  length : r.vl = some vl
  lengthToo : s.vl = some vl

theorem Registers.AgreeBelow.refl {vl : VectorLength} {r : Registers} (configured : r.vl = some vl) : r.AgreeBelow vl r :=
  ⟨rfl, rfl, rfl, rfl, fun _ => .refl _ _, fun _ => .refl _ _, configured, configured⟩

namespace Registers.AgreeBelow

variable {vl : VectorLength} {r s : Registers} (h : r.AgreeBelow vl s)

include h

/-! ## Reading -/

theorem read (code : Nat) (c : Code31) : r.read code c = s.read code c := by
  unfold Registers.read
  rw [h.x, h.sp]

theorem general (op : Operand) (c : Code31) : r.general op c = s.general op c := by
  unfold Registers.general
  rw [h.read]

theorem zLane (code : Nat) {l : LaneSize} {i : Nat} (hi : i < vl.lanes l) : r.zLane code l.bits i = s.zLane code l.bits i :=
  (h.z code).lane (vl.lane_fits hi)

/-- A scalar is no wider than the least vector length. -/
theorem scalar (code : Nat) {n : Nat} (narrow : n ≤ 128) : r.scalar code n = s.scalar code n := by
  have visible := vl.bounds.1
  exact (h.z code).lane (by omega)

theorem active (code : Nat) {l : LaneSize} {i : Nat} (hi : i < vl.lanes l) :
    activeLane l.bytes (r.pBits code) i = activeLane l.bytes (s.pBits code) i := by
  have fits := vl.lane_bytes_fit hi
  have positive := l.bytes_pos
  exact (h.p code).activeLane (by omega)

theorem activeLanes (code : Nat) (l : LaneSize) :
    activeLanes l.bytes (r.pBits code) (vl.lanes l) = activeLanes l.bytes (s.pBits code) (vl.lanes l) :=
  (h.p code).activeLanes l.bytes_pos (Nat.le_of_eq (vl.lanes_mul_bytes l))

/-! ## Writing -/

theorem withFlags (flags : Flags) : AgreeBelow vl { r with flags } { s with flags } := { h with flags := rfl }

theorem withPc (pc : BitVec 64) : AgreeBelow vl { r with pc } { s with pc } := { h with pc := rfl }

theorem write (code : Nat) (value : BitVec 64) (c : Code31) : AgreeBelow vl (r.write code value c) (s.write code value c) := by
  unfold Registers.write
  split
  · cases c with
    | zero => exact h
    | stack => exact { h with sp := rfl }
  · exact { h with x := congrArg (·.setIfInBounds code value) h.x }

theorem setGeneral (op : Operand) (value : BitVec 64) (c : Code31) :
    AgreeBelow vl (r.setGeneral op value c) (s.setGeneral op value c) := h.write ..

theorem setZ (code : Nat) {v v' : ZBits} (same : SameBelow vl.bits v v') : AgreeBelow vl (r.setZ code v) (s.setZ code v') :=
  { h with
    z := by
      intro d
      rw [zBits_setZ, zBits_setZ]
      split
      · exact same
      · exact h.z d }

theorem setP (code : Nat) {v v' : PBits} (same : SameBelow vl.bytes v v') : AgreeBelow vl (r.setP code v) (s.setP code v') :=
  { h with
    p := by
      intro d
      rw [pBits_setP, pBits_setP]
      split
      · exact same
      · exact h.p d }

theorem writeScalar (code n : Nat) (v : BitVec n) : AgreeBelow vl (r.writeScalar code n v) (s.writeScalar code n v) :=
  h.setZ code (.refl _ _)

/-- **Lanes that are the same** may be put into both. -/
theorem onAll {l : LaneSize} (zd : Nat) {f g : Nat → BitVec l.bits} (same : ∀ i < vl.lanes l, f i = g i) :
    AgreeBelow vl (Semantics.onAll vl r l zd f) (Semantics.onAll vl s l zd g) := by
  refine h.setZ zd ?_
  rw [← vl.lanes_mul_bits l]
  exact .putLanes _ _ (vl.lanes_mul_bits_le l) same

/-- So may bytes. -/
theorem mapBytes (zd : Nat) {f g : Nat → BitVec 8} (same : ∀ i < vl.bytes, f i = g i) :
    AgreeBelow vl (r.mapLanes zd 8 vl.bytes f) (s.mapLanes zd 8 vl.bytes g) := by
  rw [← vl.lanes_b] at same ⊢
  exact h.onAll (l := .b) zd same

theorem onActive {l : LaneSize} (pg zd : Nat) (keep : Bool) {f g : Nat → BitVec l.bits} (same : ∀ i < vl.lanes l, f i = g i) :
    AgreeBelow vl (Semantics.onActive vl r l pg zd keep f) (Semantics.onActive vl s l pg zd keep g) := by
  apply h.onAll
  intro i hi
  rw [h.active pg hi, same i hi, h.zLane zd hi]

/-- A predicate and the flags that describe it. -/
theorem setTested (l : LaneSize) (pd : Nat) {pg pg' result result' : PBits} (governing : SameBelow vl.bytes pg pg')
    (same : SameBelow vl.bytes result result') :
    AgreeBelow vl (Semantics.setTested vl r l pd pg result) (Semantics.setTested vl s l pd pg' result') := by
  have flags := governing.predicateTest same l.bytes_pos (Nat.le_of_eq (vl.lanes_mul_bytes l))
  unfold Semantics.setTested
  rw [flags]
  exact (h.setP pd same).withFlags _

end Registers.AgreeBelow

end ArmToolkit.A64
