import Mathlib.Data.Set.Function
import ArmToolkit.Proofs.VectorInstructions

/-!
# `Proofs.Interleaving` — vectors that are interleaved and taken apart again

The instructions that interleave two vectors come in pairs. One gives the lower half of a result that is twice as long as a
vector, and the other the upper half. So a pair rearranges a row of two vectors into another row of two vectors.

## Contents
- **Rows.** `row` is two vectors in one row, and an `Interleaving` takes place `k` of the new row from `place k` of the old.
  It is undone by its inverse (`Interleaving.place_inverse`), and so permutes the row (`Interleaving.bijOn_place`).
- **Lanes.** Each instruction of a pair gives its half of the new row (`Interleaving.permuteLane_op`), and the halves in
  one row are the new row (`Interleaving.row_halves`).
- **Instructions.** `Simulator.interleaves` says this of the instructions that the encoder accepts, whatever registers they
  name, and of reversed vectors.
-/

namespace ArmToolkit.A64

/-! ## Rows -/

/-- **Two vectors in one row**: the second is behind the `count` lanes of the first. -/
def row {α : Type} (count : Nat) (a b : Nat → α) (k : Nat) : α := if k < count then a k else b (k - count)

/-- **The ways to rearrange two vectors**: lanes of one and the other in turn, even lanes before odd ones, and each pair of
    lanes of the one transposed with that of the other. -/
inductive Interleaving
  | zip
  | unzip
  | transpose

namespace Interleaving

/-- The operation that gives the lower or the upper half of the new row. -/
def op : Interleaving → Bool → PermuteOp
  | zip, false => .zip1
  | zip, true => .zip2
  | unzip, false => .uzp1
  | unzip, true => .uzp2
  | transpose, false => .trn1
  | transpose, true => .trn2

/-- What undoes it. -/
def inverse : Interleaving → Interleaving
  | zip => unzip
  | unzip => zip
  | transpose => transpose

/-- **The place in the old row** that place `k` of the new one is taken from. -/
def place (p : Interleaving) (count k : Nat) : Nat :=
  match p with
  | zip => if k % 2 = 0 then k / 2 else count + k / 2
  | unzip => if k < count then 2 * k else 2 * (k - count) + 1
  | transpose =>
    if k < count then
      if k % 2 = 0 then k else count + (k - 1)
    else if k % 2 = 0 then k - count + 1
    else k

/-- The place in a row of lane `i` of one of its vectors. -/
def half (count : Nat) (upper : Bool) (i : Nat) : Nat := if upper then count + i else i

theorem inverse_inverse (p : Interleaving) : p.inverse.inverse = p := by cases p <;> rfl

section

variable (p : Interleaving) {count k : Nat} (even : count % 2 = 0) (hk : k < 2 * count)

include even hk

/-- Lanes are taken from within the row. -/
theorem place_lt : p.place count k < 2 * count := by
  cases p with
  | zip | unzip =>
    simp only [place]
    split <;> omega
  | transpose =>
    simp only [place]
    split
    · split <;> omega
    · split <;> omega

/-- **What is moved to a place comes from the place that the inverse takes it from.** -/
theorem place_inverse : p.place count (p.inverse.place count k) = k := by
  cases p with
  | zip | unzip =>
    simp only [place, inverse]
    split
    · rw [if_pos (by omega)]
      omega
    · rw [if_neg (by omega)]
      omega
  | transpose =>
    -- a lane is moved to the other vector or stays, in either half of the row
    simp only [place, inverse]
    split
    · split
      · rfl
      · rw [if_neg (by omega), if_pos (by omega)]
        omega
    · split
      · rw [if_pos (by omega), if_neg (by omega)]
        omega
      · rfl

end

/-- **The places of a row are permuted.** -/
theorem bijOn_place (p : Interleaving) {count : Nat} (even : count % 2 = 0) :
    Set.BijOn (p.place count) (Set.Iio (2 * count)) (Set.Iio (2 * count)) := by
  have inverse : Set.InvOn (p.inverse.place count) (p.place count) (Set.Iio (2 * count)) (Set.Iio (2 * count)) := by
    constructor
    · intro k hk
      have undone := p.inverse.place_inverse even hk
      rwa [p.inverse_inverse] at undone
    · intro k hk
      exact p.place_inverse even hk
  exact inverse.bijOn (fun k hk => p.place_lt even hk) fun k hk => p.inverse.place_lt even hk

/-! ## Lanes -/

section

variable {n count i : Nat} {a b : Nat → BitVec n}

/-- A place in the first vector. -/
theorem row_first {j k : Nat} (hj : j < count) (same : k = j) : row count a b k = a j := by
  subst same
  exact if_pos hj

/-- A place in the second vector. -/
theorem row_second {j k : Nat} (same : k = count + j) : row count a b k = b j := by
  subst same
  rw [row, if_neg (by omega), Nat.add_sub_cancel_left]

/-- **Each operation gives its half of the new row.** -/
theorem permuteLane_op (p : Interleaving) (upper : Bool) (even : count % 2 = 0) (hi : i < count) :
    Semantics.permuteLane (p.op upper) count a b i = row count a b (p.place count (half count upper i)) := by
  -- each case compares what the operation takes with what stands at the place in the row of both vectors
  cases p with
  | zip =>
    cases upper with
    | false =>
      show (if i % 2 = 0 then a (i / 2) else b (i / 2)) = row count a b (if i % 2 = 0 then i / 2 else count + i / 2)
      split
      · exact (row_first (by omega) rfl).symm
      · exact (row_second rfl).symm
    | true =>
      show (if i % 2 = 0 then a (count / 2 + i / 2) else b (count / 2 + i / 2)) =
        row count a b (if (count + i) % 2 = 0 then (count + i) / 2 else count + (count + i) / 2)
      split
      · rw [if_pos (by omega)]
        exact (row_first (by omega) (by omega)).symm
      · rw [if_neg (by omega)]
        exact (row_second (by omega)).symm
  | unzip =>
    cases upper with
    | false =>
      show row count a b (2 * i) = row count a b (if i < count then 2 * i else 2 * (i - count) + 1)
      rw [if_pos hi]
    | true =>
      show row count a b (2 * i + 1) =
        row count a b (if count + i < count then 2 * (count + i) else 2 * (count + i - count) + 1)
      rw [if_neg (by omega), Nat.add_sub_cancel_left]
  | transpose =>
    cases upper with
    | false =>
      rw [half, if_neg Bool.false_ne_true, place, if_pos hi]
      show (if i % 2 = 0 then a i else b (i - 1)) = _
      split
      · exact (row_first hi rfl).symm
      · exact (row_second rfl).symm
    | true =>
      rw [half, if_pos rfl, place, if_neg (by omega)]
      show (if i % 2 = 0 then a (i + 1) else b i) = _
      split
      · rw [if_pos (by omega)]
        exact (row_first (by omega) (by omega)).symm
      · rw [if_neg (by omega)]
        exact (row_second rfl).symm

/-- A row depends on the lanes of its vectors alone. -/
theorem row_congr {a' b' : Nat → BitVec n} (first : ∀ i < count, a i = a' i) (second : ∀ i < count, b i = b' i) {k : Nat}
    (hk : k < 2 * count) : row count a b k = row count a' b' k := by
  by_cases inside : k < count
  · rw [row_first inside rfl, row_first inside rfl, first k inside]
  · obtain ⟨j, rfl⟩ := Nat.exists_eq_add_of_le (Nat.not_lt.mp inside)
    rw [row_second rfl, row_second rfl, second j (by omega)]

/-- **The halves of the new row in one row** are the new row. -/
theorem row_halves (new : Nat → BitVec n) (k : Nat) :
    row count (fun i => new (half count false i)) (fun i => new (half count true i)) k = new k := by
  by_cases inside : k < count
  · exact row_first inside rfl
  · obtain ⟨j, rfl⟩ := Nat.exists_eq_add_of_le (Nat.not_lt.mp inside)
    exact row_second rfl

theorem half_lt (upper : Bool) (hi : i < count) : half count upper i < 2 * count := by
  unfold half
  split <;> omega

/-- A half of a row is one of its vectors. -/
theorem row_half (upper : Bool) (hi : i < count) : row count a b (half count upper i) = (if upper then b else a) i := by
  cases upper with
  | false => exact row_first hi rfl
  | true => exact row_second rfl

end

end Interleaving

/-! ## Instructions -/

namespace Simulator

open Semantics (laneAt regAt)

open Interleaving (half)

/-- **An instruction that rearranges two vectors**, which its sources show. -/
structure Rearranges (sim : Simulator) (inst : Instruction) (p : Interleaving) (upper : Bool) (vl : VectorLength)
    (l : LaneSize) (a b : Nat → BitVec l.bits) : Prop extends sim.Accepts inst (.permute (p.op upper)) vl l where
  first : sim.core.regs.Shows vl l (regAt inst.ops 1) a
  second : sim.core.regs.Shows vl l (regAt inst.ops 2) b

/-- **An instruction that reverses a vector**, which its source shows. -/
structure Reverses (sim : Simulator) (inst : Instruction) (vl : VectorLength) (l : LaneSize) (a : Nat → BitVec l.bits) :
    Prop extends sim.Accepts inst .rev vl l where
  source : sim.core.regs.Shows vl l (regAt inst.ops 1) a

/-- The lanes that an instruction leaves in its destination. -/
def lanesLeft (sim : Simulator) (inst : Instruction) (l : LaneSize) : Nat → BitVec l.bits :=
  (sim.execute inst).sim.core.regs.zLane (regAt inst.ops 0) l.bits

section

variable {sim lower higher before : Simulator} {inst first second : Instruction} {p : Interleaving} {upper : Bool}
  {vl : VectorLength} {l : LaneSize} {a b : Nat → BitVec l.bits}

/-- The lane size of an instruction that rearranges vectors. -/
theorem Rearranges.size (h : sim.Rearranges inst p upper vl l a b) : l ∈ Form.bhsd ∧ laneAt inst.ops 0 = l :=
  h.toAccepts.size Sizing.noConfusion List.mem_cons_self

/-- **The result of a rearrangement is a half of the new row.** -/
theorem Rearranges.putsLanes (h : sim.Rearranges inst p upper vl l a b) : sim.PutsLanes inst vl l fun i =>
    row (vl.lanes l) a b (p.place (vl.lanes l) (half (vl.lanes l) upper i)) := by
  obtain ⟨allowed, lane⟩ := h.size
  have even := vl.lanes_even allowed
  have code : regAt inst.ops 0 < 32 := (h.passes.keepsRegister (i := 0) rfl _ rfl).1
  have puts : sim.PutsLanes inst vl l (Semantics.permuteLane (p.op upper) (vl.lanes l)
      (sim.core.regs.zLane (regAt inst.ops 1) l.bits) (sim.core.regs.zLane (regAt inst.ops 2) l.bits)) := by
    refine h.toAccepts.putsLanes code ?_
    rw [h.execute rfl]
    subst lane
    rfl
  refine puts.congr fun i hi => ?_
  rw [p.permuteLane_op upper even hi]
  exact Interleaving.row_congr h.first h.second (p.place_lt even (Interleaving.half_lt upper hi))

/-- **The inverse gives the vectors back** from the halves of the new row. -/
theorem Rearranges.inverse (h : sim.Rearranges inst p.inverse upper vl l (lower.lanesLeft first l) (higher.lanesLeft second l))
    (fst : lower.Rearranges first p false vl l a b) (snd : higher.Rearranges second p true vl l a b) :
    sim.PutsLanes inst vl l (if upper then b else a) := by
  have even := vl.lanes_even h.size.1
  refine h.putsLanes.congr fun i hi => ?_
  have within := Interleaving.half_lt upper hi
  calc row (vl.lanes l) (lower.lanesLeft first l) (higher.lanesLeft second l)
        (p.inverse.place (vl.lanes l) (half (vl.lanes l) upper i))
    _ = row (vl.lanes l) a b (p.place (vl.lanes l) (p.inverse.place (vl.lanes l) (half (vl.lanes l) upper i))) :=
      (Interleaving.row_congr fst.putsLanes.lanes snd.putsLanes.lanes (p.inverse.place_lt even within)).trans
        (Interleaving.row_halves (fun k => row (vl.lanes l) a b (p.place (vl.lanes l) k)) _)
    _ = row (vl.lanes l) a b (half (vl.lanes l) upper i) := by rw [p.place_inverse even within]
    _ = (if upper then b else a) i := Interleaving.row_half upper hi

/-- **The result of a reversal is the vector from its end.** -/
theorem Reverses.putsLanes (h : sim.Reverses inst vl l a) : sim.PutsLanes inst vl l fun i => a (vl.lanes l - 1 - i) := by
  obtain ⟨-, lane⟩ := h.toAccepts.size Sizing.noConfusion List.mem_cons_self
  have code : regAt inst.ops 0 < 32 := (h.passes.keepsRegister (i := 0) rfl _ rfl).1
  have puts : sim.PutsLanes inst vl l fun i => sim.core.regs.zLane (regAt inst.ops 1) l.bits (vl.lanes l - 1 - i) := by
    refine h.toAccepts.putsLanes code ?_
    rw [h.execute rfl]
    subst lane
    rfl
  exact puts.congr fun i hi => h.source _ (by omega)

/-- **Reversing gives the vector back** from its reverse. -/
theorem Reverses.inverse (h : sim.Reverses inst vl l (before.lanesLeft first l)) (fst : before.Reverses first vl l a) :
    sim.PutsLanes inst vl l a := by
  refine h.putsLanes.congr fun i hi => ?_
  refine (fst.putsLanes.lanes _ (by omega)).trans (congrArg a ?_)
  omega

end

/-- **Vectors are interleaved and taken apart again.** An instruction leaves its half of a row of two vectors whose places are
    permuted. That row is the one that its sources show before it is executed, whichever registers they and the destination
    are, and what is above the vector length stays. So the inverse instructions give back the vectors from what a pair of
    instructions has left of them, and a vector that is reversed twice is as before. -/
theorem interleaves (p : Interleaving) (vl : VectorLength) (l : LaneSize) :
    (∀ sim inst upper a b, Rearranges sim inst p upper vl l a b → sim.PutsLanes inst vl l fun i =>
        row (vl.lanes l) a b (p.place (vl.lanes l) (half (vl.lanes l) upper i))) ∧
      (∀ sim inst a, Reverses sim inst vl l a → sim.PutsLanes inst vl l fun i => a (vl.lanes l - 1 - i)) ∧
      (l ∈ Form.bhsd → Set.BijOn (p.place (vl.lanes l)) (Set.Iio (2 * vl.lanes l)) (Set.Iio (2 * vl.lanes l))) ∧
      (∀ lower higher sim first second inst upper a b, Rearranges lower first p false vl l a b →
        Rearranges higher second p true vl l a b →
        Rearranges sim inst p.inverse upper vl l (lower.lanesLeft first l) (higher.lanesLeft second l) →
        sim.PutsLanes inst vl l (if upper then b else a)) ∧
      ∀ before sim first inst a, Reverses before first vl l a → Reverses sim inst vl l (before.lanesLeft first l) →
        sim.PutsLanes inst vl l a := by
  refine ⟨?_, ?_, ?_, ?_, ?_⟩
  · intro sim inst upper a b h
    exact h.putsLanes
  · intro sim inst a h
    exact h.putsLanes
  · intro allowed
    exact p.bijOn_place (vl.lanes_even allowed)
  · intro lower higher sim first second inst upper a b fst snd h
    exact h.inverse fst snd
  · intro before sim first inst a fst h
    exact h.inverse fst

/-- Halfwords of 384 bits, twelve in each half. The second source is overwritten by the upper half of what is interleaved, and
    both vectors are back in their places after four instructions. -/
theorem interleaves_halfwords :
    let regs := ((Registers.zero (VectorLength.ofBits? 384)).setZ 1 0x00030002000100000).setZ 2 0x80008001800280038004
    let sim : Simulator := ⟨⟨384, 1, 0, false⟩, ⟨regs, .empty⟩, 0, false, none⟩
    let permute (op : PermuteOp) (zd zn zm : Nat) : Instruction :=
      ⟨some (.permute op), .al, [.ofZ ⟨zd, some .h⟩, .ofZ ⟨zn, some .h⟩, .ofZ ⟨zm, some .h⟩]⟩
    let zipped := (sim.execute (permute .zip1 3 1 2)).sim
    let interleaved := (zipped.execute (permute .zip2 2 1 2)).sim
    let unzipped := (interleaved.execute (permute .uzp1 1 3 2)).sim
    let after := (unzipped.execute (permute .uzp2 2 3 2)).sim
    ∀ i < 24, after.core.regs.zLane 1 16 i = regs.zLane 1 16 i ∧ after.core.regs.zLane 2 16 i = regs.zLane 2 16 i := by
  intro regs sim permute zipped interleaved unzipped after i hi
  obtain ⟨vl, configured, length⟩ : ∃ vl, regs.vl = some vl ∧ vl.lanes .h = 24 := ⟨_, rfl, rfl⟩
  obtain ⟨rearranged, -, -, inverse, -⟩ := interleaves .zip vl .h
  have lower : sim.Rearranges (permute .zip1 3 1 2) .zip false vl .h (regs.zLane 1 16) (regs.zLane 2 16) :=
    ⟨⟨⟨_, rfl⟩, rfl, rfl, configured⟩, fun _ _ => rfl, fun _ _ => rfl⟩
  have zips := rearranged _ _ _ _ _ lower
  have higher : zipped.Rearranges (permute .zip2 2 1 2) .zip true vl .h (regs.zLane 1 16) (regs.zLane 2 16) :=
    ⟨⟨⟨_, rfl⟩, rfl, rfl, zips.length.trans configured⟩, zips.shows (show 1 ≠ 3 by decide) lower.first,
      zips.shows (show 2 ≠ 3 by decide) lower.second⟩
  have interleaves := rearranged _ _ _ _ _ higher
  have first : interleaved.Rearranges (permute .uzp1 1 3 2) .unzip false vl .h (sim.lanesLeft (permute .zip1 3 1 2) .h)
      (zipped.lanesLeft (permute .zip2 2 1 2) .h) :=
    ⟨⟨⟨_, rfl⟩, rfl, rfl, interleaves.length.trans higher.configured⟩,
      interleaves.shows (show 3 ≠ 2 by decide) fun _ _ => rfl, fun _ _ => rfl⟩
  have unzips := inverse _ _ _ _ _ _ _ _ _ lower higher first
  have second : unzipped.Rearranges (permute .uzp2 2 3 2) .unzip true vl .h (sim.lanesLeft (permute .zip1 3 1 2) .h)
      (zipped.lanesLeft (permute .zip2 2 1 2) .h) :=
    ⟨⟨⟨_, rfl⟩, rfl, rfl, unzips.length.trans first.configured⟩, unzips.shows (show 3 ≠ 1 by decide) first.first,
      unzips.shows (show 2 ≠ 1 by decide) first.second⟩
  have restores := inverse _ _ _ _ _ _ _ _ _ lower higher second
  rw [← length] at hi
  exact ⟨restores.shows (show 1 ≠ 2 by decide) unzips.lanes i hi, restores.lanes i hi⟩

end Simulator

end ArmToolkit.A64
