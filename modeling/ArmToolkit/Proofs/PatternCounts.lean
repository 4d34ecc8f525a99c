import ArmToolkit.Proofs.ActiveCounts
import ArmToolkit.Proofs.TestedPredicates
import Mathlib.Order.Bounds.Basic

/-!
# `Proofs.PatternCounts` — the lanes of patterns, counted in two ways

## Contents
- **Patterns.** `Pattern.Admits` says which counts a pattern may give. It gives the greatest of them that is not above the
  number of lanes (`Pattern.isGreatest_count`).
- **Instructions.** `ptrue` sets the lowest lanes, as many as its pattern gives (`Semantics.ptrue_eq`). Counting these lanes
  gives the same as counting the lanes of the pattern without a predicate (`Simulator.execute_pattern_counts`).
-/

namespace ArmToolkit.A64

/-! ## Patterns -/

namespace Pattern

/-- **The counts that a pattern may give**: a power of two, its own number, a power of two from 16 to 256, a multiple of four
    or three, or any count. Every pattern may give none, and a pattern without a meaning nothing else. -/
inductive Admits : Nat → Nat → Prop
  | none {pattern : Nat} : Admits pattern 0
  | pow2 (e : Nat) : Admits 0 (2 ^ e)
  | vl {k : Nat} (first : 1 ≤ k) (last : k ≤ 8) : Admits k k
  | vlPow2 {e : Nat} (last : e < 5) : Admits (9 + e) (16 * 2 ^ e)
  | mul4 (m : Nat) : Admits 29 (4 * m)
  | mul3 (m : Nat) : Admits 30 (3 * m)
  | all (k : Nat) : Admits 31 k

variable {pattern k n : Nat}

/-- A fixed count is one that its pattern may give. -/
theorem admits_fixedCount (fixed : fixedCount? pattern = some k) : Admits pattern k := by
  unfold fixedCount? at fixed
  split at fixed
  · rename_i low
    cases fixed
    exact .vl low.1 low.2
  · split at fixed
    · rename_i high
      cases fixed
      obtain ⟨e, rfl⟩ := Nat.exists_eq_add_of_le high.1
      rw [Nat.add_sub_cancel_left]
      exact .vlPow2 (by omega)
    · cases fixed

/-- Where a count is fixed, it is given if there are as many lanes. -/
theorem count_of_fixed (fixed : fixedCount? pattern = some k) (n : Nat) : count pattern n = if k ≤ n then k else 0 := by
  unfold count
  rw [fixed]

/-- **A pattern gives a count that it may give.** -/
theorem admits_count (pattern n : Nat) : Admits pattern (count pattern n) := by
  -- a fixed count is given or none; the other patterns choose by the number of lanes
  cases fixed : fixedCount? pattern with
  | some k =>
    rw [count_of_fixed fixed]
    split
    · exact admits_fixedCount fixed
    · exact .none
  | none =>
    unfold count
    rw [fixed]
    dsimp only
    split
    · rename_i pow2
      subst pow2
      split
      · exact .none
      · exact .pow2 _
    · split
      · rename_i mul4
        subst mul4
        obtain ⟨m, multiple⟩ := Nat.dvd_sub_mod (n := 4) n
        rw [multiple]
        exact .mul4 m
      · split
        · rename_i mul3
          subst mul3
          obtain ⟨m, multiple⟩ := Nat.dvd_sub_mod (n := 3) n
          rw [multiple]
          exact .mul3 m
        · split
          · rename_i all
            subst all
            exact .all n
          · exact .none

/-- A pattern gives no count above the number of lanes. -/
theorem count_le (pattern n : Nat) : count pattern n ≤ n := by
  -- both kinds of patterns give none rather than too many
  cases fixed : fixedCount? pattern with
  | some k =>
    rw [count_of_fixed fixed]
    split <;> omega
  | none =>
    unfold count
    rw [fixed]
    dsimp only
    split
    · split
      · omega
      · exact Nat.log2_self_le ‹_›
    · split
      · omega
      · split
        · omega
        · split <;> omega

/-- A pattern gives the greatest count that it may give, up to the number of lanes. -/
theorem le_count (admits : Admits pattern k) (fits : k ≤ n) : k ≤ count pattern n := by
  -- one case for each kind of count: a smaller one of the kind is below the one that is given
  cases admits with
  | none => exact Nat.zero_le _
  | pow2 e =>
    have some : n ≠ 0 := Nat.ne_of_gt (Nat.lt_of_lt_of_le (Nat.two_pow_pos e) fits)
    show 2 ^ e ≤ if n = 0 then 0 else 2 ^ n.log2
    rw [if_neg some]
    exact Nat.pow_le_pow_right (by decide) ((Nat.le_log2 some).mpr fits)
  | vl first last =>
    have fixed : fixedCount? _ = some _ := if_pos ⟨first, last⟩
    rw [count_of_fixed fixed, if_pos fits]
  | @vlPow2 e last =>
    have fixed : fixedCount? (9 + e) = some (16 * 2 ^ e) := by
      unfold fixedCount?
      rw [if_neg (by omega), if_pos (by omega), Nat.add_sub_cancel_left]
      rfl
    rw [count_of_fixed fixed, if_pos fits]
  | mul4 m =>
    show 4 * m ≤ n - n % 4
    omega
  | mul3 m =>
    show 3 * m ≤ n - n % 3
    omega
  | all => exact fits

/-- **A pattern gives the greatest count** that it may give and that is not above the number of lanes. -/
theorem isGreatest_count (pattern n : Nat) : IsGreatest {k | Admits pattern k ∧ k ≤ n} (count pattern n) :=
  ⟨⟨admits_count pattern n, count_le pattern n⟩, fun _ h => le_count h.1 h.2⟩

end Pattern

/-! ## Instructions -/

namespace Instruction

/-- `ptrue p.T, pattern`, or `ptrues`. -/
def ofPtrue (setsFlags : Bool) (l : LaneSize) (p pattern : Nat) : Instruction :=
  ⟨some (.ptrue setsFlags), .al, [.ofP ⟨p, some l, none⟩, .ofPattern pattern]⟩

/-- `cntp x, pg, pn.T`. -/
def ofCntp (l : LaneSize) (x pg pn : Nat) : Instruction :=
  ⟨some .cntp, .al, [.ofX ⟨x, .x⟩, .ofP ⟨pg, none, none⟩, .ofP ⟨pn, some l, none⟩]⟩

/-- `cntT x, pattern, mul #multiplier`. -/
def ofCnt (e : Element) (x pattern : Nat) (multiplier : BitVec 64) : Instruction :=
  ⟨some (.elementCount .cnt e), .al, [.ofX ⟨x, .x⟩, .ofPattern pattern, .ofImm multiplier]⟩

end Instruction

/-- A pattern of eight bits is what its operand holds. -/
theorem Operand.patternBits_ofPattern {pattern : Nat} (byte : pattern < 256) : (ofPattern pattern).patternBits = pattern := by
  unfold patternBits ofPattern
  rw [BitVec.toNat_ofNat]
  omega

section

variable {vl : VectorLength} {l : LaneSize} {count : Nat} (fits : count ≤ vl.lanes l)

include fits

/-- The bits of a predicate with its lowest lanes active. -/
theorem getLsbD_lowestActive (j : Nat) :
    (lowestActive l.bytes (vl.lanes l) count).getLsbD j = true ↔ ∃ i < count, j = i * l.bytes := by
  rw [lowestActive, getLsbD_predicateOf l.bytes_pos (vl.lanes_mul_bytes_le l)]
  constructor
  · rintro ⟨i, -, place, low⟩
    exact ⟨i, of_decide_eq_true low, place⟩
  · rintro ⟨i, low, place⟩
    exact ⟨i, Nat.lt_of_lt_of_le low fits, place, decide_eq_true low⟩

/-- **The active lanes are the lowest**, seen through themselves. -/
theorem activeIn_lowestActive :
    activeIn vl l [lowestActive l.bytes (vl.lanes l) count, lowestActive l.bytes (vl.lanes l) count] =
      Finset.range count := by
  have low : ∀ i, activeLane l.bytes (lowestActive l.bytes (vl.lanes l) count) i = true ↔ i < count := by
    intro i
    refine (getLsbD_lowestActive fits _).trans ⟨?_, fun low => ⟨i, low, rfl⟩⟩
    rintro ⟨i', low, place⟩
    rwa [Nat.eq_of_mul_eq_mul_right l.bytes_pos place]
  ext i
  rw [activeIn, Finset.mem_filter, Finset.mem_range, Finset.mem_range]
  simp only [List.forall_mem_cons, low]
  constructor
  · exact fun h => h.2.1
  · exact fun h => ⟨Nat.lt_of_lt_of_le h fits, h, h, List.forall_mem_nil _⟩

end

/-- **The lowest lanes are set**, as many as the pattern gives, and perhaps the flags. -/
theorem Semantics.ptrue_eq (vl : VectorLength) (ops : List Operand) (r : Registers) (setsFlags : Bool) :
    ∃ flags, ptrue vl ops r setsFlags = { r.setP (regAt ops 0) (lowestActive (laneAt ops 0).bytes (vl.lanes (laneAt ops 0))
      (Pattern.count (arg ops 1).patternBits (vl.lanes (laneAt ops 0)))) with flags } := by
  unfold ptrue
  cases setsFlags with
  | true => exact ⟨_, rfl⟩
  | false => exact ⟨r.flags, rfl⟩

namespace Registers

variable {r r' : Registers} (same : r.x = r'.x)

include same

/-- Writes of one value keep the general registers alike. -/
theorem x_write_congr (code : Nat) (v : BitVec 64) : (r.write code v .zero).x = (r'.write code v .zero).x := by
  unfold write
  split
  · exact same
  · exact congrArg (fun x => Vector.setIfInBounds x code v) same

/-- General registers that are alike are read alike. -/
theorem read_congr (code : Nat) : r.read code .zero = r'.read code .zero := by
  unfold read
  rw [same]

end Registers

namespace Simulator

section

variable {sim : Simulator} {vl : VectorLength} (configured : sim.core.regs.vl = some vl)

include configured

/-- What `ptrue` leaves. -/
theorem execute_ofPtrue (setsFlags : Bool) (l : LaneSize) {p pattern : Nat} (hp : p < 16) (byte : pattern < 256) :
    let after := sim.execute (.ofPtrue setsFlags l p pattern)
    after.failure = none ∧
      after.sim.core.regs.pBits p = lowestActive l.bytes (vl.lanes l) (Pattern.count pattern (vl.lanes l)) ∧
      after.sim.core.regs.x = sim.core.regs.x ∧ after.sim.core.regs.vl = sim.core.regs.vl := by
  obtain ⟨flags, set⟩ := Semantics.ptrue_eq vl (Instruction.ofPtrue setsFlags l p pattern).ops sim.core.regs setsFlags
  have executed : Semantics.execute (.ptrue setsFlags) .al (Instruction.ofPtrue setsFlags l p pattern).ops sim.core =
      Semantics.registersOnly sim.core (Semantics.ptrue vl (Instruction.ofPtrue setsFlags l p pattern).ops sim.core.regs
        setsFlags) := (Form.needsLength_of_isVector rfl).execute _ _ configured
  rw [set] at executed
  have formed : (Instruction.ofPtrue setsFlags l p pattern).form = some (.ptrue setsFlags) := rfl
  obtain ⟨succeeds, left⟩ := execute_registers formed executed
  refine ⟨succeeds, ?_, by rw [left]; rfl, by rw [left]; rfl⟩
  rw [left]
  show (sim.core.regs.setP p (lowestActive l.bytes (vl.lanes l)
    (Pattern.count (Operand.ofPattern pattern).patternBits (vl.lanes l)))).pBits p = _
  rw [Registers.pBits_setP, if_pos ⟨rfl, hp⟩, Operand.patternBits_ofPattern byte]

/-- What `cntp` leaves. -/
theorem execute_ofCntp (l : LaneSize) (x pg pn : Nat) :
    let after := sim.execute (.ofCntp l x pg pn)
    after.failure = none ∧ after.sim.core.regs.x = (sim.core.regs.write x
      (BitVec.ofNat 64 (activeIn vl l [sim.core.regs.pBits pg, sim.core.regs.pBits pn]).card) .zero).x := by
  have executed : Semantics.execute .cntp .al (Instruction.ofCntp l x pg pn).ops sim.core =
      Semantics.registersOnly sim.core (Semantics.cntp vl (Instruction.ofCntp l x pg pn).ops sim.core.regs) :=
    (Form.needsLength_of_isVector rfl).execute _ _ configured
  have formed : (Instruction.ofCntp l x pg pn).form = some .cntp := rfl
  obtain ⟨succeeds, left⟩ := execute_registers formed executed
  refine ⟨succeeds, ?_⟩
  rw [left, ← length_governedLanes]
  rfl

/-- What `cntT` leaves. -/
theorem execute_ofCnt (e : Element) (x : Nat) {pattern : Nat} (byte : pattern < 256) (multiplier : BitVec 64) :
    let after := sim.execute (.ofCnt e x pattern multiplier)
    after.failure = none ∧ after.sim.core.regs.x = (sim.core.regs.write x
      (BitVec.ofNat 64 (Pattern.count pattern (vl.lanes e.lane)) * multiplier) .zero).x := by
  have executed : Semantics.execute (.elementCount .cnt e) .al (Instruction.ofCnt e x pattern multiplier).ops sim.core =
      Semantics.registersOnly sim.core (Semantics.elementCount vl (Instruction.ofCnt e x pattern multiplier).ops
        sim.core.regs .cnt e) := (Form.needsLength_of_isVector rfl).execute _ _ configured
  have formed : (Instruction.ofCnt e x pattern multiplier).form = some (.elementCount .cnt e) := rfl
  obtain ⟨succeeds, left⟩ := execute_registers formed executed
  refine ⟨succeeds, ?_⟩
  rw [left]
  show (sim.core.regs.write x (BitVec.ofNat 64
    (Pattern.count (Operand.ofPattern pattern).patternBits (vl.lanes e.lane)) * multiplier) .zero).x = _
  rw [Operand.patternBits_ofPattern byte]

end

/-- **The lanes of a pattern are counted alike.** A pattern gives the greatest count that it may give. `ptrue` sets the lowest
    bits of as many of the lowest lanes, and no others; and `cntp` then counts as many lanes as `cntT` gives for the pattern,
    at every vector length, in every state. -/
theorem execute_pattern_counts :
    (∀ pattern n, IsGreatest {k | Pattern.Admits pattern k ∧ k ≤ n} (Pattern.count pattern n)) ∧
    ∀ (sim : Simulator) vl, sim.core.regs.vl = some vl → ∀ (e : Element) setsFlags pattern p x,
      pattern < 256 → p < 16 → x < 32 →
      let count := Pattern.count pattern (vl.lanes e.lane)
      let set := sim.execute (.ofPtrue setsFlags e.lane p pattern)
      let tallied := set.sim.execute (.ofCntp e.lane x p p)
      let counted := sim.execute (.ofCnt e x pattern 1)
      (set.failure = none ∧
        ∀ j, (set.sim.core.regs.pBits p).getLsbD j = true ↔ ∃ i < count, j = i * e.lane.bytes) ∧
      tallied.failure = none ∧ counted.failure = none ∧ tallied.sim.core.regs.x = counted.sim.core.regs.x ∧
      (x ≠ 31 → (tallied.sim.core.regs.read x .zero).toNat = count) := by
  refine ⟨Pattern.isGreatest_count, fun sim vl configured e setsFlags pattern p x byte hp hx => ?_⟩
  intro count set tallied counted
  have fits : count ≤ vl.lanes e.lane := Pattern.count_le _ _
  -- `cntp` runs behind `ptrue`, which leaves the general registers; `cntT` runs where `ptrue` did
  obtain ⟨sets, lanes, general, length⟩ := execute_ofPtrue configured setsFlags e.lane hp byte
  have set_configured : set.sim.core.regs.vl = some vl := length.trans configured
  obtain ⟨tallies, tally⟩ := execute_ofCntp set_configured e.lane x p p
  obtain ⟨counts, number⟩ := execute_ofCnt configured e x byte 1
  rw [lanes, activeIn_lowestActive fits, Finset.card_range] at tally
  rw [show (1 : BitVec 64) = 1#64 from rfl, BitVec.mul_one] at number
  refine ⟨⟨sets, fun j => ?_⟩, tallies, counts, ?_, fun inside => ?_⟩
  · rw [lanes]
    exact getLsbD_lowestActive fits j
  · exact tally.trans ((Registers.x_write_congr general _ _).trans number.symm)
  · have small := card_activeIn_le vl e.lane [lowestActive e.lane.bytes (vl.lanes e.lane) count,
      lowestActive e.lane.bytes (vl.lanes e.lane) count]
    rw [activeIn_lowestActive fits, Finset.card_range] at small
    have inside : x < 31 := by omega
    rw [Registers.read_congr tally, Registers.read_write _ _ _ _ inside inside, if_pos rfl, BitVec.toNat_ofNat]
    omega

/-- There are 24 halfword lanes in 384 bits, and sixteen of them are a power of two. -/
theorem execute_pattern_counts_pow2 :
    let sim : Simulator := ⟨⟨384, 1, 0, false⟩, ⟨.zero (VectorLength.ofBits? 384), .empty⟩, 0, false, none⟩
    let set := sim.execute (.ofPtrue true .h 3 0)
    let tallied := set.sim.execute (.ofCntp .h 5 3 3)
    (∀ j, (set.sim.core.regs.pBits 3).getLsbD j = true ↔ ∃ i < 16, j = i * 2) ∧
      (tallied.sim.core.regs.read 5 .zero).toNat = 16 ∧
      tallied.sim.core.regs.x = (sim.execute (.ofCnt .h 5 0 1)).sim.core.regs.x := by
  intro sim set tallied
  obtain ⟨⟨-, lanes⟩, -, -, same, number⟩ :=
    execute_pattern_counts.2 sim ⟨384, rfl⟩ rfl .h true 0 3 5 (by decide) (by decide) (by decide)
  have count : Pattern.count 0 (VectorLength.lanes ⟨384, rfl⟩ .h) = 16 := by decide
  simp only [Element.lane, count] at lanes number
  exact ⟨lanes, number (by decide), same⟩

end Simulator

end ArmToolkit.A64
