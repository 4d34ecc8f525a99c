import Mathlib.Data.List.Nodup
import Mathlib.Logic.Function.Iterate
import ArmToolkit.Proofs.TestedPredicates
import ArmToolkit.Proofs.VectorInstructions

/-!
# `Proofs.NextLane` — the loop over the active lanes of a predicate

A loop that executes `pnext` again and again walks through the active lanes of its governing predicate. Each execution finds
its place anew: it looks for the last lane that is set in the register that it is about to write.

## Contents
- **Rising order.** The first number above the one at a place is at the next place (`find?_above`).
- **One lane.** `onlyLane` is the predicate with one lane set, or none; what is read from it, and the flags that describe it.
- **The loop.** `Simulator.Visiting` says how far the loop has come. One execution goes on by one lane
  (`Simulator.Visiting.execute`), and so it is after any number of them (`Simulator.Visiting.iterate`).
- `Simulator.pnext_visits`: every active lane is visited once, in rising order, and then the loop ends.
-/

namespace ArmToolkit.A64

/-! ## Rising order -/

/-- **The first number above the one at a place** is the one at the next place. -/
theorem find?_above {lanes : List Nat} (rising : lanes.Pairwise (· < ·)) {k : Nat} (hk : k < lanes.length) :
    (lanes.find? fun i => decide (lanes[k] + 1 ≤ i)) = lanes[k + 1]? := by
  induction lanes generalizing k with
  | nil => simp at hk
  | cons first rest ih =>
    obtain ⟨above, rising⟩ := List.pairwise_cons.mp rising
    cases k with
    | zero =>
      -- all others are above the first, so that the next one is found at once
      have passed : ¬ first + 1 ≤ first := Nat.not_succ_le_self first
      show List.find? (fun i => decide (first + 1 ≤ i)) (first :: rest) = rest[0]?
      rw [List.find?_cons, decide_eq_false passed]
      cases rest with
      | nil => rfl
      | cons second rest =>
        have next : first + 1 ≤ second := above second (by simp)
        rw [List.find?_cons, decide_eq_true next]
        rfl
    | succ k =>
      have hk : k < rest.length := by simpa using hk
      have below : first < rest[k] := above _ (List.getElem_mem hk)
      have passed : ¬ rest[k] + 1 ≤ first := by omega
      show List.find? (fun i => decide (rest[k] + 1 ≤ i)) (first :: rest) = rest[k + 1]?
      rw [List.find?_cons, decide_eq_false passed]
      exact ih rising hk

/-- The place that a loop over some numbers has come to after `k` rounds: it is at the last number that it has seen. -/
def visited (lanes : List Nat) : Nat → Option Nat
  | 0 => none
  | k + 1 => lanes[k]?

/-- **The next number** is the first one from behind the place of the loop. -/
theorem find?_from_visited {lanes : List Nat} (rising : lanes.Pairwise (· < ·)) {k : Nat} (hk : k ≤ lanes.length) :
    (lanes.find? fun i => decide ((match visited lanes k with | some i => i + 1 | none => 0) ≤ i)) = lanes[k]? := by
  cases k with
  | zero => cases lanes <;> simp [visited]
  | succ k =>
    have inside : lanes[k]? = some lanes[k] := List.getElem?_eq_getElem hk
    simp only [visited, inside]
    exact find?_above rising hk

/-! ## One lane -/

/-- **The predicate with one lane set**, or none. -/
def onlyLane (k : Nat) : Option Nat → PBits
  | some i => setActive k 0 i true
  | none => 0

section

variable {k count : Nat} (positive : 0 < k)

include positive

/-- The predicate of one lane has the lowest bit of the lane, and no other. -/
theorem getLsbD_onlyLane {i : Nat} (fits : i * k < 256) (j : Nat) :
    (onlyLane k (some i)).getLsbD j = true ↔ j = i * k := by
  show (setActive k 0 i true).getLsbD j = true ↔ _
  rw [getLsbD_setActive_true positive fits]
  simp

/-- So it is the lane that is active. -/
theorem activeLane_onlyLane {i : Nat} (fits : i * k < 256) (j : Nat) :
    activeLane k (onlyLane k (some i)) j = decide (j = i) := by
  have bit := getLsbD_onlyLane positive fits (j * k)
  rw [Nat.mul_left_inj (Nat.ne_of_gt positive)] at bit
  rw [activeLane, Bool.eq_iff_iff, bit, decide_eq_true_iff]

/-- The only active lane is the last one as well. -/
theorem getLast?_onlyLane {place : Option Nat} (inside : ∀ i ∈ place, i < count) (fits : count * k ≤ 256) :
    (activeLanes k (onlyLane k place) count).getLast? = place := by
  cases place with
  | none => simp [activeLanes, activeLane, onlyLane]
  | some i =>
    have hi : i < count := inside i rfl
    have room : i * k < count * k := Nat.mul_lt_mul_of_pos_right hi positive
    rw [getLast?_eq_some_iff (Semantics.activeLanes_rising k _ count)]
    simp only [mem_activeLanes, Governed, activeLane_onlyLane positive (show i * k < 256 by omega), decide_eq_true_eq]
    constructor
    · simpa using hi
    · rintro j ⟨-, rfl⟩
      exact Nat.le_refl _

/-- **The flags of a predicate with one lane set** that is governed: they tell whether it is the first of the governed lanes,
    and whether it is the last. -/
theorem predicateTest_onlyLane {governing : PBits} (fits : count * k ≤ 256) {m : Nat}
    (hm : m < (activeLanes k governing count).length) :
    predicateTest k governing (onlyLane k (some (activeLanes k governing count)[m])) count =
      { n := decide (m = 0), z := false, c := decide (m + 1 ≠ (activeLanes k governing count).length), v := false } := by
  have member : (activeLanes k governing count)[m] ∈ activeLanes k governing count := List.getElem_mem hm
  have inside := (mem_activeLanes.mp member).1
  have room := Nat.mul_lt_mul_of_pos_right inside positive
  have distinct : (activeLanes k governing count).Nodup := (Semantics.activeLanes_rising k governing count).imp Nat.ne_of_lt
  unfold predicateTest
  generalize activeLanes k governing count = lanes at *
  simp only [activeLane_onlyLane positive (show lanes[m] * k < 256 by omega)]
  congr 1
  · -- the first lane is the one at place 0, and no two lanes are the same
    have first : lanes.head? = some lanes[0] := by rw [List.head?_eq_getElem?, List.getElem?_eq_getElem]
    rw [List.head?_map, first, Option.map_some, Option.getD_some, decide_eq_decide,
      List.Nodup.getElem_inj_iff distinct, eq_comm]
  · simp [member]
  · have last : lanes.getLast? = some lanes[lanes.length - 1] := by
      rw [List.getLast?_eq_getElem?, List.getElem?_eq_getElem]
    rw [List.getLast?_map, last, Option.map_some, Option.getD_some, ← decide_not, decide_eq_decide,
      List.Nodup.getElem_inj_iff distinct]
    omega

omit positive in
/-- **The flags of a predicate without lanes.** -/
theorem predicateTest_zero (governing : PBits) :
    predicateTest k governing 0 count = { n := false, z := true, c := true, v := false } := by
  have unset : ∀ i, activeLane k 0 i = false := fun _ => BitVec.getLsbD_zero
  unfold predicateTest
  simp only [unset]
  congr 1
  · cases activeLanes k governing count <;> rfl
  · simp
  · rw [List.getLast?_map]
    cases (activeLanes k governing count).getLast? <;> rfl

end

/-! ## The loop -/

namespace Semantics

variable {vl : VectorLength} {l : LaneSize} {ops : List Operand} {r : Registers}

/-- **One round of the loop** sets the next lane alone. -/
theorem pnext_eq (lane : laneAt ops 0 = l) {k : Nat}
    (hk : k ≤ (activeLanes l.bytes (r.pBits (regAt ops 1)) (vl.lanes l)).length)
    (position : (activeLanes l.bytes (r.pBits (regAt ops 0)) (vl.lanes l)).getLast? =
      visited (activeLanes l.bytes (r.pBits (regAt ops 1)) (vl.lanes l)) k) :
    pnext vl ops r = setTested vl r l (regAt ops 0) (r.pBits (regAt ops 1))
      (onlyLane l.bytes (activeLanes l.bytes (r.pBits (regAt ops 1)) (vl.lanes l))[k]?) := by
  subst lane
  have rising := activeLanes_rising (laneAt ops 0).bytes (r.pBits (regAt ops 1)) (vl.lanes (laneAt ops 0))
  have next := find?_from_visited rising hk
  rw [← position] at next
  rw [← next]
  rfl

end Semantics

namespace Simulator

open Semantics (laneAt regAt)

/-- **How far a loop over the lanes of a predicate has come** after `k` rounds: the predicate is as it was, and the last lane
    that is set in the destination is the one that was visited last. -/
structure Visiting (vl : VectorLength) (l : LaneSize) (ops : List Operand) (governing : PBits) (k : Nat) (sim : Simulator) :
    Prop where
  configured : sim.core.regs.vl = some vl
  governed : sim.core.regs.pBits (regAt ops 1) = governing
  position : (activeLanes l.bytes (sim.core.regs.pBits (regAt ops 0)) (vl.lanes l)).getLast? =
    visited (activeLanes l.bytes governing (vl.lanes l)) k

/-- **What a round of the loop reports**: it succeeds, sets the next lane alone, and leaves the flags that describe it. -/
structure Visits (vl : VectorLength) (l : LaneSize) (pd : Nat) (governing : PBits) (place : Option Nat) (report : Report) :
    Prop where
  succeeds : report.failure = none
  result : report.sim.core.regs.pBits pd = onlyLane l.bytes place
  flags : report.sim.core.regs.flags = predicateTest l.bytes governing (onlyLane l.bytes place) (vl.lanes l)

variable {sim : Simulator} {vl : VectorLength} {l : LaneSize} {inst : Instruction} {governing : PBits} {k : Nat}

/-- A loop starts with no lane of its destination active. -/
theorem Visiting.start {ops : List Operand} (configured : sim.core.regs.vl = some vl)
    (clear : ∀ i < vl.lanes l, activeLane l.bytes (sim.core.regs.pBits (regAt ops 0)) i = false) :
    sim.Visiting vl l ops (sim.core.regs.pBits (regAt ops 1)) 0 := by
  have inactive : activeLanes l.bytes (sim.core.regs.pBits (regAt ops 0)) (vl.lanes l) = [] := by
    simp only [activeLanes, List.filter_eq_nil_iff, List.mem_range]
    intro i hi
    simp [clear i hi]
  refine ⟨configured, rfl, ?_⟩
  rw [inactive]
  rfl

/-- **One execution goes on by one lane**, or by none after the last. -/
theorem Visiting.execute (h : sim.Visiting vl l inst.ops governing k) (accepted : sim.Accepts inst .pnext vl l)
    (apart : regAt inst.ops 0 ≠ regAt inst.ops 1) (hk : k ≤ (activeLanes l.bytes governing (vl.lanes l)).length) :
    Visits vl l (regAt inst.ops 0) governing (activeLanes l.bytes governing (vl.lanes l))[k]? (sim.execute inst) ∧
      (sim.execute inst).sim.Visiting vl l inst.ops governing (k + 1) := by
  obtain ⟨configured, rfl, position⟩ := h
  have hpd : regAt inst.ops 0 < 16 := (accepted.passes.keepsRegister (i := 0) rfl _ rfl).1
  have lane : laneAt inst.ops 0 = l := (accepted.size Sizing.noConfusion List.mem_cons_self).2
  have executed : Semantics.execute .pnext inst.cond inst.ops sim.core = Semantics.registersOnly sim.core
      (Semantics.pnext vl inst.ops sim.core.regs) := accepted.execute rfl
  rw [Semantics.pnext_eq lane hk position] at executed
  obtain ⟨succeeds, regs⟩ := execute_registers accepted.formed executed
  have result : ∀ next, (Semantics.setTested vl sim.core.regs l (regAt inst.ops 0)
      (sim.core.regs.pBits (regAt inst.ops 1)) next).pBits (regAt inst.ops 0) = next := Semantics.pBits_setTested hpd _
  have inside : ∀ i ∈ (activeLanes l.bytes (sim.core.regs.pBits (regAt inst.ops 1)) (vl.lanes l))[k]?, i < vl.lanes l :=
    fun i hi => (mem_activeLanes.mp (List.mem_of_getElem? hi)).1
  -- the destination is not the governing predicate, so the lanes that are visited stay the same
  refine ⟨⟨succeeds, ?_, ?_⟩, ?_, ?_, ?_⟩
  · rw [regs]
    exact result _
  · rw [regs]
    rfl
  · rw [regs]
    exact configured
  · rw [regs]
    show (sim.core.regs.setP _ _).pBits _ = _
    rw [Registers.pBits_setP, if_neg fun same => apart same.1]
  · rw [regs]
    show (activeLanes _ (Registers.pBits (Semantics.setTested vl sim.core.regs l _ (sim.core.regs.pBits (regAt inst.ops 1)) _)
      _) _).getLast? = _
    rw [result, getLast?_onlyLane l.bytes_pos inside (vl.lanes_mul_bytes_le l)]
    rfl

/-- **After any number of executions**, up to one behind the last lane. -/
theorem Visiting.iterate (h : sim.Visiting vl l inst.ops governing 0) (accepted : sim.Accepts inst .pnext vl l)
    (apart : regAt inst.ops 0 ≠ regAt inst.ops 1) (hk : k ≤ (activeLanes l.bytes governing (vl.lanes l)).length) :
    ((fun s : Simulator => (s.execute inst).sim)^[k] sim).Visiting vl l inst.ops governing k := by
  induction k with
  | zero => exact h
  | succ k ih =>
    have before := ih (Nat.le_of_succ_le hk)
    rw [Function.iterate_succ_apply']
    exact (before.execute (accepted.at_length before.configured) apart (Nat.le_of_succ_le hk)).2

/-- What the execution after that reports. -/
theorem Visiting.visits (h : sim.Visiting vl l inst.ops governing 0) (accepted : sim.Accepts inst .pnext vl l)
    (apart : regAt inst.ops 0 ≠ regAt inst.ops 1) (hk : k ≤ (activeLanes l.bytes governing (vl.lanes l)).length) :
    Visits vl l (regAt inst.ops 0) governing (activeLanes l.bytes governing (vl.lanes l))[k]?
      (((fun s : Simulator => (s.execute inst).sim)^[k] sim).execute inst) := by
  have before := h.iterate accepted apart hk
  exact (before.execute (accepted.at_length before.configured) apart hk).1

section

variable {pd : Nat} {report : Report} (hk : k < (activeLanes l.bytes governing (vl.lanes l)).length)
  (h : Visits vl l pd governing (activeLanes l.bytes governing (vl.lanes l))[k]? report)

include hk h

/-- A round that sets a lane sets the one at its place. -/
theorem Visits.set :
    report.sim.core.regs.pBits pd = onlyLane l.bytes (some (activeLanes l.bytes governing (vl.lanes l))[k]) ∧
      (activeLanes l.bytes governing (vl.lanes l))[k] * l.bytes < 256 := by
  have inside := (mem_activeLanes.mp (List.getElem_mem hk)).1
  have room := Nat.mul_lt_mul_of_pos_right inside l.bytes_pos
  have fits := vl.lanes_mul_bytes_le l
  refine ⟨?_, by omega⟩
  rw [← List.getElem?_eq_getElem hk]
  exact h.result

/-- A round that sets a lane sets its lowest bit and no other. -/
theorem Visits.bit (j : Nat) : (report.sim.core.regs.pBits pd).getLsbD j = true ↔
    j = (activeLanes l.bytes governing (vl.lanes l))[k] * l.bytes := by
  obtain ⟨set, room⟩ := h.set hk
  rw [set]
  exact getLsbD_onlyLane l.bytes_pos room j

/-- A round that sets a lane makes no other lane active. -/
theorem Visits.active (j : Nat) : activeLane l.bytes (report.sim.core.regs.pBits pd) j =
    decide (j = (activeLanes l.bytes governing (vl.lanes l))[k]) := by
  obtain ⟨set, room⟩ := h.set hk
  rw [set]
  exact activeLane_onlyLane l.bytes_pos room j

/-- The flags after a round that sets a lane tell the first lane and the last. -/
theorem Visits.flagged : report.sim.core.regs.flags =
    { n := decide (k = 0), z := false, c := decide (k + 1 ≠ (activeLanes l.bytes governing (vl.lanes l)).length),
      v := false } := by
  have flags := h.flags
  rw [List.getElem?_eq_getElem hk, predicateTest_onlyLane l.bytes_pos (vl.lanes_mul_bytes_le l) hk] at flags
  exact flags

end

/-- **A loop of `pnext` visits every active lane once.** The lanes are those of the governing predicate that are active at the
    lane size, in rising order, and no lane of the destination is active at first. Execution `k + 1`, for `k` below the number
    of lanes, leaves the lowest bit of lane `k` in that order and no other; N tells that it is the first lane, and a clear C
    that it is the last. The execution after that leaves no bit, and sets Z and C. -/
theorem pnext_visits (sim : Simulator) :
    ∀ inst vl l, sim.Accepts inst .pnext vl l → regAt inst.ops 0 ≠ regAt inst.ops 1 →
      (∀ i < vl.lanes l, activeLane l.bytes (sim.core.regs.pBits (regAt inst.ops 0)) i = false) →
      let governing := sim.core.regs.pBits (regAt inst.ops 1)
      let lanes := activeLanes l.bytes governing (vl.lanes l)
      let report (k : Nat) := ((fun s : Simulator => (s.execute inst).sim)^[k] sim).execute inst
      let result (k : Nat) := (report k).sim.core.regs.pBits (regAt inst.ops 0)
      (lanes.Pairwise (· < ·) ∧ ∀ i, i ∈ lanes ↔ Governed l.bytes (vl.lanes l) governing i) ∧
        (∀ k ≤ lanes.length, (report k).failure = none) ∧
        (∀ k (hk : k < lanes.length), (∀ j, (result k).getLsbD j = true ↔ j = lanes[k] * l.bytes) ∧
          (report k).sim.core.regs.flags =
            { n := decide (k = 0), z := false, c := decide (k + 1 ≠ lanes.length), v := false }) ∧
        (result lanes.length = 0 ∧
          (report lanes.length).sim.core.regs.flags = { n := false, z := true, c := true, v := false }) ∧
        ∀ i, Governed l.bytes (vl.lanes l) governing i →
          ∃! k, k < lanes.length ∧ activeLane l.bytes (result k) i = true := by
  intro inst vl l accepted apart clear governing lanes report result
  have rising : lanes.Pairwise (· < ·) := Semantics.activeLanes_rising ..
  have distinct : lanes.Nodup := rising.imp Nat.ne_of_lt
  -- the loop is known after any number of rounds
  have round : ∀ k ≤ lanes.length, Visits vl l (regAt inst.ops 0) governing lanes[k]? (report k) := fun k hk =>
    (Visiting.start accepted.configured clear).visits accepted apart hk
  refine ⟨⟨rising, fun i => mem_activeLanes⟩, fun k hk => (round k hk).succeeds, ?_, ?_, ?_⟩
  · intro k hk
    have visits := round k (Nat.le_of_lt hk)
    exact ⟨visits.bit hk, visits.flagged hk⟩
  · have behind : lanes[lanes.length]? = none := List.getElem?_eq_none (Nat.le_refl _)
    obtain ⟨-, last, flags⟩ := round lanes.length (Nat.le_refl _)
    rw [behind] at last flags
    exact ⟨last, flags.trans (predicateTest_zero governing)⟩
  · intro i governed
    obtain ⟨k, hk, rfl⟩ := List.getElem_of_mem (mem_activeLanes.mpr governed)
    refine ⟨k, ⟨hk, ?_⟩, ?_⟩
    · rw [(round k (Nat.le_of_lt hk)).active hk]
      exact decide_eq_true rfl
    · -- a lane is at one place only
      rintro m ⟨hm, active⟩
      rw [(round m (Nat.le_of_lt hm)).active hm, decide_eq_true_eq, List.Nodup.getElem_inj_iff distinct] at active
      exact active.symm

/-- The loop over halfwords 1, 2, 4 and 7 of eight. The governing predicate has a bit that is not the lowest of its lane, and
    the last lane of the vector is active. -/
theorem pnext_visits_halfwords :
    let regs : Registers := (Registers.zero (VectorLength.ofBits? 128)).setP 1 0x4116
    let sim : Simulator := ⟨⟨128, 1, 0, false⟩, ⟨regs, .empty⟩, 0, false, none⟩
    let next : Instruction := ⟨some .pnext, .al, [.ofP ⟨0, some .h, none⟩, .ofP ⟨1, none, none⟩, .ofP ⟨0, some .h, none⟩]⟩
    let report (k : Nat) := ((fun s : Simulator => (s.execute next).sim)^[k] sim).execute next
    let lanes := activeLanes 2 (regs.pBits 1) 8
    lanes = [1, 2, 4, 7] ∧ (∀ k ≤ lanes.length, (report k).failure = none) ∧
      (∀ k < lanes.length, (report k).sim.core.regs.flags =
        { n := decide (k = 0), z := false, c := decide (k + 1 ≠ lanes.length), v := false }) ∧
      (report lanes.length).sim.core.regs.pBits 0 = 0 ∧
      ∃! k, k < lanes.length ∧ activeLane 2 ((report k).sim.core.regs.pBits 0) 7 = true := by
  intro regs sim next report lanes
  have encoded : Instruction.encode ⟨some .pnext, .al,
      [.ofP ⟨0, some .h, none⟩, .ofP ⟨1, none, none⟩, .ofP ⟨0, some .h, none⟩]⟩ = .ok 0x2559c420 := rfl
  have active : lanes = [1, 2, 4, 7] := by decide
  have none : ∀ i < 8, activeLane 2 (regs.pBits 0) i = false := fun _ _ => BitVec.getLsbD_zero
  have governed : Governed 2 8 (regs.pBits 1) 7 := ⟨by decide, by decide⟩
  obtain ⟨-, succeeds, round, ⟨last, -⟩, once⟩ :=
    pnext_visits sim next _ .h ⟨⟨_, encoded⟩, rfl, rfl, rfl⟩ (by decide) none
  exact ⟨active, succeeds, fun k hk => (round k hk).2, last, once 7 governed⟩

end Simulator

end ArmToolkit.A64
