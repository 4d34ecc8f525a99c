import ArmToolkit.A64.Statement
import ArmToolkit.Proofs.ElementArithmetic
import ArmToolkit.Proofs.Emitted
import ArmToolkit.Proofs.Faults

/-!
# `Proofs.TestedPredicates` — predicates that are written with the flags

## Contents
- **Lanes.** The bits of a predicate made of lanes (`getLsbD_predicateOf`), and the first and the last of some lanes in
  rising order.
- **Flags.** `Describes` says what the flags tell of a result seen through a governing predicate, in terms of single
  lanes; `predicateTest` does (`describes_predicateTest`).
- **Relations.** A relation of elements as a relation of integers, and immediates that are the same at every lane size.
- **Instructions.** Every form that tests a predicate leaves flags that describe its result, and a compare sets the lowest
  bit of the lanes that are active and in the relation (`Simulator.execute_predicate_tests`). `Core.Tests` says what is left
  in all the register file.
-/

namespace ArmToolkit.A64

/-- **Lane `i` is governed**: it is one of `count` lanes, and active in the governing predicate. -/
def Governed (k count : Nat) (governing : PBits) (i : Nat) : Prop := i < count ∧ activeLane k governing i = true

/-- **What the flags tell of a result** seen through a governing predicate. N: the first governed lane is set. Z: no governed
    lane is set. C: the last governed lane is not set, or there is none. V is clear. -/
structure Describes (flags : Flags) (k count : Nat) (governing result : PBits) : Prop where
  first : flags.n = true ↔
    ∃ i, Governed k count governing i ∧ (∀ j, Governed k count governing j → i ≤ j) ∧ activeLane k result i = true
  none : flags.z = true ↔ ∀ i, Governed k count governing i → activeLane k result i = false
  notLast : flags.c = true ↔ (∀ i, ¬ Governed k count governing i) ∨
    ∃ i, Governed k count governing i ∧ (∀ j, Governed k count governing j → j ≤ i) ∧ activeLane k result i = false
  clear : flags.v = false

/-! ## Lanes -/

/-- The first of some numbers in rising order is the least. -/
theorem head?_eq_some_iff {lanes : List Nat} (rising : lanes.Pairwise (· < ·)) {i : Nat} :
    lanes.head? = some i ↔ i ∈ lanes ∧ ∀ j ∈ lanes, i ≤ j := by
  cases lanes with
  | nil => simp
  | cons first rest =>
    obtain ⟨above, -⟩ := List.pairwise_cons.mp rising
    rw [List.head?_cons, Option.some.injEq]
    constructor
    · rintro rfl
      refine ⟨List.mem_cons_self, ?_⟩
      intro j hj
      rcases List.mem_cons.mp hj with rfl | hj
      · exact Nat.le_refl _
      · exact Nat.le_of_lt (above j hj)
    · rintro ⟨hi, least⟩
      rcases List.mem_cons.mp hi with rfl | hi
      · rfl
      · have low := least first List.mem_cons_self
        have high := above i hi
        omega

/-- The last of them is the greatest. -/
theorem getLast?_eq_some_iff {lanes : List Nat} (rising : lanes.Pairwise (· < ·)) {i : Nat} :
    lanes.getLast? = some i ↔ i ∈ lanes ∧ ∀ j ∈ lanes, j ≤ i := by
  -- along the lanes, with the list of one lane and that of more apart: only there the last one is found
  induction lanes with
  | nil => simp
  | cons first rest ih =>
    obtain ⟨above, rising⟩ := List.pairwise_cons.mp rising
    cases rest with
    | nil =>
      rw [List.getLast?_singleton, Option.some.injEq]
      constructor
      · rintro rfl
        simp
      · rintro ⟨hi, -⟩
        exact (List.mem_singleton.mp hi).symm
    | cons second rest =>
      rw [List.getLast?_cons_cons, ih rising]
      constructor
      · rintro ⟨hi, greatest⟩
        refine ⟨List.mem_cons_of_mem _ hi, ?_⟩
        intro j hj
        rcases List.mem_cons.mp hj with rfl | hj
        · exact Nat.le_of_lt (above i hi)
        · exact greatest j hj
      · rintro ⟨hi, greatest⟩
        rcases List.mem_cons.mp hi with rfl | hi
        · -- the second lane is above the first
          have low := greatest second (by simp)
          have high := above second (by simp)
          omega
        · exact ⟨hi, fun j hj => greatest j (List.mem_cons_of_mem _ hj)⟩

/-- What a function gives for a place, if there is one. -/
theorem getD_map_eq_true {place : Option Nat} {f : Nat → Bool} :
    (place.map f).getD false = true ↔ ∃ i, place = some i ∧ f i = true := by
  cases place <;> simp

/-- The active lanes are the governed ones. -/
theorem mem_activeLanes {k count : Nat} {governing : PBits} {i : Nat} :
    i ∈ activeLanes k governing count ↔ Governed k count governing i := by
  simp [activeLanes, Governed]

/-- The bits of a lane are clear, but for the lowest one, which tells whether the lane is active. -/
theorem getLsbD_laneFlag {k : Nat} (positive : 0 < k) (active : Bool) (m : Nat) :
    (laneFlag k active).getLsbD m = (decide (m = 0) && active) := by
  rw [laneFlag, BitVec.getLsbD_ofNat]
  by_cases lowest : m = 0
  · subst lowest
    cases active <;> simp [positive]
  · have unset : Nat.testBit 1 m = false := by
      rw [← Bool.not_eq_true, Nat.testBit_one_eq_true_iff_self_eq_zero]
      exact lowest
    cases active <;> simp [lowest, unset]

/-- **The bits of a predicate with one lane set**: those of the lane are clear, but for the lowest one, which tells whether it
    is active, and all others are kept. -/
theorem getLsbD_setActive {k i : Nat} (positive : 0 < k) (inside : i * k < 256) (v : PBits) (active : Bool) (j : Nat) :
    (setActive k v i active).getLsbD j = if j / k = i then decide (j % k = 0) && active else v.getLsbD j := by
  have place : j / k = i ↔ i * k ≤ j ∧ j < i * k + k := by
    rw [Nat.div_eq_iff positive]
    omega
  rw [setActive, getLsbD_setLane, getLsbD_laneFlag positive]
  by_cases here : j / k = i
  · have whole := Nat.div_add_mod' j k
    rw [here] at whole
    rw [if_pos (place.mp here), if_pos here, show j - i * k = j % k by omega]
    by_cases lowest : j % k = 0
    · rw [decide_eq_true (show j < 256 by omega), Bool.true_and]
    · simp [lowest]
  · rw [if_neg (mt place.mpr here), if_neg here]

/-- **An active lane is added** to what is set outside of it. -/
theorem getLsbD_setActive_true {k i : Nat} (positive : 0 < k) (inside : i * k < 256) (v : PBits) (j : Nat) :
    (setActive k v i true).getLsbD j = true ↔ j = i * k ∨ (j / k ≠ i ∧ v.getLsbD j = true) := by
  rw [getLsbD_setActive positive inside]
  by_cases here : j / k = i
  · have whole := Nat.div_add_mod' j k
    rw [here] at whole
    rw [if_pos here, Bool.and_true, decide_eq_true_eq]
    constructor
    · intro lowest
      exact .inl (by omega)
    · rintro (rfl | ⟨outside, -⟩)
      · exact Nat.mul_mod_left i k
      · exact absurd here outside
  · rw [if_neg here]
    constructor
    · intro set
      exact .inr ⟨here, set⟩
    · rintro (rfl | ⟨-, set⟩)
      · exact absurd (Nat.mul_div_cancel i positive) here
      · exact set

/-- **A predicate made of lanes** has the lowest bits of the lanes that are set, and no others. -/
theorem getLsbD_predicateOf {k count : Nat} (positive : 0 < k) (fits : count * k ≤ 256) (f : Nat → Bool) (j : Nat) :
    (predicateOf k count f).getLsbD j = true ↔ ∃ i < count, j = i * k ∧ f i = true := by
  rw [predicateOf, ofLanes, BitVec.getLsbD_ofNat, packLanes_testBit, getLsbD_laneFlag positive]
  simp only [Bool.and_eq_true, decide_eq_true_eq]
  constructor
  · rintro ⟨-, inside, lowest, set⟩
    have below : j / k < count := Nat.div_lt_of_lt_mul (by rwa [Nat.mul_comm])
    have whole : j / k * k = j := Nat.div_mul_cancel (Nat.dvd_of_mod_eq_zero lowest)
    exact ⟨j / k, below, whole.symm, set⟩
  · rintro ⟨i, hi, rfl, set⟩
    have inside : i * k < count * k := Nat.mul_lt_mul_of_pos_right hi positive
    refine ⟨by omega, inside, Nat.mul_mod_left i k, ?_⟩
    rwa [Nat.mul_div_cancel i positive]

/-! ## Flags -/

/-- **The flags of a test describe the result.** -/
theorem describes_predicateTest (k count : Nat) (governing result : PBits) :
    Describes (predicateTest k governing result count) k count governing result := by
  have rising := Semantics.activeLanes_rising k governing count
  constructor
  · show ((activeLanes k governing count).map fun i => activeLane k result i).head?.getD false = true ↔ _
    rw [List.head?_map, getD_map_eq_true]
    simp only [head?_eq_some_iff rising, mem_activeLanes, and_assoc]
  · show (!((activeLanes k governing count).map fun i => activeLane k result i).any id) = true ↔ _
    simp [mem_activeLanes]
  · show (!((activeLanes k governing count).map fun i => activeLane k result i).getLast?.getD false) = true ↔ _
    rw [List.getLast?_map, Bool.not_eq_true', ← Bool.not_eq_true, getD_map_eq_true]
    cases last : (activeLanes k governing count).getLast? with
    | none =>
      have empty : ∀ i, ¬ Governed k count governing i := by
        intro i governed
        have inside := mem_activeLanes.mpr governed
        rw [List.getLast?_eq_none_iff.mp last] at inside
        cases inside
      simp [empty]
    | some i =>
      obtain ⟨governed, greatest⟩ := (getLast?_eq_some_iff rising).mp last
      simp only [mem_activeLanes] at governed greatest
      constructor
      · intro unset
        refine .inr ⟨i, governed, greatest, ?_⟩
        simpa using unset
      · rintro (empty | ⟨j, governed', greatest', unset⟩)
        · exact absurd governed (empty i)
        · -- there is one last lane only
          obtain rfl : i = j := Nat.le_antisymm (greatest' i governed) (greatest j governed')
          simpa using unset
  · rfl

/-! ## Relations -/

namespace Relation

/-- The number that a relation takes an element for. -/
def reading {n : Nat} (rel : Relation) (a : BitVec n) : Int :=
  match rel with
  | hi | hs | lo | ls => a.toNat
  | eq | ne | gt | ge | lt | le => a.toInt

/-- **A relation of integers.** -/
def Orders (rel : Relation) (x y : Int) : Prop :=
  match rel with
  | eq => x = y
  | ne => x ≠ y
  | gt | hi => y < x
  | ge | hs => y ≤ x
  | lt | lo => x < y
  | le | ls => x ≤ y

/-- **Elements are in a relation** if the numbers are that they are taken for. -/
theorem holds_iff {n : Nat} (rel : Relation) (a b : BitVec n) :
    rel.holds a b = true ↔ rel.Orders (rel.reading a) (rel.reading b) := by
  cases rel with
  | eq =>
    show (a == b) = true ↔ a.toInt = b.toInt
    rw [beq_iff_eq, BitVec.toInt_inj]
  | ne =>
    show (a != b) = true ↔ a.toInt ≠ b.toInt
    rw [bne_iff_ne, ne_eq, ne_eq, BitVec.toInt_inj]
  | gt | ge | lt | le => exact decide_eq_true_iff
  | hi | hs | lo | ls => exact decide_eq_true_iff.trans (by simp [Orders, reading])

end Relation

namespace Form

open Semantics (regAt)

/-- The relation of a compare. -/
def relation? : Form → Option Relation
  | compare rel => some rel.rel
  | compareUnsigned rel => some rel.rel
  | compareSigned rel => some rel.rel
  | _ => none

/-- The number that a compare compares lane `i` with: an element, or the immediate as it stands. -/
def comparand (f : Form) (rel : Relation) (l : LaneSize) (ops : List Operand) (r : Registers) (i : Nat) : Int :=
  match f with
  | compare _ => rel.reading (r.zLane (regAt ops 3) l.bits i)
  | _ => (arg ops 3).imm.toInt

/-- Whether a form sets the flags by a predicate. -/
def testsPredicate : Form → Bool
  | compare _ | compareUnsigned _ | compareSigned _ | predicateLogic .ands | ptest | pfirst | pnext | ptrue true => true
  | _ => false

/-- The predicate that governs the flags of a form: the one before the instruction, unless the instruction sets the lanes
    of a pattern. -/
def governing (f : Form) (ops : List Operand) (before after : Registers) : PBits :=
  match f with
  | ptrue _ => after.pBits (regAt ops 0)
  | ptest => before.pBits (regAt ops 0)
  | _ => before.pBits (regAt ops 1)

/-- The predicate that the flags are about. -/
def tested (f : Form) (ops : List Operand) (after : Registers) : PBits :=
  match f with
  | ptest => after.pBits (regAt ops 1)
  | _ => after.pBits (regAt ops 0)

variable {f : Form} {rel : Relation}

/-- A form with the mnemonic of a relation compares by the relation. -/
theorem relation?_of_mnemonic (named : f.mnemonic = rel.mnemonic) : f.relation? = some rel := by
  have table : ∀ f ∈ all, ∀ rel ∈ Relation.all, f.mnemonic = rel.mnemonic → f.relation? = some rel := by decide +kernel
  have listed : rel ∈ Relation.all := by cases rel <;> simp [Relation.all]
  exact table f (mem_all f) rel listed named

/-- Every compare tests its result. -/
theorem testsPredicate_of_relation? (related : f.relation? = some rel) : f.testsPredicate = true := by
  cases f with
  | compare | compareUnsigned | compareSigned => rfl
  | _ => cases related

/-- A form that tests a predicate needs a vector length. -/
theorem needsLength_of_testsPredicate (tests : f.testsPredicate = true) : f.NeedsLength := by
  apply needsLength_of_isVector
  cases f with
  | compare | compareUnsigned | compareSigned | predicateLogic | ptest | pfirst | pnext | ptrue => rfl
  | _ => cases tests

end Form

/-- The lane sizes of integer vectors are widths of elements. -/
theorem LaneSize.element_bounds {l : LaneSize} (hl : l ∈ Form.bhsd) : 0 < l.bits ∧ l.bits ≤ 64 ∧ 8 ≤ l.bits := by
  have table : ∀ l ∈ Form.bhsd, 0 < l.bits ∧ l.bits ≤ 64 ∧ 8 ≤ l.bits := by decide
  exact table l hl

/-! ## Instructions -/

namespace Instruction.Encodes

open Semantics (laneAt regAt)

variable {f : Form} {cond : Condition} {ops : List Operand}

/-- A form that tests a predicate has a lane size. -/
theorem tested_lane (h : Encodes f cond ops) (tests : f.testsPredicate = true) :
    ∃ l ∈ f.lanes, f.lane ops = some l ∧ laneAt ops f.laneOperand = l := by
  have table : ∀ f ∈ Form.all, f.testsPredicate = true →
      f.sizing ≠ .widthBit ∧ .laneAllowed f.laneOperand ∈ f.checks := by decide +kernel
  obtain ⟨sized, checked⟩ := table f (Form.mem_all f) tests
  obtain ⟨l, hl, lane⟩ := h.lane_known rfl sized checked
  refine ⟨l, hl, lane, ?_⟩
  rw [lane_eq rfl sized] at lane
  rw [laneAt, lane, Option.getD_some]

/-- **The immediate of a compare is in the range of every lane size**, so it is compared as it stands. -/
theorem reading_immediate (h : Encodes f cond ops) {rel : Relation} (related : f.relation? = some rel)
    (immediate : ∀ rel, f ≠ .compare rel) {l : LaneSize} (hl : l ∈ f.lanes) :
    rel.reading ((arg ops 3).imm.setWidth l.bits) = (arg ops 3).imm.toInt := by
  -- an immediate of seven bits, or of five with a sign, is not changed by the cut to a byte or more
  cases f with
  | compareUnsigned rel' =>
    obtain ⟨-, narrow, wide⟩ := LaneSize.element_bounds hl
    have clean := h.passes (c := .value 3) (by simp [Form.checks]) (.unsigned ⟨14, 7⟩) rfl
    simp only [Slot.fault?, orElse_eq_none, rangeFault?_eq_none] at clean
    obtain ⟨⟨low, high⟩, -⟩ := clean
    have value : (((arg ops 3).imm.setWidth l.bits).toNat : Int) = (arg ops 3).imm.toInt := by
      have range : (arg ops 3).imm.toInt < twoPow l.bits := by
        have := twoPow_le wide
        have eight : twoPow 8 = 256 := rfl
        have seven : (twoPow 7 : Int) = 128 := rfl
        show (arg ops 3).value < _
        omega
      rw [BitVec.toNat_setWidth]
      exact (congrArg Nat.cast (Slot.toNat_mod_of_range low range)).trans (Slot.toNat_eq_toInt low)
    cases related
    cases rel' <;> exact value
  | compareSigned rel' =>
    obtain ⟨positive, narrow, wide⟩ := LaneSize.element_bounds hl
    have clean := h.passes (c := .value 3) (by simp [Form.checks]) (.signed Slot.rm) rfl
    simp only [Slot.fault?, Slot.signedFault?, orElse_eq_none, rangeFault?_eq_none] at clean
    obtain ⟨⟨low, high⟩, -⟩ := clean
    have value : ((arg ops 3).imm.setWidth l.bits).toInt = (arg ops 3).imm.toInt := by
      have half := twoPow_le (show 7 ≤ l.bits - 1 by omega)
      have seven : twoPow 7 = 128 := rfl
      have four : (twoPow (Slot.rm.width - 1) : Int) = 16 := rfl
      have low : -(16 : Int) ≤ (arg ops 3).imm.toInt := four ▸ low
      have high : (arg ops 3).imm.toInt ≤ (16 : Int) - 1 := four ▸ high
      rw [setWidth_eq_ofInt narrow, toInt_ofInt_of_range positive (by omega) (by omega)]
    cases related
    cases rel' <;> exact value
  | compare rel' => exact absurd rfl (immediate rel')
  | _ => cases related

end Instruction.Encodes

namespace Semantics

variable {vl : VectorLength} {r : Registers} {l : LaneSize} {pd : Nat}

theorem pBits_setTested (hpd : pd < 16) (governing result : PBits) :
    (setTested vl r l pd governing result).pBits pd = result := by
  show (r.setP pd result).pBits pd = result
  rw [Registers.pBits_setP, if_pos ⟨rfl, hpd⟩]

/-- **Flags by a predicate read before the result is written.** It may have been in the same register. -/
theorem flags_setTested (hpd : pd < 16) (governing result : PBits) :
    (setTested vl r l pd governing result).flags =
      predicateTest l.bytes governing ((setTested vl r l pd governing result).pBits pd) (vl.lanes l) := by
  rw [pBits_setTested hpd]
  rfl

/-- Flags by the result itself. -/
theorem flags_setTested_self (hpd : pd < 16) (result : PBits) :
    let after := setTested vl r l pd result result
    after.flags = predicateTest l.bytes (after.pBits pd) (after.pBits pd) (vl.lanes l) := by
  intro after
  rw [pBits_setTested hpd]
  rfl

variable {f : Form} {cond : Condition} {ops : List Operand} {core : Core}

/-- **The flags of a form that tests a predicate** are those of its result, seen through the predicate that governs it. -/
theorem execute_tested (h : Instruction.Encodes f cond ops) (tests : f.testsPredicate = true) (hl : l ∈ f.lanes)
    (lane : laneAt ops f.laneOperand = l) (configured : core.regs.vl = some vl) :
    ∃ regs, execute f cond ops core = registersOnly core regs ∧
      regs.flags = predicateTest l.bytes (f.governing ops core.regs regs) (f.tested ops regs) (vl.lanes l) := by
  have executed := (Form.needsLength_of_testsPredicate tests).execute cond ops configured
  cases f with
  | compare | compareUnsigned | compareSigned | pfirst | pnext =>
    subst lane
    have hpd : regAt ops 0 < 16 := (h.keepsRegister (i := 0) rfl _ rfl).1
    exact ⟨_, executed, flags_setTested hpd _ _⟩
  | ptrue sets =>
    subst lane
    obtain rfl : sets = true := by cases sets <;> first | rfl | cases tests
    have hpd : regAt ops 0 < 16 := (h.keepsRegister (i := 0) rfl _ rfl).1
    exact ⟨_, executed, flags_setTested_self hpd _⟩
  | predicateLogic op =>
    obtain rfl : op = .ands := by cases op <;> first | rfl | cases tests
    -- the lanes are bytes
    obtain rfl := List.mem_singleton.mp hl
    have hpd : regAt ops 0 < 16 := (h.keepsRegister (i := 0) rfl _ rfl).1
    exact ⟨_, executed, flags_setTested hpd _ _⟩
  | ptest =>
    obtain rfl := List.mem_singleton.mp hl
    refine ⟨_, executed, ?_⟩
    rw [vl.lanes_b]
    rfl
  | _ => cases tests

/-- **A compare sets the lowest bit of the active lanes in the relation.** -/
theorem execute_compare (h : Instruction.Encodes f cond ops) {rel : Relation} (related : f.relation? = some rel)
    (hl : l ∈ f.lanes) (lane : laneAt ops f.laneOperand = l) (configured : core.regs.vl = some vl) :
    ∃ regs, execute f cond ops core = registersOnly core regs ∧ ∀ j,
      (regs.pBits (regAt ops 0)).getLsbD j = true ↔ ∃ i, Governed l.bytes (vl.lanes l) (core.regs.pBits (regAt ops 1)) i ∧
        rel.Orders (rel.reading (core.regs.zLane (regAt ops 2) l.bits i)) (f.comparand rel l ops core.regs i) ∧
        j = i * l.bytes := by
  have tests := Form.testsPredicate_of_relation? related
  have executed := (Form.needsLength_of_testsPredicate tests).execute cond ops configured
  -- vectors and immediates are compared alike: `b` is what lanes are compared with
  obtain ⟨hpd, b, writes, reads⟩ : regAt ops 0 < 16 ∧ ∃ b : Nat → BitVec l.bits,
      executeVector f vl ops core = registersOnly core (compareLanes vl ops core.regs rel l b) ∧
        ∀ i, rel.reading (b i) = f.comparand rel l ops core.regs i := by
    cases f with
    | compare =>
      subst lane
      cases related
      have hpd : regAt ops 0 < 16 := (h.keepsRegister (i := 0) rfl _ rfl).1
      exact ⟨hpd, _, rfl, fun _ => rfl⟩
    | compareUnsigned | compareSigned =>
      subst lane
      have reading := h.reading_immediate related (fun _ => Form.noConfusion) hl
      cases related
      have hpd : regAt ops 0 < 16 := (h.keepsRegister (i := 0) rfl _ rfl).1
      exact ⟨hpd, _, rfl, fun _ => reading⟩
    | _ => cases related
  refine ⟨_, executed.trans writes, ?_⟩
  intro j
  rw [compareLanes, pBits_setTested hpd, getLsbD_predicateOf l.bytes_pos (vl.lanes_mul_bytes_le l)]
  simp only [Bool.and_eq_true, Relation.holds_iff, reads, Governed]
  constructor
  · rintro ⟨i, hi, place, active, ordered⟩
    exact ⟨i, ⟨hi, active⟩, ordered, place⟩
  · rintro ⟨i, ⟨hi, active⟩, ordered, place⟩
    exact ⟨i, hi, place, active, ordered⟩

end Semantics

namespace Core

/-- **What is left where a predicate is written with the flags**: the result, flags that describe it, and the other
    predicates as they were. -/
structure Tests (vl : VectorLength) (l : LaneSize) (core after : Core) (pd : Nat) (governing result : PBits) : Prop where
  written : after.regs.pBits pd = result
  flags : Describes after.regs.flags l.bytes (vl.lanes l) governing result
  kept : ∀ p, p ≠ pd → after.regs.pBits p = core.regs.pBits p

/-- A predicate written with the flags in all the register file. -/
theorem tests_setTested {vl : VectorLength} {l : LaneSize} {core : Core} {pd : Nat} (hpd : pd < 16) (governing result : PBits)
    (pc : BitVec 64) :
    Tests vl l core { core with regs := { Semantics.setTested vl core.regs l pd governing result with pc } } pd governing
      result where
  written := by
    show (core.regs.setP pd result).pBits pd = result
    rw [Registers.pBits_setP, if_pos ⟨rfl, hpd⟩]
  flags := describes_predicateTest l.bytes (vl.lanes l) governing result
  kept p other := by
    show (core.regs.setP pd result).pBits p = _
    rw [Registers.pBits_setP, if_neg fun written => other written.1.symm]

end Core

namespace Simulator

open Semantics (regAt)

/-- **Predicates written with the flags.** After an instruction that tests a predicate the flags describe its result, seen
    through the governing predicate as it was before the instruction (for a pattern, through the result). A compare sets the
    lowest bit of the lanes that were active in the governing predicate and in the relation, and clears all other bits. The
    result may be written over the governing predicate. -/
theorem execute_predicate_tests (sim : Simulator) :
    ∀ inst w f vl, Instruction.encode inst = .ok w → inst.form = some f → sim.core.regs.vl = some vl →
      f.testsPredicate = true →
      let before := sim.core.regs
      let after := (sim.execute inst).sim.core.regs
      (sim.execute inst).failure = none ∧ ∃ l : LaneSize, f.lane inst.ops = some l ∧
        (f = .ptest ∨ f = .predicateLogic .ands ∨ f = .pfirst → l = .b) ∧
        Describes after.flags l.bytes (vl.lanes l) (f.governing inst.ops before after) (f.tested inst.ops after) ∧
        ∀ rel : Relation, f.mnemonic = rel.mnemonic → ∀ j,
          (after.pBits (regAt inst.ops 0)).getLsbD j = true ↔
            ∃ i, Governed l.bytes (vl.lanes l) (before.pBits (regAt inst.ops 1)) i ∧
              rel.Orders (rel.reading (before.zLane (regAt inst.ops 2) l.bits i)) (f.comparand rel l inst.ops before i) ∧
              j = i * l.bytes := by
  intro inst w f vl encoded formed configured tests before after
  obtain ⟨_, formed', passes, -⟩ := Instruction.encode_eq_ok_iff.mp encoded
  cases formed.symm.trans formed'
  obtain ⟨l, hl, lane, operand⟩ := passes.tested_lane tests
  obtain ⟨regs, executed, flags⟩ := Semantics.execute_tested passes tests hl operand configured
  obtain ⟨succeeds, left⟩ := execute_registers formed executed
  refine ⟨succeeds, l, lane, ?_, ?_, ?_⟩
  · rintro (rfl | rfl | rfl) <;> exact List.mem_singleton.mp hl
  · have described :=
      describes_predicateTest l.bytes (vl.lanes l) (f.governing inst.ops before regs) (f.tested inst.ops regs)
    rw [← flags] at described
    show Describes (sim.execute inst).sim.core.regs.flags _ _ (f.governing _ _ (sim.execute inst).sim.core.regs)
      (f.tested _ (sim.execute inst).sim.core.regs)
    rw [left]
    exact described
  -- the bits of a compare are known apart from its flags
  · intro rel named
    have related := Form.relation?_of_mnemonic named
    obtain ⟨regs, executed, bits⟩ := Semantics.execute_compare passes related hl operand configured
    show ∀ j, ((sim.execute inst).sim.core.regs.pBits _).getLsbD j = true ↔ _
    rw [(execute_registers formed executed).2]
    exact bits

/-- Halfwords compared with -3 where the result is written over the governing predicate, which has a bit that is not the
    lowest of its lane. The first governed halfword is -3, and no other is. -/
theorem execute_predicate_tests_overwritten :
    let regs : Registers := ((Registers.zero (VectorLength.ofBits? 128)).setP 1 0x0107).setZ 2 0xfffd
    let sim : Simulator := ⟨⟨128, 1, 0, false⟩, ⟨regs, .empty⟩, 0, false, none⟩
    let inst : Instruction := ⟨some (.compareSigned .gt), .al,
      [.ofP ⟨1, some .h, none⟩, .ofP ⟨1, none, some .zeroing⟩, .ofZ ⟨2, some .h⟩, .ofImm (-3)]⟩
    let after := (sim.execute inst).sim.core.regs
    (sim.execute inst).failure = none ∧ Describes after.flags 2 8 0x0107 (after.pBits 1) ∧
      ∀ j, (after.pBits 1).getLsbD j = true ↔
        ∃ i, Governed 2 8 0x0107 i ∧ -3 < (regs.zLane 2 16 i).toInt ∧ j = i * 2 := by
  intro regs sim inst after
  have encoded : Instruction.encode ⟨some (.compareSigned .gt), .al,
      [.ofP ⟨1, some .h, none⟩, .ofP ⟨1, none, some .zeroing⟩, .ofZ ⟨2, some .h⟩, .ofImm (-3)]⟩ = .ok 0x255d0451 := rfl
  obtain ⟨succeeds, l, lane, -, described, bits⟩ := execute_predicate_tests sim inst _ _ _ encoded rfl rfl rfl
  obtain rfl : LaneSize.h = l := Option.some.inj lane
  exact ⟨succeeds, described, bits .gt rfl⟩

end Simulator

end ArmToolkit.A64
