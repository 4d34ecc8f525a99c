import ArmToolkit.Proofs.Lanes
import ArmToolkit.Proofs.Reachable

/-!
# `Proofs.Faults` — what an instruction that fails leaves behind

## Contents
- **Whole transfers.** An instruction that faults has written no memory unless it stores active elements
  (`Semantics.mem_of_fault`). No instruction that faults has written a register (`Semantics.regs_of_fault`).
- **Stores of elements.** They fault at the first active lane that is not mapped, and have stored the active lanes below it
  (`Semantics.storeLanes_cases`), byte for byte (`Semantics.read?_storeLanes`).
- **Vector instructions.** Without a vector length they fail and change nothing.
- **Simulators.** `Simulator.failure_leaves` puts this together for instructions and for steps.
-/

namespace ArmToolkit.A64

open Text (Byte)

/-! ## Whole transfers -/

namespace Semantics

variable {f : Form} {core after : Core}

/-- Bytes that are mapped are stored, and others fault. -/
theorem storing_cases (core : Core) (address : BitVec 64) (bytes : List Byte) :
    (∃ mem, core.mem.isMapped address bytes.length = true ∧ core.mem.write? address bytes = some mem ∧
      storing core address bytes = .done { core with mem }) ∨
      (core.mem.isMapped address bytes.length = false ∧
        storing core address bytes = .fault ⟨.store, bytes.length, address⟩ core) := by
  unfold storing Memory.write?
  cases core.mem.isMapped address bytes.length with
  | true => exact .inl ⟨_, rfl, rfl, rfl⟩
  | false => exact .inr ⟨rfl, rfl⟩

/-- **An instruction that faults leaves memory as it was**, unless it stores active elements. -/
theorem mem_of_fault (whole : ∀ e, f ≠ .st1 e) {cond : Condition} {ops : List Operand} {why : Fault}
    (faults : execute f cond ops core = .fault why after) : after.mem = core.mem := by
  have effect := effect_execute f cond ops core
  generalize execute f cond ops core = o at effect faults
  cases effect with
  | keeps => cases faults
  | refuses =>
    cases faults
    rfl
  | stores =>
    obtain ⟨access, faults⟩ := TransferResult.outcome_fault faults
    rw [storing_fault faults]
  | storesLanes elements => exact absurd elements (whole _)

/-! ## Stores of elements -/

/-- **What is left of a core when lane `i` cannot be stored**: it is the first active lane that is not mapped, and the
    memory is as after storing the active lanes below it. -/
structure StoredBelow (l : LaneSize) (v : ZBits) (base : BitVec 64) (lanes : List Nat) (core : Core) (i : Nat)
    (mem : Memory) : Prop where
  active : i ∈ lanes
  unmapped : core.mem.isMapped (laneAddress base l i) l.bytes = false
  mapped : ∀ j ∈ lanes, j < i → core.mem.isMapped (laneAddress base l j) l.bytes = true
  stored : storeLanes l v base core (lanes.filter (· < i)) = .done { core with mem }

variable {l : LaneSize} {v : ZBits} {base : BitVec 64}

theorem storeLanes_cons {i : Nat} {lanes : List Nat} {next : Core}
    (stored : storing core (laneAddress base l i) (bytesOf l.bytes (lane l.bits v i)) = .done next) :
    storeLanes l v base core (i :: lanes) = storeLanes l v base next lanes := by
  rw [storeLanes, stored]

/-- **Lanes in rising order** are all stored, or those below the first that cannot be. -/
theorem storeLanes_cases (core : Core) {lanes : List Nat} (rising : lanes.Pairwise (· < ·)) :
    (∃ mem, storeLanes l v base core lanes = .done { core with mem }) ∨
      ∃ i left, storeLanes l v base core lanes = .fault ⟨.store, l.bytes, laneAddress base l i⟩ left ∧
        StoredBelow l v base lanes core i left.mem := by
  -- by the lanes that are left; a lane that is stored does not change what is mapped
  induction lanes generalizing core with
  | nil => exact .inl ⟨core.mem, rfl⟩
  | cons j lanes ih =>
    obtain ⟨above, rising⟩ := List.pairwise_cons.mp rising
    have size : (bytesOf l.bytes (lane l.bits v j)).length = l.bytes := length_bytesOf ..
    rcases storing_cases core (laneAddress base l j) (bytesOf l.bytes (lane l.bits v j)) with
      ⟨mem, mapped, written, stored⟩ | ⟨unmapped, faulted⟩
    · rw [size] at mapped
      have same := Memory.isMapped_of_layout (Memory.layout_write? written)
      rw [storeLanes_cons stored]
      rcases ih { core with mem } rising with done | ⟨i, after, faulted, below⟩
      · exact .inl done
      · refine .inr ⟨i, after, faulted, List.mem_cons_of_mem j below.active, ?_, ?_, ?_⟩
        · rw [← same]
          exact below.unmapped
        · intro k hk lower
          rcases List.mem_cons.mp hk with rfl | hk
          · exact mapped
          · rw [← same]
            exact below.mapped k hk lower
        · rw [List.filter_cons, if_pos (decide_eq_true (above i below.active)), storeLanes_cons stored]
          exact below.stored
    · -- nothing is below the lowest lane
      have least : (j :: lanes).filter (· < j) = [] := by
        rw [List.filter_cons_of_neg (by simp), List.filter_eq_nil_iff]
        intro k hk
        have := above k hk
        rw [decide_eq_true_eq]
        omega
      rw [size] at unmapped faulted
      refine .inr ⟨j, core, ?_, List.mem_cons_self, unmapped, ?_, ?_⟩
      · rw [storeLanes, faulted]
      · intro k hk lower
        have here : k ∈ (j :: lanes).filter (· < j) := List.mem_filter.mpr ⟨hk, decide_eq_true lower⟩
        rw [least] at here
        cases here
      · rw [least]
        rfl

/-- The lanes that are seen are in rising order. -/
theorem activeLanes_rising (k : Nat) (pg : PBits) (count : Nat) : (activeLanes k pg count).Pairwise (· < ·) :=
  List.pairwise_lt_range.filter _

/-- The bytes of a lane are bytes of the vector. -/
theorem lane_lane (l : LaneSize) (v : ZBits) (j : Nat) {k : Nat} (hk : k < l.bytes) :
    lane 8 (lane l.bits v j) k = lane 8 v (j * l.bytes + k) := by
  apply BitVec.eq_of_getLsbD_eq
  intro b hb
  rw [getLsbD_lane, getLsbD_lane, getLsbD_lane, decide_eq_true hb, Bool.true_and, Bool.true_and, l.bits_eq,
    decide_eq_true (show k * 8 + b < l.bytes * 8 by omega), Bool.true_and]
  congr 1
  rw [Nat.add_mul, Nat.mul_assoc]
  omega

/-- The bytes that a lane is split into come in the order of the vector. -/
theorem getD_bytesOf_lane (l : LaneSize) (v : ZBits) (j : Nat) {k : Nat} (hk : k < l.bytes) :
    (bytesOf l.bytes (lane l.bits v j)).getD k 0 = lane 8 v (j * l.bytes + k) := by
  rw [bytesOf, List.getD_eq_getElem?_getD, List.getElem?_map, List.getElem?_range hk, Option.map_some, Option.getD_some]
  exact lane_lane l v j hk

/-- An address is among those of lane `j` when its offset from the base is. -/
theorem offset_lane (base x : BitVec 64) (l : LaneSize) {j : Nat} (fits : j * l.bytes + l.bytes ≤ 2048) :
    ((x - laneAddress base l j).toNat < l.bytes ↔ (x - base).toNat / l.bytes = j) ∧
      ((x - laneAddress base l j).toNat < l.bytes →
        (x - base).toNat = j * l.bytes + (x - laneAddress base l j).toNat) := by
  unfold laneAddress
  generalize off : j * l.bytes = o at fits
  have positive := l.bytes_pos
  have small : l.bytes ≤ 16 := by cases l <;> decide
  have place : (x - base).toNat / l.bytes = j ↔ o ≤ (x - base).toNat ∧ (x - base).toNat < o + l.bytes := by
    rw [Nat.div_eq_iff positive, off]
    omega
  rw [place]
  generalize l.bytes = n at *
  constructor
  · constructor
    · intro inside
      bv_omega
    · intro inside
      bv_omega
  · intro inside
    bv_omega

/-- **The bytes of memory after some lanes have been stored**: byte `d` of the vector is `d` bytes behind the base, if its
    lane is one of them, and all other bytes are as before. -/
theorem read?_storeLanes {lanes : List Nat} (fits : ∀ j ∈ lanes, j * l.bytes + l.bytes ≤ 2048) {after : Core}
    (apart : core.mem.Apart) (done : storeLanes l v base core lanes = .done after) (x : BitVec 64) :
    after.mem.read? x 1 =
      if (x - base).toNat / l.bytes ∈ lanes then some [lane 8 v (x - base).toNat] else core.mem.read? x 1 := by
  induction lanes generalizing core with
  | nil =>
    cases done
    rw [if_neg List.not_mem_nil]
  | cons j lanes ih =>
    obtain ⟨first, fits⟩ := List.forall_mem_cons.mp fits
    rcases storing_cases core (laneAddress base l j) (bytesOf l.bytes (lane l.bits v j)) with
      ⟨mem, -, written, stored⟩ | ⟨-, faulted⟩
    · rw [storeLanes_cons stored] at done
      have apartNext : ({ core with mem } : Core).mem.Apart := apart.of_layout (Memory.layout_write? written)
      obtain ⟨inLane, offset⟩ := offset_lane base x l first
      rw [ih fits apartNext done, apart.read?_write? written, length_bytesOf]
      by_cases later : (x - base).toNat / l.bytes ∈ lanes
      · rw [if_pos later, if_pos (List.mem_cons_of_mem j later)]
      · rw [if_neg later]
        by_cases here : (x - laneAddress base l j).toNat < l.bytes
        · rw [if_pos here, if_pos (List.mem_cons.mpr (.inl (inLane.mp here))), getD_bytesOf_lane l v j here, offset here]
        · have nowhere : (x - base).toNat / l.bytes ∉ j :: lanes :=
            fun member => (List.mem_cons.mp member).elim (fun same => here (inLane.mpr same)) later
          rw [if_neg here, if_neg nowhere]
    · rw [storeLanes, faulted] at done
      cases done

/-- The lanes of a vector length lie within a vector register. -/
theorem activeLanes_fit (l : LaneSize) (vl : VectorLength) (pg : PBits) :
    ∀ j ∈ activeLanes l.bytes pg (vl.lanes l), j * l.bytes + l.bytes ≤ 2048 := by
  intro j hj
  have inside := List.mem_range.mp (List.mem_filter.mp hj).1
  have fits := vl.lane_bytes_fit inside
  have most := vl.bytes_le
  omega

/-- **What a store of elements at a vector length leaves of memory** when it faults: it has stored the active lanes below
    the first that is not mapped, and no byte but theirs has changed. -/
def StoredPart (l : LaneSize) (vl : VectorLength) (ops : List Operand) (core : Core) (mem : Memory) : Prop :=
  let v := core.regs.zBits (regAt ops 0)
  let base := address (arg ops 2) vl.bytes core.regs
  let lanes := activeLanes l.bytes (core.regs.pBits (regAt ops 1)) (vl.lanes l)
  ∃ i, StoredBelow l v base lanes core i mem ∧ mem.layout = core.mem.layout ∧
    (core.mem.Apart → ∀ x, mem.read? x 1 =
      if (x - base).toNat / l.bytes ∈ lanes ∧ (x - base).toNat / l.bytes < i then some [lane 8 v (x - base).toNat]
      else core.mem.read? x 1)

theorem storedPart_of_fault {vl : VectorLength} {ops : List Operand} {why : AccessFault}
    (faults : storeElements l vl ops core = .fault why after) : StoredPart l vl ops core after.mem := by
  have rising := activeLanes_rising l.bytes (core.regs.pBits (regAt ops 1)) (vl.lanes l)
  have fits := activeLanes_fit l vl (core.regs.pBits (regAt ops 1))
  unfold storeElements at faults
  dsimp only at faults
  have written := written_storeLanes l (core.regs.zBits (regAt ops 0)) (address (arg ops 2) vl.bytes core.regs) core
    (activeLanes l.bytes (core.regs.pBits (regAt ops 1)) (vl.lanes l))
  rcases storeLanes_cases core rising with ⟨after, done⟩ | ⟨i, after, fault, below⟩
  · rw [done] at faults
    cases faults
  · rw [faults] at written fault
    cases fault
    refine ⟨i, below, written.layout, ?_⟩
    intro apart x
    have bytes := read?_storeLanes (fun j hj => fits j (List.mem_filter.mp hj).1) apart below.stored x
    simp only [List.mem_filter, decide_eq_true_eq] at bytes
    exact bytes

end Semantics

/-! ## Simulators -/

namespace Simulator

variable {sim : Simulator} {f : Form} {inst : Instruction}

/-- **What an instruction that faults leaves of memory**: everything, or what a store of elements has stored. -/
def MemoryLeft (inst : Instruction) (core : Core) (mem : Memory) : Prop :=
  match inst.form, core.regs.vl with
  | some (.st1 e), some vl => Semantics.StoredPart e.lane vl inst.ops core mem
  | _, _ => mem = core.mem

/-- **What is left of a simulator when an instruction fails**: registers, count and whether it has halted. Without an
    instruction memory is left as well. -/
structure Left (sim : Simulator) (inst : Option Instruction) (after : Simulator) : Prop where
  regs : after.core.regs = sim.core.regs
  count : after.count = sim.count
  halted : after.halted = sim.halted
  options : after.options = sim.options
  memory : match inst with
    | some inst => MemoryLeft inst sim.core after.core.mem
    | none => after.core.mem = sim.core.mem

theorem memoryLeft_of_fault (form : inst.form = some f) {core after : Core} {why : Fault}
    (faults : Semantics.execute f inst.cond inst.ops core = .fault why after) : MemoryLeft inst core after.mem := by
  unfold MemoryLeft
  rw [form]
  split
  · rename_i e vl found configured
    cases found
    rw [Form.needsLength_of_isVector rfl, configured] at faults
    obtain ⟨access, faults⟩ := TransferResult.outcome_fault faults
    exact Semantics.storedPart_of_fault faults
  · rename_i others
    by_cases elements : ∃ e, f = .st1 e
    · obtain ⟨e, rfl⟩ := elements
      cases configured : core.regs.vl with
      | some vl => exact absurd configured (others e vl rfl)
      | none =>
        rw [Form.needsLength_of_isVector rfl, configured] at faults
        cases faults
        rfl
    · exact Semantics.mem_of_fault (fun e same => elements ⟨e, same⟩) faults

/-- An instruction that fails while it is performed leaves everything else. -/
theorem left_of_perform (form : inst.form = some f) (fails : (sim.perform f inst).2.isSome = true) :
    sim.Left (some inst) (sim.perform f inst).1 := by
  unfold perform at fails ⊢
  cases outcome : Semantics.execute f inst.cond inst.ops sim.core with
  | done core flow =>
    rw [outcome] at fails
    cases fails
  | fault why after => exact ⟨Semantics.regs_of_fault outcome, rfl, rfl, rfl, memoryLeft_of_fault form outcome⟩

theorem execute_left (fails : (sim.execute inst).failure ≠ none) : sim.Left (some inst) (sim.execute inst).sim := by
  cases form : inst.form with
  | none =>
    unfold execute at fails
    rw [form] at fails
    exact absurd rfl fails
  | some f =>
    obtain ⟨same, failure⟩ := execute_sim sim inst form
    rw [same]
    exact left_of_perform form (failure ▸ Option.isSome_iff_ne_none.mpr fails)

theorem step_left (fails : sim.step.failure ≠ none) : sim.Left sim.current? sim.step.sim := by
  cases current : sim.current? with
  | none =>
    rcases step_of_idle current with ⟨-, clean⟩ | ⟨e, same, -⟩
    · exact absurd clean fails
    · rw [same]
      exact ⟨rfl, rfl, rfl, rfl, rfl⟩
  | some inst =>
    obtain ⟨w, f, form, step⟩ := step_of_current? current
    obtain ⟨same, failure⟩ := stepDecoded_sim sim w inst f
    rw [step] at fails ⊢
    rw [same]
    exact left_of_perform form (failure ▸ Option.isSome_iff_ne_none.mpr fails)

/-- The simulator after a vector instruction without a vector length. -/
def illegal (sim : Simulator) (f : Form) : Simulator := { sim with lastError := some (.execute (.noVectorLength f)) }

theorem perform_illegal (unconfigured : sim.core.regs.vl = none) (vector : f.isVector = true) (inst : Instruction) :
    sim.perform f inst = (sim.illegal f, some (.execute (.noVectorLength f))) := by
  unfold perform
  rw [Form.needsLength_of_isVector vector, unconfigured]
  rfl

/-- **A failure leaves everything as it was**, but for the last error, and for the lanes that a store of elements has stored
    before it faulted. A vector instruction without a vector length fails as an illegal state. -/
theorem failure_leaves :
    (∀ (sim : Simulator) inst, (sim.execute inst).failure ≠ none → sim.Left (some inst) (sim.execute inst).sim) ∧
      (∀ sim : Simulator, sim.step.failure ≠ none → sim.Left sim.current? sim.step.sim) ∧
      (∀ sim : Simulator, sim.Reachable → sim.core.mem.Apart) ∧
      ∀ (sim : Simulator) inst f, inst.form = some f → f.isVector = true → sim.core.regs.vl = none →
        (SimulationError.execute (.noVectorLength f)).kind = "IllegalState" ∧
        ((sim.execute inst).sim = sim.illegal f ∧ (sim.execute inst).failure ≠ none) ∧
        (sim.current? = some inst → sim.step.sim = sim.illegal f ∧ sim.step.failure ≠ none) := by
  refine ⟨fun _ _ => execute_left, fun _ => step_left, fun _ => Reachable.apart, ?_⟩
  intro sim inst f form vector unconfigured
  have illegal := perform_illegal unconfigured vector inst
  refine ⟨rfl, ?_, ?_⟩
  · obtain ⟨same, failure⟩ := execute_sim sim inst form
    rw [illegal] at same failure
    exact ⟨same, Option.isSome_iff_ne_none.mp failure⟩
  · intro current
    obtain ⟨w, g, found, step⟩ := step_of_current? current
    cases form.symm.trans found
    obtain ⟨same, failure⟩ := stepDecoded_sim sim w inst f
    rw [illegal] at same failure
    rw [step]
    exact ⟨same, Option.isSome_iff_ne_none.mp failure⟩

/-- A store of two doublewords where only the first is mapped, a step to a word that is no instruction, and a simulator
    without a vector length. -/
theorem failure_leaves_st1d :
    let regs : Registers := (Registers.zero (VectorLength.ofBits? 128)).setP 0 0x0101
    let sim : Simulator := ⟨⟨128, 1, 0, false⟩, ⟨regs.setZ 2 5, ⟨[⟨0, 8, .zeros⟩]⟩⟩, 0, false, none⟩
    let bare : Simulator := (Simulator.create ⟨0, 1, 0, false⟩).1
    let inst : Instruction := ⟨some (.st1 .d), .al, [.ofZ ⟨2, some .d⟩, .ofP ⟨0, none, none⟩, .mulVl 0 0]⟩
    ((sim.execute inst).failure ≠ none ∧ sim.Left (some inst) (sim.execute inst).sim) ∧
      (sim.step.failure ≠ none ∧ sim.Left sim.current? sim.step.sim) ∧ bare.core.mem.Apart ∧
      (bare.execute inst).sim = bare.illegal (.st1 .d) := by
  intro regs sim bare inst
  have faults : (sim.execute inst).failure ≠ none := by decide
  have stops : sim.step.failure ≠ none := by decide
  obtain ⟨execute, step, apart, vector⟩ := failure_leaves
  exact ⟨⟨faults, execute sim inst faults⟩, ⟨stops, step sim stops⟩, apart bare (.create _),
    (vector bare inst (.st1 .d) rfl rfl rfl).2.1.1⟩

end Simulator

end ArmToolkit.A64
