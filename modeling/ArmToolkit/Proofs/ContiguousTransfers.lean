import ArmToolkit.Proofs.Faults
import ArmToolkit.Proofs.Frames
import ArmToolkit.Proofs.TestedPredicates
import ArmToolkit.Proofs.VectorInstructions

/-!
# `Proofs.ContiguousTransfers` — active elements that are stored and loaded

## Contents
- **Lanes in memory.** Lanes are stored if each has all its bytes in one region (`Semantics.storeLanes_done_iff`). What is
  read from their places are their bytes (`Semantics.read?_slot`), and other bytes are as before.
- **Transfers.** When a transfer of active elements succeeds, and what is left of registers and memory.
- **Instructions.** `Simulator.contiguous_transfers`: an accepted store of active elements, and a load from the same place
  behind it.
-/

namespace ArmToolkit.A64

open Text (Byte)

/-! ## Lanes in memory -/

namespace Semantics

variable {l : LaneSize} {v : ZBits} {base : BitVec 64} {core after : Core} {lanes : List Nat}

/-- **Lanes are stored if all of them are mapped.** -/
theorem storeLanes_done_iff : (∃ after, storeLanes l v base core lanes = .done after) ↔
    ∀ j ∈ lanes, core.mem.isMapped (laneAddress base l j) l.bytes = true := by
  induction lanes generalizing core with
  | nil => exact ⟨fun _ _ hj => absurd hj List.not_mem_nil, fun _ => ⟨core, rfl⟩⟩
  | cons j lanes ih =>
    have size : (bytesOf l.bytes (lane l.bits v j)).length = l.bytes := length_bytesOf ..
    rw [List.forall_mem_cons]
    rcases storing_cases core (laneAddress base l j) (bytesOf l.bytes (lane l.bits v j)) with
      ⟨mem, mapped, written, stored⟩ | ⟨unmapped, faulted⟩
    · -- where regions lie is not changed by the first lane
      have same := Memory.isMapped_of_layout (Memory.layout_write? written)
      rw [size] at mapped
      rw [storeLanes_cons stored, ih]
      simp only [same, mapped, true_and]
    · rw [size] at unmapped
      rw [storeLanes, faulted, unmapped]
      constructor
      · rintro ⟨_, done⟩
        cases done
      · rintro ⟨mapped, -⟩
        cases mapped

/-- Regions stay where they are. -/
theorem layout_storeLanes (done : storeLanes l v base core lanes = .done after) : after.mem.layout = core.mem.layout := by
  have written := written_storeLanes l v base core lanes
  rw [done] at written
  exact written.layout

/-- **What is read from the place of a lane** that was stored. -/
theorem read?_slot (placed : core.mem.Placed) (fits : ∀ j ∈ lanes, j * l.bytes + l.bytes ≤ 2048)
    (done : storeLanes l v base core lanes = .done after) {j : Nat} (hj : j ∈ lanes) :
    after.mem.read? (laneAddress base l j) l.bytes = some (bytesOf l.bytes (lane l.bits v j)) := by
  have same := layout_storeLanes done
  have mapped : after.mem.isMapped (laneAddress base l j) l.bytes = true := by
    rw [Memory.isMapped_of_layout same]
    exact storeLanes_done_iff.mp ⟨after, done⟩ j hj
  refine (placed.of_layout same).read?_of_bytes mapped fun k hk => ?_
  obtain ⟨inLane, offset⟩ := offset_lane base (laneAddress base l j + BitVec.ofNat 64 k) l (fits j hj)
  have small : l.bytes ≤ 16 := by cases l <;> decide
  have place : (laneAddress base l j + BitVec.ofNat 64 k - laneAddress base l j).toNat = k := by bv_omega
  rw [place] at inLane offset
  rw [read?_storeLanes fits placed.bounded done, if_pos ((inLane.mp hk).symm ▸ hj), offset hk, lane_lane l v j hk]

/-- Storing lanes leaves the bytes outside of them. -/
theorem read?_elsewhere (placed : core.mem.Placed) (fits : ∀ j ∈ lanes, j * l.bytes + l.bytes ≤ 2048)
    (done : storeLanes l v base core lanes = .done after) {x : BitVec 64}
    (outside : ∀ j ∈ lanes, ∀ d < l.bytes, x ≠ laneAddress base l j + BitVec.ofNat 64 d) :
    after.mem.read? x 1 = core.mem.read? x 1 := by
  rw [read?_storeLanes fits placed.bounded done, if_neg]
  intro member
  obtain ⟨inLane, -⟩ := offset_lane base x l (fits _ member)
  refine outside _ member _ (inLane.mpr rfl) ?_
  rw [BitVec.ofNat_toNat, BitVec.setWidth_eq, BitVec.add_comm, BitVec.sub_add_cancel]

/-- The bytes of an element, as an element again. -/
theorem ofBytes_bytesOf_bits (l : LaneSize) (x : BitVec l.bits) : ofBytes l.bits (bytesOf l.bytes x) = x := by
  cases l with
  | b => exact ofBytes_bytesOf 1 x
  | h => exact ofBytes_bytesOf 2 x
  | s => exact ofBytes_bytesOf 4 x
  | d => exact ofBytes_bytesOf 8 x
  | q => exact ofBytes_bytesOf 16 x

/-- Lanes can be read if all of them are mapped. -/
theorem firstUnreadable?_eq_none {mem : Memory} : firstUnreadable? mem base l lanes = none ↔
    ∀ j ∈ lanes, mem.isMapped (laneAddress base l j) l.bytes = true := by
  simp only [firstUnreadable?, List.find?_eq_none, Option.isNone_iff_eq_none, ← Option.isSome_iff_ne_none,
    Memory.isSome_read?]

/-- **A load of active elements** faults and leaves memory, or puts the numbers at the places of active lanes into its
    destination, with zeros between them. -/
theorem loadElements_cases (l : LaneSize) (vl : VectorLength) (ops : List Operand) (core : Core) :
    let base := address (arg ops 2) vl.bytes core.regs
    let pg := core.regs.pBits (regAt ops 1)
    (firstUnreadable? core.mem base l (activeLanes l.bytes pg (vl.lanes l)) = none ∧
      loadElements l vl ops core = .done { core with
        regs := onAll vl core.regs l (regAt ops 0) fun i =>
          if activeLane l.bytes pg i then ofBytes l.bits ((core.mem.read? (laneAddress base l i) l.bytes).getD []) else 0 }) ∨
      (firstUnreadable? core.mem base l (activeLanes l.bytes pg (vl.lanes l)) ≠ none ∧
        ∃ why, loadElements l vl ops core = .fault why core) := by
  intro base pg
  cases unreadable : firstUnreadable? core.mem base l (activeLanes l.bytes pg (vl.lanes l)) with
  | none =>
    refine .inl ⟨rfl, ?_⟩
    unfold loadElements
    simp only [base, pg] at unreadable
    simp only [unreadable]
    rfl
  | some i =>
    refine .inr ⟨Option.some_ne_none i, ⟨.load, l.bytes, laneAddress base l i⟩, ?_⟩
    unfold loadElements
    simp only [base, pg] at unreadable
    simp only [unreadable]
    rfl

end Semantics

/-! ## Transfers -/

namespace Simulator

open Semantics (laneAt regAt laneAddress)

/-- **The address of a transfer of elements**: an offset in vector lengths is added to a base. Addresses wrap. -/
def elementsAt (sim : Simulator) (inst : Instruction) (vl : VectorLength) : BitVec 64 :=
  sim.core.regs.read (arg inst.ops 2).reg .stack + (arg inst.ops 2).imm * BitVec.ofNat 64 vl.bytes

/-- The predicate that governs a transfer of elements. -/
def governing (sim : Simulator) (inst : Instruction) : PBits := sim.core.regs.pBits (regAt inst.ops 1)

/-- **Every active lane has all its bytes in one region.** Nothing is said of inactive lanes. -/
def LanesMapped (sim : Simulator) (inst : Instruction) (vl : VectorLength) (l : LaneSize) : Prop :=
  ∀ i, Governed l.bytes (vl.lanes l) (sim.governing inst) i →
    sim.core.mem.InOneRegion (laneAddress (sim.elementsAt inst vl) l i) l.bytes

/-- **What a store of active elements leaves.** Registers and regions stay. At the place of an active lane are its bytes, the
    lowest first, and all other bytes are as before. -/
structure StoresLanes (sim : Simulator) (inst : Instruction) (vl : VectorLength) (l : LaneSize) : Prop where
  registers : (sim.execute inst).sim.core.regs = { sim.core.regs with pc := sim.nextPc }
  regions : (sim.execute inst).sim.core.mem.layout = sim.core.mem.layout
  stored : ∀ i, Governed l.bytes (vl.lanes l) (sim.governing inst) i →
    (sim.execute inst).sim.core.mem.read? (laneAddress (sim.elementsAt inst vl) l i) l.bytes =
      some (bytesOf l.bytes (sim.core.regs.zLane (regAt inst.ops 0) l.bits i))
  others : ∀ x : BitVec 64, (∀ i, Governed l.bytes (vl.lanes l) (sim.governing inst) i →
      ∀ d < l.bytes, x ≠ laneAddress (sim.elementsAt inst vl) l i + BitVec.ofNat 64 d) →
    (sim.execute inst).sim.core.mem.read? x 1 = sim.core.mem.read? x 1

variable {sim : Simulator} {inst : Instruction} {f : Form} {vl : VectorLength} {l : LaneSize} {e : Element}

/-- **A transfer** succeeds if it is done, and leaves the memory that it has made. -/
theorem Accepts.transfers (h : sim.Accepts inst f vl l) {t : TransferResult}
    (executed : Semantics.execute f inst.cond inst.ops sim.core = t.outcome) :
    ((sim.execute inst).failure = none ↔ ∃ after, t = .done after) ∧ (sim.execute inst).sim.core.mem = t.mem ∧
      ∀ after, t = .done after → (sim.execute inst).sim.core.regs = { after.regs with pc := sim.nextPc } := by
  cases t with
  | done after =>
    obtain ⟨succeeds, left⟩ := execute_done h.formed executed
    rw [left]
    refine ⟨iff_of_true succeeds ⟨after, rfl⟩, rfl, ?_⟩
    rintro _ ⟨⟩
    rfl
  | fault why mem =>
    obtain ⟨fails, left⟩ := execute_fault h.formed executed
    rw [left]
    refine ⟨iff_of_false fails ?_, rfl, ?_⟩
    · rintro ⟨_, done⟩
      cases done
    · intro _ done
      cases done

/-- Active lanes that are mapped, one by one. -/
theorem lanesMapped_iff (placed : sim.core.mem.Placed) (inst : Instruction) (vl : VectorLength) (l : LaneSize) :
    sim.LanesMapped inst vl l ↔ ∀ j ∈ activeLanes l.bytes (sim.governing inst) (vl.lanes l),
      sim.core.mem.isMapped (laneAddress (sim.elementsAt inst vl) l j) l.bytes = true := by
  simp only [LanesMapped, mem_activeLanes, placed.isMapped_iff_inOneRegion _ l.bytes_pos]

/-- **A store of active elements** succeeds where all active lanes are mapped. -/
theorem Accepts.stores (h : sim.Accepts inst (.st1 e) vl e.lane) (placed : sim.core.mem.Placed) :
    ((sim.execute inst).failure = none ↔ sim.LanesMapped inst vl e.lane) ∧
      ((sim.execute inst).failure = none → sim.StoresLanes inst vl e.lane) := by
  have fits := Semantics.activeLanes_fit e.lane vl (sim.governing inst)
  obtain ⟨succeeds, mem, regs⟩ := h.transfers (h.execute rfl)
  have done_iff : (∃ after, Semantics.storeElements e.lane vl inst.ops sim.core = .done after) ↔ _ :=
    Semantics.storeLanes_done_iff
  refine ⟨succeeds.trans (done_iff.trans (lanesMapped_iff placed inst vl e.lane).symm), fun success => ?_⟩
  obtain ⟨after, done⟩ := succeeds.mp success
  rw [done] at mem
  constructor
  · rw [regs after done, Semantics.storeLanes_done done]
  · rw [mem]
    exact Semantics.layout_storeLanes done
  · intro i governed
    rw [mem]
    exact Semantics.read?_slot placed fits done (mem_activeLanes.mpr governed)
  · intro x outside
    rw [mem]
    exact Semantics.read?_elsewhere placed fits done fun j hj => outside j (mem_activeLanes.mp hj)

/-- **A load of active elements** succeeds where all active lanes are mapped. It changes no memory, and puts the numbers at the
    places of active lanes into its destination, with zeros between them. -/
theorem Accepts.loads (h : sim.Accepts inst (.ld1 e) vl e.lane) (placed : sim.core.mem.Placed) :
    ((sim.execute inst).failure = none ↔ sim.LanesMapped inst vl e.lane) ∧ (sim.execute inst).sim.core.mem = sim.core.mem ∧
      (sim.LanesMapped inst vl e.lane → sim.PutsLanes inst vl e.lane fun i =>
        if activeLane e.lane.bytes (sim.governing inst) i then
          ofBytes e.lane.bits ((sim.core.mem.read? (laneAddress (sim.elementsAt inst vl) e.lane i) e.lane.bytes).getD [])
        else 0) := by
  have executed : Semantics.execute (.ld1 e) inst.cond inst.ops sim.core =
      (Semantics.loadElements e.lane vl inst.ops sim.core).outcome := h.execute rfl
  have code : regAt inst.ops 0 < 32 := (h.passes.keepsRegister (i := 0) rfl _ rfl).1
  obtain ⟨succeeds, mem, -⟩ := h.transfers executed
  rw [(lanesMapped_iff placed inst vl e.lane).trans Semantics.firstUnreadable?_eq_none.symm]
  rcases Semantics.loadElements_cases e.lane vl inst.ops sim.core with ⟨readable, loaded⟩ | ⟨unreadable, why, faulted⟩
  · rw [loaded] at succeeds mem executed
    exact ⟨iff_of_true (succeeds.mpr ⟨_, rfl⟩) readable, mem, fun _ => h.putsLanes code executed⟩
  · rw [faulted] at succeeds mem
    refine ⟨iff_of_false ?_ unreadable, mem, fun readable => absurd readable unreadable⟩
    intro success
    obtain ⟨_, done⟩ := succeeds.mp success
    cases done

/-- **What was stored is loaded** from the same place and under the same predicate. -/
theorem StoresLanes.loads {st ld : Instruction} (stores : sim.StoresLanes st vl e.lane) (placed : sim.core.mem.Placed)
    (mapped : sim.LanesMapped st vl e.lane) (h : (sim.execute st).sim.Accepts ld (.ld1 e) vl e.lane)
    (governing : (sim.execute st).sim.governing ld = sim.governing st)
    (place : (sim.execute st).sim.elementsAt ld vl = sim.elementsAt st vl) :
    (sim.execute st).sim.PutsLanes ld vl e.lane fun i =>
      if activeLane e.lane.bytes (sim.governing st) i then sim.core.regs.zLane (regAt st.ops 0) e.lane.bits i else 0 := by
  have placed' := placed.of_layout stores.regions
  have mapped' : (sim.execute st).sim.LanesMapped ld vl e.lane := by
    rw [lanesMapped_iff placed', governing, place]
    intro j hj
    rw [Memory.isMapped_of_layout stores.regions]
    exact (lanesMapped_iff placed st vl e.lane).mp mapped j hj
  refine ((h.loads placed').2.2 mapped').congr fun i hi => ?_
  rw [governing, place]
  split
  · rename_i active
    rw [stores.stored i ⟨hi, active⟩, Option.getD_some, Semantics.ofBytes_bytesOf_bits]
  · rfl

/-- **Active elements in memory.** A simulator that can be reached executes an accepted store of active elements. It succeeds
    exactly if every active lane has all its bytes in one region. Then memory has changed at the bytes of the active lanes
    alone, which are those of the lanes. A load from there under the same predicate, into any register, succeeds and gives the
    active lanes back, with zeros between them. A load at any time succeeds under the same condition as a store, and changes no
    memory. -/
theorem contiguous_transfers {sim : Simulator} (reachable : sim.Reachable) (e : Element) (vl : VectorLength) :
    (∀ st, sim.Accepts st (.st1 e) vl e.lane →
      ((sim.execute st).failure = none ↔ sim.LanesMapped st vl e.lane) ∧
        ((sim.execute st).failure = none → sim.StoresLanes st vl e.lane ∧ ∀ ld,
          (sim.execute st).sim.Accepts ld (.ld1 e) vl e.lane → (sim.execute st).sim.governing ld = sim.governing st →
          (sim.execute st).sim.elementsAt ld vl = sim.elementsAt st vl →
          (sim.execute st).sim.PutsLanes ld vl e.lane fun i =>
            if activeLane e.lane.bytes (sim.governing st) i then sim.core.regs.zLane (regAt st.ops 0) e.lane.bits i
            else 0)) ∧
      ∀ ld, sim.Accepts ld (.ld1 e) vl e.lane →
        ((sim.execute ld).failure = none ↔ sim.LanesMapped ld vl e.lane) ∧ (sim.execute ld).sim.core.mem = sim.core.mem := by
  have placed := reachable.placed
  constructor
  · intro st h
    obtain ⟨succeeds, stores⟩ := h.stores placed
    refine ⟨succeeds, fun success => ⟨stores success, ?_⟩⟩
    intro ld accepted governing place
    exact (stores success).loads placed (succeeds.mp success) accepted governing place
  · intro ld h
    obtain ⟨succeeds, mem, -⟩ := h.loads placed
    exact ⟨succeeds, mem⟩

/-- Words 0 and 3 of four, each in a region of its own, with nothing mapped between them. The predicate has a bit that is not
    the lowest of its lane, and the offset is one vector length below the base. -/
theorem contiguous_transfers_hole :
    let mem : Memory := ⟨[⟨0x1000, 4, .zeros⟩, ⟨0x100c, 4, .zeros⟩]⟩
    let regs : Registers := (((Registers.zero (VectorLength.ofBits? 128)).setP 1 0x1021).setZ 2
      0x44444444333333332222222211111111).write 1 0x1010 .zero
    let sim : Simulator := ⟨⟨128, 1, 0, false⟩, ⟨regs, mem⟩, 0, false, none⟩
    let st : Instruction := ⟨some (.st1 .s), .al, [.ofZ ⟨2, some .s⟩, .ofP ⟨1, none, none⟩, .mulVl 1 (-1)]⟩
    let ld : Instruction := ⟨some (.ld1 .s), .al, [.ofZ ⟨3, some .s⟩, .ofP ⟨1, none, some .zeroing⟩, .mulVl 1 (-1)]⟩
    let after := (sim.execute st).sim
    (sim.execute st).failure = none ∧ after.core.mem.read? 0x100c 4 = some (bytesOf 4 (regs.zLane 2 32 3)) ∧
      (after.execute ld).failure = none ∧
      ∀ i < 4, (after.execute ld).sim.core.regs.zLane 3 32 i = if i = 0 ∨ i = 3 then regs.zLane 2 32 i else 0 := by
  intro mem regs sim st ld after
  have reachable : sim.Reachable := by
    have created := (Reachable.create ⟨128, 1, 0, false⟩).host (.registers regs)
    have first : Memory.empty.mapZeros? 0x1000 4 = .ok ⟨[⟨0x1000, 4, .zeros⟩]⟩ := rfl
    have second : (⟨[⟨0x1000, 4, .zeros⟩]⟩ : Memory).mapZeros? 0x100c 4 = .ok mem := rfl
    exact (created.host (.mapZeros first)).host (.mapZeros second)
  obtain ⟨vl, configured, bytes, lanes⟩ : ∃ vl, regs.vl = some vl ∧ vl.bytes = 16 ∧ vl.lanes .s = 4 := ⟨_, rfl, rfl, rfl⟩
  obtain ⟨stores, -⟩ := contiguous_transfers reachable .s vl
  obtain ⟨succeeds, loads⟩ := stores st ⟨⟨_, rfl⟩, rfl, rfl, configured⟩
  have place : sim.elementsAt st vl = 0x1000 := by
    rw [elementsAt, bytes]
    decide +kernel
  have active : ∀ i < 4, activeLane 4 (sim.governing st) i = decide (i = 0 ∨ i = 3) := by decide
  -- the hole is under lanes that are not active
  have mapped : sim.LanesMapped st vl .s := by
    rw [lanesMapped_iff reachable.placed, lanes, place]
    intro j hj
    obtain ⟨inside, here⟩ := mem_activeLanes.mp hj
    rw [LaneSize.bytes, active j inside, decide_eq_true_iff] at here
    rcases here with rfl | rfl <;> rfl
  obtain ⟨stored, back⟩ := loads (succeeds.mpr mapped)
  have loaded := back ld ⟨⟨_, rfl⟩, rfl, rfl, (congrArg Registers.vl stored.registers).trans configured⟩
    ((congrArg (fun r : Registers => r.pBits 1) stored.registers).trans rfl)
    ((congrArg (fun r : Registers => r.read 1 .stack + -1 * BitVec.ofNat 64 vl.bytes) stored.registers).trans rfl)
  refine ⟨succeeds.mpr mapped, ?_, loaded.succeeds, ?_⟩
  · have last := stored.stored 3 ⟨show 3 < vl.lanes .s by omega, active 3 (by decide)⟩
    rw [place] at last
    exact last
  · intro i hi
    have shown : (after.execute ld).sim.core.regs.zLane 3 32 i =
      if activeLane 4 (sim.governing st) i then regs.zLane 2 32 i else 0 := loaded.lanes i (show i < vl.lanes .s by omega)
    simpa only [active i hi, decide_eq_true_eq] using shown

end Simulator

end ArmToolkit.A64
