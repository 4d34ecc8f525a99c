import ArmToolkit.Proofs.Executed

/-!
# `Proofs.MappedMemory` — the regions of a memory and their bytes

## Contents
- **Layout.** The regions of a memory lie apart (`Memory.Apart`). Mapping keeps them so, and writing does not move them
  (`Memory.layout_write?`).
- **Bytes.** A write changes the bytes that it is given and no others (`Memory.Apart.read?_write?`).
- **Instructions.** `Semantics.Effect` is what an instruction can do to memory (`Semantics.effect_execute`): it only writes
  to it (`Semantics.Effect.written`), and only if it stores (`Semantics.Effect.mem_eq`). One that faults has written no
  register (`Semantics.regs_of_fault`).
-/

namespace ArmToolkit.A64

open Text (Byte)

/-! ## Layout -/

/-- **Two regions have no address in common.** -/
def Region.Apart (r s : Region) : Prop := r.limit ≤ s.base ∨ s.limit ≤ r.base

namespace Memory

/-- **How the regions of a memory lie**: they end within the address space, and no two of them meet. -/
structure Apart (m : Memory) : Prop where
  bounded : ∀ r ∈ m.regions, r.limit ≤ addressLimit
  apart : m.regions.Pairwise Region.Apart

/-- The place and the size of every region. -/
def layout (m : Memory) : List (Nat × Nat) := m.regions.map fun r => (r.base, r.size)

/-- Whether bytes are mapped is a matter of the layout. -/
theorem isMapped_eq_layout (m : Memory) (address : BitVec 64) (n : Nat) :
    m.isMapped address n =
      m.layout.any fun p => decide (p.1 ≤ address.toNat ∧ address.toNat + n ≤ p.1 + p.2) := by
  unfold isMapped layout
  rw [List.any_map]
  rfl

variable {m m' : Memory}

theorem isMapped_of_layout (same : m'.layout = m.layout) (address : BitVec 64) (n : Nat) :
    m'.isMapped address n = m.isMapped address n := by
  rw [isMapped_eq_layout, same, ← isMapped_eq_layout]

/-- Every region has one in its place. -/
theorem mem_of_layout (same : m'.layout = m.layout) {r : Region} (hr : r ∈ m'.regions) :
    ∃ s ∈ m.regions, s.base = r.base ∧ s.size = r.size := by
  have place : (r.base, r.size) ∈ m.layout := same ▸ List.mem_map_of_mem hr
  obtain ⟨s, hs, at_s⟩ := List.mem_map.mp place
  exact ⟨s, hs, Prod.mk.inj at_s⟩

/-- Whether the regions lie apart depends on the layout alone. -/
theorem Apart.of_layout (h : m.Apart) (same : m'.layout = m.layout) : m'.Apart where
  bounded := by
    intro r hr
    obtain ⟨s, hs, base, size⟩ := mem_of_layout same hr
    have bound := h.bounded s hs
    unfold Region.limit at bound ⊢
    omega
  apart := by
    have pairs : m.layout.Pairwise fun p q => p.1 + p.2 ≤ q.1 ∨ q.1 + q.2 ≤ p.1 := List.pairwise_map.mpr h.apart
    rw [← same, layout, List.pairwise_map] at pairs
    exact pairs

/-- **A region that nothing stands in the way of** is mapped apart from the others. -/
theorem Apart.add (h : m.Apart) {base : BitVec 64} {r : Region} (free : m.obstacle? base r.size = none)
    (at_base : r.base = base.toNat) : (m.add r).Apart := by
  unfold obstacle? at free
  dsimp only at free
  split at free
  · cases free
  · rename_i valid
    have alone := List.find?_eq_none.mp (Option.map_eq_none_iff.mp free)
    constructor
    · intro s hs
      rcases List.mem_append.mp hs with old | new
      · exact h.bounded s old
      · rw [List.mem_singleton.mp new]
        unfold Region.limit
        omega
    · refine List.pairwise_append.mpr ⟨h.apart, List.pairwise_singleton _ _, ?_⟩
      intro s old t new
      have away := alone s old
      rw [Region.meets, decide_eq_true_eq, Region.limit] at away
      rw [List.mem_singleton.mp new]
      unfold Region.Apart Region.limit
      omega

/-! ## Bytes -/

/-- Regions stay where they are when bytes are put into one of them. -/
theorem layout_putFirst (address : Nat) (bs : List Byte) (rs : List Region) :
    (Memory.mk (putFirst address bs rs)).layout = (Memory.mk rs).layout := by
  unfold layout
  induction rs with
  | nil => rfl
  | cons r rs ih =>
    unfold putFirst
    split
    · rfl
    · exact congrArg (_ :: ·) ih

theorem layout_write? {address : BitVec 64} {bs : List Byte} (written : m.write? address bs = some m') :
    m'.layout = m.layout := by
  unfold write? at written
  split at written
  · cases written
    exact layout_putFirst address.toNat bs m.regions
  · cases written

/-- The byte at an address of some regions, if it is in one of them. -/
def byteOf? (rs : List Region) (address : Nat) : Option (List Byte) :=
  (rs.find? fun r => r.contains address 1).map fun r => r.slice address 1

/-- One byte of a region into which bytes are put. -/
theorem slice_put_byte {r : Region} {a x : Nat} (bs : List Byte) (ha : r.base ≤ a) (hx : r.base ≤ x) :
    (r.put a bs).slice x 1 = if a ≤ x ∧ x < a + bs.length then [bs.getD (x - a) 0] else r.slice x 1 := by
  have read : (r.put a bs).slice x 1 = [(r.bytes.put (a - r.base) bs).get (x - r.base)] := rfl
  have before : r.slice x 1 = [r.bytes.get (x - r.base)] := rfl
  rw [read, before, SparseBytes.get_put]
  by_cases inside : a ≤ x ∧ x < a + bs.length
  · rw [if_pos inside, if_pos (by omega), show x - r.base - (a - r.base) = x - a by omega]
  · rw [if_neg inside, if_neg (by omega)]

/-- **Bytes that are put into one of several regions** are those that change. -/
theorem byteOf?_putFirst {rs : List Region} (apart : rs.Pairwise Region.Apart) {a : Nat} {bs : List Byte}
    (mapped : ∃ r ∈ rs, r.contains a bs.length = true) (x : Nat) :
    byteOf? (putFirst a bs rs) x =
      if a ≤ x ∧ x < a + bs.length then some [bs.getD (x - a) 0] else byteOf? rs x := by
  -- by the regions that are left: the first that has room for the bytes takes them, and no later one is touched
  induction rs with
  | nil =>
    obtain ⟨r, hr, -⟩ := mapped
    cases hr
  | cons r rs ih =>
    obtain ⟨away, apart⟩ := List.pairwise_cons.mp apart
    unfold byteOf? putFirst
    by_cases here : r.contains a bs.length = true
    · rw [if_pos here, List.find?_cons, List.find?_cons]
      rw [show (r.put a bs).contains x 1 = r.contains x 1 from rfl]
      have range : r.base ≤ a ∧ a + bs.length ≤ r.limit := of_decide_eq_true here
      by_cases at_r : r.contains x 1 = true
      · have place : r.base ≤ x ∧ x + 1 ≤ r.limit := of_decide_eq_true at_r
        rw [at_r]
        dsimp only [Option.map_some]
        rw [slice_put_byte bs range.1 place.1]
        split <;> rfl
      · have outside : ¬ (r.base ≤ x ∧ x + 1 ≤ r.limit) := of_decide_eq_false (Bool.eq_false_iff.mpr at_r)
        rw [if_neg (by omega)]
        rw [Bool.eq_false_iff.mpr at_r]
    · rw [if_neg here, List.find?_cons, List.find?_cons]
      have later : ∃ s ∈ rs, s.contains a bs.length = true := by
        obtain ⟨s, hs, there⟩ := mapped
        rcases List.mem_cons.mp hs with rfl | hs
        · exact absurd there here
        · exact ⟨s, hs, there⟩
      by_cases at_r : r.contains x 1 = true
      · -- the bytes that are put are in a region that does not meet this one
        obtain ⟨s, hs, there⟩ := later
        have place : r.base ≤ x ∧ x + 1 ≤ r.limit := of_decide_eq_true at_r
        have range : s.base ≤ a ∧ a + bs.length ≤ s.limit := of_decide_eq_true there
        have apart : r.limit ≤ s.base ∨ s.limit ≤ r.base := away s hs
        rw [at_r, if_neg (by omega)]
      · rw [Bool.eq_false_iff.mpr at_r]
        exact ih apart later

/-- **A write changes the bytes that it is given**, and no others. -/
theorem Apart.read?_write? (h : m.Apart) {address : BitVec 64} {bs : List Byte}
    (written : m.write? address bs = some m') (x : BitVec 64) :
    m'.read? x 1 =
      if (x - address).toNat < bs.length then some [bs.getD (x - address).toNat 0] else m.read? x 1 := by
  unfold write? at written
  split at written
  · rename_i mapped
    cases written
    obtain ⟨r, hr, range⟩ := List.any_eq_true.mp mapped
    have bound := h.bounded r hr
    have inside : r.base ≤ address.toNat ∧ address.toNat + bs.length ≤ r.limit := of_decide_eq_true range
    have limit : addressLimit = 2 ^ 64 := rfl
    refine (byteOf?_putFirst h.apart ⟨r, hr, range⟩ x.toNat).trans ?_
    by_cases at_x : address.toNat ≤ x.toNat ∧ x.toNat < address.toNat + bs.length
    · have offset : (x - address).toNat = x.toNat - address.toNat := by bv_omega
      rw [if_pos at_x, offset, if_pos (by omega)]
    · have offset : ¬ (x - address).toNat < bs.length := by bv_omega
      rw [if_neg at_x, if_neg offset]
      rfl
  · cases written

/-- **What a memory becomes by writing to it.** -/
inductive Written (m : Memory) : Memory → Prop
  | refl : Written m m
  | write {m' m'' : Memory} {address : BitVec 64} {bs : List Byte} (before : Written m m')
    (written : m'.write? address bs = some m'') : Written m m''

namespace Written

theorem trans {m'' : Memory} (h : Written m m') (h' : Written m' m'') : Written m m'' := by
  induction h' with
  | refl => exact h
  | write _ written ih => exact .write ih written

theorem layout (h : Written m m') : m'.layout = m.layout := by
  induction h with
  | refl => rfl
  | write _ written ih => rw [layout_write? written, ih]

end Written

end Memory

/-! ## Instructions -/

/-- Whether an instruction of the form stores. -/
def Form.stores : Form → Bool
  | .transfer .store _ | .transferScalar .store _ | .transferP .store | .transferZ .store | .st1 _ => true
  | _ => false

/-- The memory after a transfer. -/
def TransferResult.mem : TransferResult → Memory
  | done core => core.mem
  | fault _ core => core.mem

/-- The memory after an instruction. -/
def Outcome.mem : Outcome → Memory
  | done core _ => core.mem
  | fault _ core => core.mem

theorem TransferResult.mem_outcome (t : TransferResult) : t.outcome.mem = t.mem := by cases t <;> rfl

theorem TransferResult.outcome_fault {t : TransferResult} {why : Fault} {after : Core}
    (faults : t.outcome = .fault why after) : ∃ access, t = .fault access after := by
  cases t with
  | done core => cases faults
  | fault access core =>
    cases faults
    exact ⟨access, rfl⟩

namespace Semantics

variable {core : Core} {f : Form}

theorem written_storing (core : Core) (address : BitVec 64) (bytes : List Byte) :
    core.mem.Written (storing core address bytes).mem := by
  unfold storing
  split
  · exact .write .refl ‹_›
  · exact .refl

/-- Lanes are stored one after the other. -/
theorem written_storeLanes (l : LaneSize) (v : ZBits) (base : BitVec 64) (core : Core) (lanes : List Nat) :
    core.mem.Written (storeLanes l v base core lanes).mem := by
  induction lanes generalizing core with
  | nil => exact .refl
  | cons i lanes ih =>
    have first := written_storing core (laneAddress base l i) (bytesOf l.bytes (lane l.bits v i))
    unfold storeLanes
    split
    · rename_i next stored
      rw [stored] at first
      exact first.trans (ih next)
    · rename_i why left faulted
      rw [faulted] at first
      exact first

/-- Bytes that cannot be stored change nothing. -/
theorem storing_fault {address : BitVec 64} {bytes : List Byte} {why : AccessFault} {after : Core}
    (faults : storing core address bytes = .fault why after) : after = core := by
  unfold storing at faults
  split at faults
  · cases faults
  · cases faults
    rfl

/-- Lanes that cannot all be stored change memory alone. -/
theorem regs_storeLanes {l : LaneSize} {v : ZBits} {base : BitVec 64} {lanes : List Nat} {why : AccessFault} {after : Core}
    (faults : storeLanes l v base core lanes = .fault why after) : after.regs = core.regs := by
  induction lanes generalizing core with
  | nil => cases faults
  | cons i lanes ih =>
    unfold storeLanes at faults
    split at faults
    · rename_i next stored
      have same : next.regs = core.regs := by
        unfold storing at stored
        split at stored
        · cases stored
          rfl
        · cases stored
      exact (ih faults).trans same
    · rename_i why' left faulted
      cases faults
      rw [storing_fault faulted]

/-- **What an instruction does to memory**: nothing, whether it succeeds or not, or it stores bytes or active elements. -/
inductive Effect (f : Form) (core : Core) : Outcome → Prop
  | keeps (regs : Registers) (flow : Flow) : Effect f core (.done { core with regs } flow)
  | refuses (why : Fault) : Effect f core (.fault why core)
  | stores (stores : f.stores = true) (address : BitVec 64) (bytes : List Byte) :
    Effect f core (storing core address bytes).outcome
  | storesLanes {e : Element} (elements : f = .st1 e) (v : ZBits) (base : BitVec 64) (lanes : List Nat) :
    Effect f core (storeLanes e.lane v base core lanes).outcome

namespace Effect

variable {o : Outcome}

/-- A form that does not store leaves memory alone. -/
theorem mem_eq (h : Effect f core o) (loads : f.stores = false) : o.mem = core.mem := by
  cases h with
  | keeps | refuses => rfl
  | stores stores =>
    rw [loads] at stores
    cases stores
  | storesLanes elements =>
    subst elements
    cases loads

theorem written (h : Effect f core o) : core.mem.Written o.mem := by
  cases h with
  | keeps | refuses => exact .refl
  | stores => exact TransferResult.mem_outcome _ ▸ written_storing ..
  | storesLanes => exact TransferResult.mem_outcome _ ▸ written_storeLanes ..

/-- **Nothing that faults has written a register.** -/
theorem regs_of_fault {why : Fault} {after : Core} (h : Effect f core (.fault why after)) : after.regs = core.regs := by
  generalize left : Outcome.fault why after = o at h
  cases h with
  | keeps => cases left
  | refuses =>
    cases left
    rfl
  | stores =>
    obtain ⟨access, faults⟩ := TransferResult.outcome_fault left.symm
    rw [storing_fault faults]
  | storesLanes =>
    obtain ⟨access, faults⟩ := TransferResult.outcome_fault left.symm
    exact regs_storeLanes faults

end Effect

theorem effect_loading (address : BitVec 64) (n : Nat) (use : List Byte → Registers) :
    Effect f core (loading core address n use).outcome := by
  unfold loading
  split
  · exact .keeps _ .next
  · exact .refuses (.access _)

/-- **Every instruction has one of these effects.** -/
theorem effect_execute (f : Form) (cond : Condition) (ops : List Operand) (core : Core) :
    Effect f core (execute f cond ops core) := by
  by_cases vector : f.isVector = true
  · rw [Form.needsLength_of_isVector vector]
    split
    · cases f with
      | transferP a | transferZ a =>
        cases a with
        | load => exact effect_loading ..
        | store => exact .stores rfl ..
      | ld1 e =>
        show Effect _ core (loadElements _ _ _ core).outcome
        unfold loadElements
        dsimp only
        split
        · exact .refuses (.access _)
        · exact .keeps _ .next
      | st1 e => exact .storesLanes rfl ..
      | _ => exact .keeps _ _
    · exact .refuses _
  · cases f with
    | transfer a _ | transferScalar a _ =>
      cases a with
      | load => exact effect_loading ..
      | store => exact .stores rfl ..
    | branch | branchCond | compareBranch | ret | hlt => exact .keeps core.regs _
    | _ => first | exact absurd rfl vector | exact .keeps _ _

variable {cond : Condition} {ops : List Operand} {why : Fault} {after : Core}

/-- **An instruction that faults has written no register.** -/
theorem regs_of_fault (faults : execute f cond ops core = .fault why after) : after.regs = core.regs := by
  have effect := effect_execute f cond ops core
  rw [faults] at effect
  exact effect.regs_of_fault

/-- An instruction that faults changes memory at most. -/
theorem core_of_fault (faults : execute f cond ops core = .fault why after) : after = { core with mem := after.mem } := by
  have kept := regs_of_fault faults
  cases after
  cases kept
  rfl

end Semantics

end ArmToolkit.A64
