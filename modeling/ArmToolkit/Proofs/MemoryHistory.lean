import ArmToolkit.Proofs.MappedMemory
import Mathlib.Data.List.Find

/-!
# `Proofs.MemoryHistory` — memory under any sequence of calls

## Contents
- **Where regions lie.** `Memory.Placed`: regions have bytes, end before the last address and lie apart. What stands in the
  way of a region is said byte by byte (`Memory.Placed.obstacle?_isSome_iff`), and so is whether bytes are mapped
  (`Memory.Placed.isMapped_iff_inOneRegion`).
- **Tests on 64-bit numbers.** The same is found by comparing sums and differences that wrap
  (`Memory.Placed.obstacle?_eq_onWords`, `Memory.Placed.isMapped_eq_onWords`).
- **The history.** `Memory.Session` is a memory with the calls that have succeeded. `Memory.lastByte` reads off them what
  was last put at an address.
- **Sequences.** One call keeps a memory in step with its history (`Session.Sound.call`), so any sequence does
  (`Session.sound_calls`). `Memory.calls_remembered` puts all of this together.
-/

namespace ArmToolkit.A64

open Text (Byte)

/-! ## Where regions lie -/

/-- **An address of a region.** -/
def Region.Has (r : Region) (x : Nat) : Prop := r.base ≤ x ∧ x < r.limit

instance : Std.Symm Region.Apart := ⟨fun _ _ => Or.symm⟩

theorem Region.contains_one_iff {r : Region} {x : Nat} : r.contains x 1 = true ↔ r.Has x := by
  rw [contains, decide_eq_true_eq]
  exact Iff.rfl

namespace Region

/-- The address of the first byte of a region, as a 64-bit number. -/
def start (r : Region) : BitVec 64 := BitVec.ofNat 64 r.base

/-- The number of bytes of a region, as a 64-bit number. -/
def extent (r : Region) : BitVec 64 := BitVec.ofNat 64 r.size

/-- Whether the region meets the addresses from `a` up to `b`, by comparing 64-bit sums. -/
def meetsOnWords (r : Region) (a b : BitVec 64) : Bool := decide (a < r.start + r.extent ∧ r.start < b)

/-- Whether `n` bytes from an address on lie in the region, by comparing 64-bit differences. -/
def containsOnWords (r : Region) (address n : BitVec 64) : Bool :=
  decide (r.start ≤ address ∧ address - r.start ≤ r.extent ∧ n ≤ r.extent - (address - r.start))

end Region

namespace Memory

/-- **How the regions of a memory are placed**: each has bytes and ends before the last address, and no two have an address in
    common. -/
structure Placed (m : Memory) : Prop where
  inhabited : ∀ r ∈ m.regions, 0 < r.size
  ends : ∀ r ∈ m.regions, r.limit < addressLimit
  apart : m.regions.Pairwise Region.Apart

/-- **What keeps a region from being mapped**: it is empty, or its end is no address, or it has an address in common with a
    region that is mapped. -/
def Blocked (m : Memory) (base : BitVec 64) (size : Nat) : Prop :=
  size = 0 ∨ addressLimit ≤ base.toNat + size ∨
    ∃ r ∈ m.regions, ∃ x, base.toNat ≤ x ∧ x < base.toNat + size ∧ r.Has x

/-- **All of `n` bytes lie in one region.** Addresses wrap. -/
def InOneRegion (m : Memory) (address : BitVec 64) (n : Nat) : Prop :=
  ∃ r ∈ m.regions, ∀ k < n, r.Has (address + BitVec.ofNat 64 k).toNat

variable {m m' : Memory}

/-- Bytes can be read where they are mapped. -/
theorem isSome_read? (m : Memory) (address : BitVec 64) (n : Nat) :
    (m.read? address n).isSome = true ↔ m.isMapped address n = true := by
  unfold read? isMapped
  rw [Option.isSome_map, List.find?_isSome, List.any_eq_true]

/-- Nothing stands in the way of a region that has bytes, ends at an address and meets no other. -/
theorem obstacle?_eq_none_iff {base : BitVec 64} {size : Nat} : m.obstacle? base size = none ↔
    0 < size ∧ base.toNat + size < addressLimit ∧ ∀ r ∈ m.regions, r.meets base.toNat (base.toNat + size) = false := by
  unfold obstacle?
  dsimp only
  split
  · rename_i invalid
    constructor
    · intro none
      cases none
    · rintro ⟨positive, fits, -⟩
      omega
  · rename_i valid
    rw [Option.map_eq_none_iff, List.find?_eq_none]
    simp only [Bool.not_eq_true]
    constructor
    · intro alone
      exact ⟨by omega, by omega, alone⟩
    · intro free
      exact free.2.2

/-- An address that a number is added to, where the sum is an address. -/
theorem toNat_add_ofNat {address : BitVec 64} {k : Nat} (fits : address.toNat + k < addressLimit) :
    (address + BitVec.ofNat 64 k).toNat = address.toNat + k := by
  rw [BitVec.toNat_add, BitVec.toNat_ofNat, Nat.add_mod_mod]
  exact Nat.mod_eq_of_lt fits

namespace Placed

theorem bounded (h : m.Placed) : m.Apart := ⟨fun r hr => Nat.le_of_lt (h.ends r hr), h.apart⟩

/-- **When a region cannot be mapped.** -/
theorem obstacle?_isSome_iff (h : m.Placed) (base : BitVec 64) (size : Nat) :
    (m.obstacle? base size).isSome = true ↔ m.Blocked base size := by
  -- two ranges that have bytes meet where the later of their starts is in both
  have meeting : ∀ r ∈ m.regions, 0 < size → (r.meets base.toNat (base.toNat + size) = true ↔
      ∃ x, base.toNat ≤ x ∧ x < base.toNat + size ∧ r.Has x) := by
    intro r hr positive
    have inhabited := h.inhabited r hr
    rw [Region.meets, decide_eq_true_eq]
    unfold Region.Has Region.limit
    constructor
    · intro meets
      exact ⟨max base.toNat r.base, by omega, by omega, by omega, by omega⟩
    · rintro ⟨x, above, below, from_base, to_limit⟩
      exact ⟨by omega, by omega⟩
  rw [Option.isSome_iff_ne_none, Ne, obstacle?_eq_none_iff]
  unfold Blocked
  constructor
  · intro stands
    by_contra free
    obtain ⟨some_bytes, rest⟩ := not_or.mp free
    obtain ⟨fits, alone⟩ := not_or.mp rest
    refine stands ⟨by omega, by omega, fun r hr => Bool.eq_false_iff.mpr fun meets => ?_⟩
    exact alone ⟨r, hr, (meeting r hr (by omega)).mp meets⟩
  · rintro blocked ⟨positive, fits, alone⟩
    rcases blocked with empty | wraps | ⟨r, hr, common⟩
    · omega
    · omega
    · have meets := (meeting r hr positive).mpr common
      rw [alone r hr] at meets
      cases meets

/-- A region contains some bytes exactly if each of them is in it: it does not reach the end of the address space, so that the
    bytes do not wrap. -/
theorem contains_iff (h : m.Placed) {r : Region} (hr : r ∈ m.regions) (address : BitVec 64) {n : Nat} (some_bytes : 0 < n) :
    r.contains address.toNat n = true ↔ ∀ k < n, r.Has (address + BitVec.ofNat 64 k).toNat := by
  have ends := h.ends r hr
  rw [Region.contains, decide_eq_true_eq]
  unfold Region.Has
  constructor
  · rintro ⟨from_base, to_limit⟩ k hk
    rw [toNat_add_ofNat (by omega)]
    omega
  · intro each
    have first := each 0 some_bytes
    rw [toNat_add_ofNat address.isLt] at first
    refine ⟨first.1, Nat.le_of_not_lt fun beyond => ?_⟩
    -- the byte at the end of the region would be one of the bytes
    have last := each (r.limit - address.toNat) (by omega)
    rw [toNat_add_ofNat (by omega)] at last
    omega

/-- **When bytes are mapped.** -/
theorem isMapped_iff_inOneRegion (h : m.Placed) (address : BitVec 64) {n : Nat} (some_bytes : 0 < n) :
    m.isMapped address n = true ↔ m.InOneRegion address n := by
  rw [isMapped, List.any_eq_true]
  constructor
  · rintro ⟨r, hr, inside⟩
    exact ⟨r, hr, (h.contains_iff hr address some_bytes).mp inside⟩
  · rintro ⟨r, hr, each⟩
    exact ⟨r, hr, (h.contains_iff hr address some_bytes).mpr each⟩

/-- **The last word of the address space is never mapped**: its last byte is in no region. -/
theorem halt_unmapped (h : m.Placed) : m.isMapped Simulator.haltAddress Simulator.instructionSize = false := by
  rw [Bool.eq_false_iff]
  intro mapped
  obtain ⟨r, hr, each⟩ := (h.isMapped_iff_inOneRegion _ (by decide)).mp mapped
  have last : r.Has (addressLimit - 1) := each 3 (by decide)
  have ends := h.ends r hr
  unfold Region.Has at last
  omega

theorem of_layout (h : m.Placed) (same : m'.layout = m.layout) : m'.Placed where
  inhabited := by
    intro r hr
    obtain ⟨s, hs, -, size⟩ := mem_of_layout same hr
    exact size ▸ h.inhabited s hs
  ends := by
    intro r hr
    obtain ⟨s, hs, base, size⟩ := mem_of_layout same hr
    have ends := h.ends s hs
    unfold Region.limit at ends ⊢
    omega
  apart := (h.bounded.of_layout same).apart

/-- **A region that nothing stands in the way of** is placed as the others are. -/
theorem add (h : m.Placed) {base : BitVec 64} {r : Region} (free : m.obstacle? base r.size = none)
    (at_base : r.base = base.toNat) : (m.add r).Placed := by
  obtain ⟨positive, fits, -⟩ := obstacle?_eq_none_iff.mp free
  refine ⟨?_, ?_, (h.bounded.add free at_base).apart⟩
  · intro s hs
    rcases List.mem_append.mp hs with old | new
    · exact h.inhabited s old
    · rw [List.mem_singleton.mp new]
      exact positive
  · intro s hs
    rcases List.mem_append.mp hs with old | new
    · exact h.ends s old
    · rw [List.mem_singleton.mp new, Region.limit, at_base]
      exact fits

theorem map? (h : m.Placed) {base : BitVec 64} {data : List Byte} (mapped : m.map? base data = .ok m') : m'.Placed := by
  unfold Memory.map? at mapped
  split at mapped
  · cases mapped
  · cases mapped
    exact h.add ‹_› rfl

theorem mapZeros? (h : m.Placed) {base : BitVec 64} {size : Nat} (mapped : m.mapZeros? base size = .ok m') :
    m'.Placed := by
  unfold Memory.mapZeros? at mapped
  split at mapped
  · cases mapped
  · cases mapped
    exact h.add ‹_› rfl

/-- The region of an address is the one that is found. -/
theorem find?_eq (h : m.Placed) {r : Region} (hr : r ∈ m.regions) {x : Nat} (here : r.Has x) :
    (m.regions.find? fun r => r.contains x 1) = some r := by
  cases found : m.regions.find? fun r => r.contains x 1 with
  | none =>
    have nowhere := List.find?_eq_none.mp found r hr
    exact absurd (Region.contains_one_iff.mpr here) nowhere
  | some s =>
    have there : s.Has x := Region.contains_one_iff.mp (List.find?_some (p := fun r : Region => r.contains x 1) found)
    by_contra other
    have away := h.apart.forall hr (List.mem_of_find?_eq_some found) fun same => other (same ▸ rfl)
    unfold Region.Has at here there
    unfold Region.Apart at away
    omega

/-- **Bytes that are read** are the bytes at their addresses. -/
theorem byteOf?_of_read? (h : m.Placed) {address : BitVec 64} {n : Nat} {bs : List Byte} (read : m.read? address n = some bs) :
    bs.length = n ∧ ∀ k < n, ∃ b, bs[k]? = some b ∧ byteOf? m.regions (address + BitVec.ofNat 64 k).toNat = some [b] := by
  obtain ⟨r, found, rfl⟩ := Option.map_eq_some_iff.mp read
  have hr := List.mem_of_find?_eq_some found
  have inside := List.find?_some (p := fun r : Region => r.contains address.toNat n) found
  refine ⟨by simp [Region.slice, SparseBytes.slice], fun k hk => ?_⟩
  have here := (h.contains_iff hr address (Nat.zero_lt_of_lt hk)).mp inside k hk
  have ends := h.ends r hr
  rw [Region.contains, decide_eq_true_eq] at inside
  unfold byteOf?
  rw [h.find?_eq hr here, toNat_add_ofNat (by omega)]
  refine ⟨r.bytes.get (address.toNat - r.base + k), by simp [Region.slice, SparseBytes.slice, hk], ?_⟩
  rw [← Nat.sub_add_comm inside.1]
  rfl

/-- **Bytes that are mapped are read** as they are read one by one. -/
theorem read?_of_bytes (h : m.Placed) {address : BitVec 64} {n : Nat} (mapped : m.isMapped address n = true) {f : Nat → Byte}
    (each : ∀ k < n, m.read? (address + BitVec.ofNat 64 k) 1 = some [f k]) :
    m.read? address n = some ((List.range n).map f) := by
  obtain ⟨bs, read⟩ := Option.isSome_iff_exists.mp ((isSome_read? m address n).mpr mapped)
  obtain ⟨length, bytes⟩ := h.byteOf?_of_read? read
  rw [read]
  refine congrArg some (List.ext_getElem? fun k => ?_)
  by_cases hk : k < n
  · obtain ⟨b, at_k, there⟩ := bytes k hk
    have same : some [b] = some [f k] := there.symm.trans (each k hk)
    rw [at_k, List.getElem?_map, List.getElem?_range hk, List.singleton_inj.mp (Option.some.inj same)]
    rfl
  · rw [List.getElem?_eq_none (by omega), List.getElem?_eq_none (by simpa using hk)]

end Placed

theorem placed_empty : empty.Placed :=
  ⟨fun _ hr => absurd hr List.not_mem_nil, fun _ hr => absurd hr List.not_mem_nil, .nil⟩

/-! ## Tests on 64-bit numbers -/

/-- Why a region cannot be mapped, computed on 64-bit numbers: a sum that wraps is below its first term. -/
def obstacleOnWords? (m : Memory) (base size : BitVec 64) : Option MapError :=
  let limit := base + size
  if size = 0 ∨ limit < base then some (.invalid base.toNat size.toNat)
  else (m.regions.find? fun r => r.meetsOnWords base limit).map fun r =>
    .overlap base.toNat limit.toNat r.base (r.start + r.extent).toNat

theorem wraps_iff (base size : BitVec 64) : base + size < base ↔ addressLimit ≤ base.toNat + size.toNat := by
  have limit : addressLimit = 2 ^ 64 := by decide
  rw [BitVec.lt_def, BitVec.toNat_add, limit]
  omega

namespace Placed

variable {r : Region}

/-- What is placed starts at an address. -/
theorem toNat_start (h : m.Placed) (hr : r ∈ m.regions) : r.start.toNat = r.base := by
  have ends := h.ends r hr
  have limit : addressLimit = 2 ^ 64 := by decide
  unfold Region.limit at ends
  exact Nat.mod_eq_of_lt (by omega)

theorem toNat_extent (h : m.Placed) (hr : r ∈ m.regions) : r.extent.toNat = r.size := by
  have ends := h.ends r hr
  have limit : addressLimit = 2 ^ 64 := by decide
  unfold Region.limit at ends
  exact Nat.mod_eq_of_lt (by omega)

theorem toNat_start_add_extent (h : m.Placed) (hr : r ∈ m.regions) : (r.start + r.extent).toNat = r.limit := by
  have ends := h.ends r hr
  have limit : addressLimit = 2 ^ 64 := by decide
  rw [BitVec.toNat_add, h.toNat_start hr, h.toNat_extent hr]
  exact Nat.mod_eq_of_lt (by rwa [← limit])

theorem meets_eq_onWords (h : m.Placed) (hr : r ∈ m.regions) (a b : BitVec 64) :
    r.meets a.toNat b.toNat = r.meetsOnWords a b := by
  simp only [Region.meets, Region.meetsOnWords, BitVec.lt_def, h.toNat_start_add_extent hr, h.toNat_start hr]

/-- **What stands in the way of a region** is found by 64-bit sums. -/
theorem obstacle?_eq_onWords (h : m.Placed) (base size : BitVec 64) :
    m.obstacle? base size.toNat = m.obstacleOnWords? base size := by
  have zero : size.toNat = 0 ↔ size = 0 := BitVec.toNat_inj (y := 0)
  unfold obstacle? obstacleOnWords?
  simp only [zero, ← wraps_iff]
  split
  · rfl
  · rename_i valid
    rw [not_or, wraps_iff, Nat.not_le] at valid
    have limit : base.toNat + size.toNat = (base + size).toNat := by
      rw [BitVec.toNat_add]
      exact (Nat.mod_eq_of_lt valid.2).symm
    rw [limit]
    rw [List.find?_congr fun r hr => h.meets_eq_onWords hr base (base + size)]
    refine Option.map_congr fun r found => ?_
    rw [h.toNat_start_add_extent (List.mem_of_find?_eq_some found)]

/-- **Bytes lie in a region** where 64-bit differences say so. -/
theorem contains_eq_onWords (h : m.Placed) (hr : r ∈ m.regions) (address n : BitVec 64) :
    r.contains address.toNat n.toNat = r.containsOnWords address n := by
  have bound : r.base + r.size < 2 ^ 64 := h.ends r hr
  unfold Region.contains Region.containsOnWords
  rw [decide_eq_decide, BitVec.le_def, BitVec.le_def, BitVec.le_def]
  simp only [BitVec.toNat_sub, h.toNat_start hr, h.toNat_extent hr]
  have limit : r.limit = r.base + r.size := rfl
  omega

/-- **Bytes are mapped** where 64-bit differences say so. -/
theorem isMapped_eq_onWords (h : m.Placed) (address n : BitVec 64) :
    m.isMapped address n.toNat = m.regions.any fun r => r.containsOnWords address n := by
  rw [isMapped, Bool.eq_iff_iff, List.any_eq_true, List.any_eq_true]
  constructor
  · rintro ⟨r, hr, inside⟩
    exact ⟨r, hr, (h.contains_eq_onWords hr address n).symm.trans inside⟩
  · rintro ⟨r, hr, inside⟩
    exact ⟨r, hr, (h.contains_eq_onWords hr address n).trans inside⟩

end Placed

/-! ## The history -/

/-- **A call of a memory.** A region is mapped with bytes, or with so many zeros. -/
inductive Call
  | map (base : BitVec 64) (data : List Byte)
  | mapZeros (base : BitVec 64) (size : Nat)
  | clear
  | write (address : BitVec 64) (bytes : List Byte)
  | read (address : BitVec 64) (n : Nat)

/-- The memory after a call, if it succeeds. -/
def Call.run? (m : Memory) : Call → Option Memory
  | map base data => (m.map? base data).toOption
  | mapZeros base size => (m.mapZeros? base size).toOption
  | clear => some .empty
  | write address bytes => m.write? address bytes
  | read address n => (m.read? address n).map fun _ => m

/-- **What was last put at an address** by calls that have succeeded, the latest first: by a write, or when its region was
    mapped. -/
def lastByte : List Call → Nat → Option Byte
  | [], _ => none
  | .map base data :: past, x =>
    if base.toNat ≤ x ∧ x < base.toNat + data.length then some (data.getD (x - base.toNat) 0) else lastByte past x
  | .mapZeros base size :: past, x =>
    if base.toNat ≤ x ∧ x < base.toNat + size then some 0 else lastByte past x
  | .clear :: _, _ => none
  | .write address bytes :: past, x =>
    if address.toNat ≤ x ∧ x < address.toNat + bytes.length then some (bytes.getD (x - address.toNat) 0)
    else lastByte past x
  | .read _ _ :: past, x => lastByte past x

/-- **A memory with the calls that have succeeded**, the latest first. -/
structure Session where
  memory : Memory := .empty
  past : List Call := []

namespace Session

/-- The session after a call. One that fails is not remembered. -/
def call (s : Session) (c : Call) : Session :=
  match c.run? s.memory with
  | some memory => ⟨memory, c :: s.past⟩
  | none => s

/-- The session after some calls of a memory where nothing is mapped. -/
def calls (cs : List Call) : Session := cs.foldl call {}

/-- **A memory is in step with its history**: its regions are placed, and hold what was last put at their addresses. -/
structure Sound (s : Session) : Prop where
  placed : s.memory.Placed
  bytes : ∀ x, byteOf? s.memory.regions x = (lastByte s.past x).map fun b => [b]

end Session

/-- The bytes of a memory with one more region. -/
theorem byteOf?_add (h : m.Placed) {base : BitVec 64} {r : Region} (free : m.obstacle? base r.size = none)
    (at_base : r.base = base.toNat) (x : Nat) :
    byteOf? (m.add r).regions x =
      if base.toNat ≤ x ∧ x < base.toNat + r.size then some [r.bytes.get (x - base.toNat)] else byteOf? m.regions x := by
  have placed := h.add free at_base
  have limit : r.limit = base.toNat + r.size := by rw [Region.limit, at_base]
  by_cases inside : base.toNat ≤ x ∧ x < base.toNat + r.size
  · have here : r.Has x := ⟨at_base ▸ inside.1, limit ▸ inside.2⟩
    have last : r ∈ (m.add r).regions := List.mem_append_right _ (List.mem_singleton_self r)
    unfold byteOf?
    rw [if_pos inside, placed.find?_eq last here, ← at_base]
    rfl
  · have away : r.contains x 1 = false := by
      rw [Bool.eq_false_iff, Ne, Region.contains_one_iff]
      intro here
      exact inside ⟨at_base ▸ here.1, limit ▸ here.2⟩
    rw [if_neg inside]
    unfold byteOf? add
    rw [List.find?_append, List.find?_singleton, away]
    cases m.regions.find? fun r => r.contains x 1 <;> rfl

/-! ## Sequences -/

namespace Session

variable {s : Session}

/-- A region that is mapped is remembered with its bytes. -/
theorem Sound.add (h : s.Sound) {base : BitVec 64} {r : Region} {c : Call} (free : s.memory.obstacle? base r.size = none)
    (at_base : r.base = base.toNat)
    (initial : ∀ x, lastByte (c :: s.past) x =
      if base.toNat ≤ x ∧ x < base.toNat + r.size then some (r.bytes.get (x - base.toNat)) else lastByte s.past x) :
    Sound ⟨s.memory.add r, c :: s.past⟩ := by
  refine ⟨h.placed.add free at_base, fun x => ?_⟩
  rw [byteOf?_add h.placed free at_base, initial, h.bytes]
  split <;> rfl

/-- **One call keeps a memory in step with its history.** -/
theorem Sound.call (h : s.Sound) (c : Call) : (s.call c).Sound := by
  unfold Session.call
  split
  · rename_i memory ran
    -- mapping, clearing and writing have a part in the last bytes; reading has none
    cases c with
    | map base data =>
      unfold Call.run? map? at ran
      dsimp only at ran
      split at ran
      · cases ran
      · rename_i free
        cases ran
        refine h.add free rfl fun x => ?_
        show (if _ then some (data.getD (x - base.toNat) 0) else _) = if _ then some ((SparseBytes.zeros.put 0 data).get _) else _
        split
        · rename_i inside
          rw [SparseBytes.get_put, if_pos (by omega), Nat.sub_zero]
        · rfl
    | mapZeros base size =>
      unfold Call.run? mapZeros? at ran
      dsimp only at ran
      split at ran
      · cases ran
      · rename_i free
        cases ran
        exact h.add free rfl fun x => rfl
    | clear =>
      cases ran
      exact ⟨placed_empty, fun x => rfl⟩
    | write address bytes =>
      have same := layout_write? ran
      refine ⟨h.placed.of_layout same, fun x => ?_⟩
      unfold Call.run? write? at ran
      dsimp only at ran
      split at ran
      · rename_i mapped
        cases ran
        rw [byteOf?_putFirst h.placed.apart (List.any_eq_true.mp mapped) x, h.bytes, lastByte]
        split <;> rfl
      · cases ran
    | read address n =>
      obtain ⟨_, -, rfl⟩ := Option.map_eq_some_iff.mp ran
      exact ⟨h.placed, h.bytes⟩
  · exact h

/-- **Any sequence of calls** keeps a memory in step with its history. -/
theorem sound_calls (cs : List Call) : (calls cs).Sound := by
  have kept : ∀ s : Session, s.Sound → (cs.foldl call s).Sound := by
    induction cs with
    | nil => exact fun _ h => h
    | cons c cs ih => exact fun s h => ih (s.call c) (h.call c)
  exact kept {} ⟨placed_empty, fun _ => rfl⟩

end Session

/-- **Memory under any sequence of calls.** Its regions have bytes, lie apart and end before the last address, so the word at
    the address that halts is never mapped. Bytes, one or more, are mapped, can be read and can be written exactly if all of
    them lie in one region. Each byte that is read is the one that was last written to its address since its region was
    mapped, or else the one that it was mapped with. A region cannot be mapped exactly if it is empty, its end is no address or
    it meets another. A call that fails changes nothing. -/
theorem calls_remembered (cs : List Call) :
    let s := Session.calls cs
    let m := s.memory
    m.Placed ∧ m.isMapped Simulator.haltAddress Simulator.instructionSize = false ∧
      (∀ address n, 0 < n → (m.isMapped address n = true ↔ m.InOneRegion address n) ∧
        ((m.read? address n).isSome = true ↔ m.InOneRegion address n)) ∧
      (∀ address bytes, bytes ≠ [] → ((m.write? address bytes).isSome = true ↔ m.InOneRegion address bytes.length)) ∧
      (∀ address n bytes, m.read? address n = some bytes → bytes.length = n ∧
        ∀ k < n, bytes[k]? = lastByte s.past (address + BitVec.ofNat 64 k).toNat) ∧
      (∀ base data, (Call.map base data).run? m = none ↔ m.Blocked base data.length) ∧
      (∀ base size, (Call.mapZeros base size).run? m = none ↔ m.Blocked base size) ∧
      ∀ c, c.run? m = none → s.call c = s := by
  intro s m
  have sound : s.Sound := Session.sound_calls cs
  have placed : m.Placed := sound.placed
  refine ⟨placed, placed.halt_unmapped, ?_, ?_, ?_, ?_, ?_, ?_⟩
  · intro address n some_bytes
    rw [← placed.isMapped_iff_inOneRegion address some_bytes]
    exact ⟨Iff.rfl, isSome_read? m address n⟩
  · intro address bytes some_bytes
    rw [← placed.isMapped_iff_inOneRegion address (List.length_pos_iff.mpr some_bytes)]
    unfold write?
    split <;> simp [*]
  -- a byte that is read has a history, since memory is in step with it
  · intro address n bytes read
    obtain ⟨length, each⟩ := placed.byteOf?_of_read? read
    refine ⟨length, fun k hk => ?_⟩
    obtain ⟨b, at_k, there⟩ := each k hk
    rw [sound.bytes] at there
    obtain ⟨c, last, same⟩ := Option.map_eq_some_iff.mp there
    rw [at_k, last, List.singleton_inj.mp same]
  · intro base data
    rw [← placed.obstacle?_isSome_iff]
    unfold Call.run? map?
    dsimp only
    cases m.obstacle? base data.length <;> simp [Except.toOption]
  · intro base size
    rw [← placed.obstacle?_isSome_iff]
    unfold Call.run? mapZeros?
    dsimp only
    cases m.obstacle? base size <;> simp [Except.toOption]
  · intro c fails
    unfold Session.call
    rw [fails]

/-- A region of two bytes of which the second is written, and then two that cannot be mapped: one has the last address, and the
    other meets the first. -/
theorem calls_remembered_overwritten :
    let s := Session.calls [.map 0x1000 [1, 2], .write 0x1001 [9], .mapZeros 0xffffffffffffffff 1, .mapZeros 0x1001 4]
    (s.memory.read? 0x1000 2 = some [1, 9] ∧ lastByte s.past 0x1000 = some 1 ∧ lastByte s.past 0x1001 = some 9) ∧
      s.memory.InOneRegion 0x1000 2 ∧ s.memory.InOneRegion 0x1001 1 ∧ s.memory.Blocked 0x1001 4 ∧
      s.call (.mapZeros 0x1001 4) = s := by
  intro s
  have reads : s.memory.read? 0x1000 2 = some [1, 9] := by decide +kernel
  have refused : (Call.mapZeros 0x1001 4).run? s.memory = none := by decide +kernel
  obtain ⟨-, -, mapped, written, bytes, -, blocked, kept⟩ :=
    calls_remembered [.map 0x1000 [1, 2], .write 0x1001 [9], .mapZeros 0xffffffffffffffff 1, .mapZeros 0x1001 4]
  obtain ⟨-, each⟩ := bytes _ _ _ reads
  exact ⟨⟨reads, (each 0 (by decide)).symm, (each 1 (by decide)).symm⟩, (mapped _ _ (by decide)).1.mp (by decide +kernel),
    (written 0x1001 [5] (by decide)).mp (by decide +kernel), (blocked _ _).mp refused, kept _ refused⟩

end Memory

end ArmToolkit.A64
