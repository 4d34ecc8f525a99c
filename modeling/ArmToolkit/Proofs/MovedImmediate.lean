import ArmToolkit.A64.MacroCall
import ArmToolkit.Proofs.StraightLine

/-!
# `Proofs.MovedImmediate` — an immediate of any value is moved into a general register

The macro emits one halfword after the other, and leaves out those that the first move has filled in already. A register
is built up in the same way: a bit that some halfword covers is that of the immediate, and any other is as the first move
has filled it in.

## Contents
- **Widths.** `Width.cut`: the bits that a register of a width keeps.
- **Bits.** `Built`: how far a register has been built up, bit by bit (`built_first`, `Built.next`).
- **Moves.** `Assembler.Loads`: words that leave a value in a general register. The moves of single halfwords are
  encoded and executed (`firstHalfword_loads`, `Assembler.Loads.nextHalfword`).
- **The macro.** `moveImmediate_loads`, whichever of the sequences is emitted.
- **Parts.** What holds of the moves of halfwords and of the bitmask, and of any two parts in sequence, holds of the macro
  (`moveImmediate_of_parts`).
- **Length.** It has at least one word, and no more words than the register has halfwords (`size_moveImmediate`).
- **What the macro computes**, as a whole (`moveImmediate_computes`).
-/

namespace ArmToolkit.A64

/-! ## Widths -/

/-- The bits of a value that a register of a width keeps. -/
def Width.cut (width : Width) (v : BitVec 64) : BitVec 64 := v &&& BitmaskImmediate.onesBelow width.bits

theorem Width.getLsbD_cut (width : Width) (v : BitVec 64) {j : Nat} (hj : j < 64) :
    (width.cut v).getLsbD j = (decide (j < width.bits) && v.getLsbD j) := by
  rw [cut, BitVec.getLsbD_and, BitmaskImmediate.getLsbD_onesBelow _ hj, Bool.and_comm]

/-- A value in 32 bits, extended again. -/
theorem Width.cut_w (v : BitVec 64) : (v.setWidth 32).setWidth 64 = Width.w.cut v := by
  apply BitVec.eq_of_getLsbD_eq
  intro j hj
  rw [getLsbD_cut _ _ hj, BitVec.getLsbD_setWidth, BitVec.getLsbD_setWidth, decide_eq_true hj, Bool.true_and]
  rfl

/-- The bits that a register keeps are the remainder of the number. -/
theorem Width.cut_eq_ofNat (width : Width) (v : BitVec 64) :
    width.cut v = BitVec.ofNat 64 (v.toNat % twoPow width.bits) := by
  cases width with
  | w =>
    refine (cut_w v).symm.trans (BitVec.eq_of_toNat_eq ?_)
    rw [BitVec.toNat_setWidth, BitVec.toNat_setWidth, BitVec.toNat_ofNat]
    rfl
  | x =>
    have all : v.toNat % twoPow 64 = v.toNat := Nat.mod_eq_of_lt v.isLt
    rw [Width.cut, show Width.x.bits = 64 from rfl, all, BitVec.ofNat_toNat, BitVec.setWidth_eq]
    exact BitVec.and_allOnes

theorem Width.cut_x (v : BitVec 64) : Width.x.cut v = v := BitVec.and_allOnes

/-- **Writing a register operand** keeps the bits of its width. -/
theorem Registers.setGeneral_ofX (r : Registers) (rd : XReg) (v : BitVec 64) (c : Code31) :
    r.setGeneral (.ofX rd) v c = r.write rd.code (rd.width.cut v) c := by
  obtain ⟨code, width⟩ := rd
  cases width with
  | w => exact congrArg (r.write code · c) (Width.cut_w v)
  | x => exact congrArg (r.write code · c) (Width.cut_x v).symm

/-- **Reading a register operand** gives the bits of its width. -/
theorem Registers.general_ofX (r : Registers) (rd : XReg) (c : Code31) :
    r.general (.ofX rd) c = rd.width.cut (r.read rd.code c) := by
  obtain ⟨code, width⟩ := rd
  cases width with
  | w => exact Width.cut_w _
  | x => exact (Width.cut_x _).symm

theorem Width.cut_cut (width : Width) (v : BitVec 64) : width.cut (width.cut v) = width.cut v := by
  rw [cut, cut, BitVec.and_assoc, BitVec.and_self]

theorem Width.cut_setWidth (width : Width) (v : BitVec 64) :
    width.cut ((v.setWidth width.bits).setWidth 64) = width.cut v := by
  cases width with
  | w => exact (congrArg Width.w.cut (cut_w v)).trans (cut_cut .w v)
  | x => exact congrArg Width.x.cut ((BitVec.setWidth_eq _).trans (BitVec.setWidth_eq v))

/-- The lowest bits of a value that has been cut. -/
theorem Width.setWidth_cut (width : Width) {n : Nat} (h : n ≤ width.bits) (v : BitVec 64) :
    (width.cut v).setWidth n = v.setWidth n := by
  have narrow : width.bits ≤ 64 := by cases width <;> decide
  apply BitVec.eq_of_getLsbD_eq
  intro j hj
  rw [BitVec.getLsbD_setWidth, BitVec.getLsbD_setWidth, getLsbD_cut _ _ (by omega), decide_eq_true (by omega : j < width.bits),
    Bool.true_and]

/-! ## Bits -/

/-- **A halfword of a number**, with its shift. -/
structure IsHalfword (target : BitVec 64) (p : Nat × Nat) : Prop where
  bits : ∀ k < 16, p.2.testBit k = target.getLsbD (p.1 + k)
  narrow : p.2 < 65536

/-- Some of the halfwords covers a bit. -/
def Covers (ps : List (Nat × Nat)) (j : Nat) : Prop := ∃ p ∈ ps, p.1 ≤ j ∧ j < p.1 + 16

instance (ps : List (Nat × Nat)) (j : Nat) : Decidable (Covers ps j) := inferInstanceAs (Decidable (∃ p ∈ ps, _))

/-- **How far a register has been built up**: the bits that the halfwords cover are those of the number, and the others
    are as they were filled in. -/
def Built (width : Width) (target : BitVec 64) (filled : Bool) (done : List (Nat × Nat)) (v : BitVec 64) : Prop :=
  ∀ j < 64, v.getLsbD j = (decide (j < width.bits) && if Covers done j then target.getLsbD j else filled)

/-- The value of a first move. -/
def firstValue (width : Width) (inverted : Bool) (p : Nat × Nat) : BitVec 64 :=
  width.cut (if inverted then ~~~(Slot.natImm (65535 - p.2) <<< p.1) else Slot.natImm p.2 <<< p.1)

/-- The value of a move that keeps the other halfwords. -/
def nextValue (width : Width) (v : BitVec 64) (p : Nat × Nat) : BitVec 64 :=
  width.cut ((width.cut v &&& ~~~((0xffff : BitVec 64) <<< p.1)) ||| (Slot.natImm p.2 <<< p.1))

section

variable {width : Width} {target : BitVec 64} {p : Nat × Nat}

/-- A bit of a shifted number. -/
theorem getLsbD_natImm_shifted (n s : Nat) {j : Nat} (hj : j < 64) :
    (Slot.natImm n <<< s).getLsbD j = (decide (s ≤ j) && n.testBit (j - s)) := by
  rw [BitVec.getLsbD_shiftLeft, Slot.natImm, BitVec.getLsbD_ofNat]
  by_cases low : j < s
  · simp [low]
  · simp [low, hj, Nat.not_lt.mp low, show j - s < 64 by omega]

/-- A bit of a halfword, in its place. -/
theorem IsHalfword.testBit (h : IsHalfword target p) {j : Nat} (low : p.1 ≤ j) :
    p.2.testBit (j - p.1) = (decide (j < p.1 + 16) && target.getLsbD j) := by
  by_cases high : j < p.1 + 16
  · rw [h.bits (j - p.1) (by omega), Nat.add_sub_cancel' low]
    simp [high]
  · have wide : p.2 < 2 ^ (j - p.1) := Nat.lt_of_lt_of_le h.narrow (twoPow_le (m := 16) (by omega))
    simp [high, Nat.testBit_lt_two_pow wide]

theorem built_first (h : IsHalfword target p) (inverted : Bool) :
    Built width target inverted [p] (firstValue width inverted p) := by
  intro j hj
  have covers : Covers [p] j ↔ p.1 ≤ j ∧ j < p.1 + 16 := by simp [Covers]
  rw [firstValue, Width.getLsbD_cut _ _ hj]
  congr 1
  cases inverted with
  | false =>
    rw [if_neg (by decide), getLsbD_natImm_shifted _ _ hj]
    by_cases low : p.1 ≤ j
    · rw [h.testBit low]
      by_cases high : j < p.1 + 16 <;> simp [covers, low, high]
    · simp [covers, low]
  | true =>
    rw [if_pos rfl, BitVec.getLsbD_not, getLsbD_natImm_shifted _ _ hj]
    by_cases low : p.1 ≤ j
    · have flipped := Nat.testBit_two_pow_sub_succ (n := 16) h.narrow (j - p.1)
      rw [show 65535 - p.2 = 2 ^ 16 - (p.2 + 1) by omega, flipped, h.testBit low]
      by_cases high : j < p.1 + 16
      · simp [covers, low, high, hj, show j - p.1 < 16 by omega]
      · simp [covers, low, high, hj, show ¬ j - p.1 < 16 by omega]
    · simp [covers, low, hj]

theorem Built.next {filled : Bool} {done : List (Nat × Nat)} {v : BitVec 64} (built : Built width target filled done v)
    (h : IsHalfword target p) : Built width target filled (done ++ [p]) (nextValue width v p) := by
  intro j hj
  have covers : Covers (done ++ [p]) j ↔ Covers done j ∨ (p.1 ≤ j ∧ j < p.1 + 16) := by
    simp [Covers, or_and_right, exists_or]
  have mask : ((0xffff : BitVec 64) <<< p.1).getLsbD j = (decide (p.1 ≤ j) && decide (j < p.1 + 16)) := by
    have ones : (0xffff : BitVec 64) = Slot.natImm (2 ^ 16 - 1) := rfl
    rw [ones, getLsbD_natImm_shifted _ _ hj, Nat.testBit_two_pow_sub_one]
    by_cases low : p.1 ≤ j
    · simp [low, show (j - p.1 < 16) = (j < p.1 + 16) by simp; omega]
    · simp [low]
  rw [nextValue, Width.getLsbD_cut _ _ hj, BitVec.getLsbD_or, BitVec.getLsbD_and, BitVec.getLsbD_not, mask,
    getLsbD_natImm_shifted _ _ hj, Width.getLsbD_cut _ _ hj, built j hj]
  -- a bit is in the new halfword, in one before it, or as it was filled in
  by_cases inside : j < width.bits
  · by_cases low : p.1 ≤ j
    · rw [h.testBit low]
      by_cases high : j < p.1 + 16
      · simp [covers, low, high, inside]
      · simp [covers, low, high, inside, hj]
    · simp [covers, low, inside, hj]
  · simp [inside]

/-- **A register that has been built up** with all halfwords that differ from what was filled in has the number. -/
theorem Built.eq {filled : Bool} {done : List (Nat × Nat)} {v : BitVec 64} (built : Built width target filled done v)
    (all : ∀ j < width.bits, Covers done j ∨ target.getLsbD j = filled) : v = width.cut target := by
  apply BitVec.eq_of_getLsbD_eq
  intro j hj
  rw [built j hj, Width.getLsbD_cut _ _ hj]
  by_cases inside : j < width.bits
  · rcases all j inside with covered | same
    · simp [covered]
    · by_cases covered : Covers done j <;> simp [covered, same]
  · simp [inside]

end

/-! ## Moves -/

/-- The operands of a move of a halfword. -/
def moveOps16 (rd : XReg) (p : Nat × Nat) : List Operand := [.ofX rd, .shiftedImm (Slot.natImm p.2) p.1]

theorem moveOps16_plain {rd : XReg} (hrd : rd.code < 32) (p : Nat × Nat) : ∀ op ∈ moveOps16 rd p, op.IsPlain := by
  simp only [moveOps16, List.forall_mem_cons]
  exact ⟨.general rd hrd, .immediate _ _, List.forall_mem_nil _⟩

/-- **A halfword that has a place in a register.** -/
structure Fits (width : Width) (p : Nat × Nat) : Prop where
  narrow : p.2 < 65536
  aligned : p.1 % 16 = 0
  inside : p.1 < width.bits

/-- The bits of a halfword can be inverted in its place. -/
theorem Fits.inverted {width : Width} {p : Nat × Nat} (fits : Fits width p) : Fits width (p.1, 65535 - p.2) :=
  ⟨Nat.lt_succ_of_le (Nat.sub_le ..), fits.aligned, fits.inside⟩

/-- A halfword that needs no move has a place in every register, the first one. -/
theorem Fits.filled (width : Width) (inverted : Bool) : Fits width (0, if inverted then 65535 else 0) := by
  have wide : 0 < width.bits := by cases width <;> decide
  exact ⟨by cases inverted <;> decide, rfl, wide⟩

/-- A move of a halfword that has a place is encoded. -/
theorem Fits.encodes {rd : XReg} {p : Nat × Nat} (fits : Fits rd.width p) (op : MoveWideOp) (hrd : rd.code < 32) :
    Instruction.Encodes (.moveWide op rd.width) .al (moveOps16 rd p) := by
  obtain ⟨code, width⟩ := rd
  have hrd : code < 32 := hrd
  have value : (Slot.natImm p.2).toInt = p.2 := Slot.toInt_natImm (Nat.lt_trans fits.narrow (by decide))
  have inRange : rangeFault? (Slot.natImm p.2).toInt 0 65535 = none := by
    have := fits.narrow
    rw [rangeFault?_eq_none, value]
    omega
  refine .of_plain (by cases width <;> rfl) (moveOps16_plain hrd p) ?_
  simp only [Form.checks, List.forall_mem_cons]
  refine ⟨?_, List.forall_mem_nil _⟩
  rintro s ⟨⟩
  exact orElse_eq_none.mpr ⟨inRange, if_pos ⟨fits.aligned, fits.inside⟩⟩

namespace Assembler

variable {body : Assembler → Assembler} {rd : XReg} {target v : BitVec 64} {p : Nat × Nat}

/-- **A part of a macro that emits the same words behind any code**, which leave a value in a general register and change
    no other register and no memory. -/
def Loads (body : Assembler → Assembler) (code : Nat) (v : BitVec 64) : Prop :=
  ∃ ws, (∀ a : Assembler, body a = a.append ws) ∧
    ∀ sim : Simulator, ∃ after, sim.Straight ws after ∧ sim.core.regs.Wrote after.core.regs code v

theorem Loads.emits {code : Nat} (loads : Loads body code v) (a : Assembler) :
    a.Emits (body a) fun _ core after => core.regs.Wrote after.regs code v := by
  obtain ⟨ws, emitted, runs⟩ := loads
  refine ⟨ws, emitted a, fun sim vl configured => ?_⟩
  obtain ⟨after, straight, wrote⟩ := runs sim
  exact ⟨after, straight.executeWords?, wrote.same.2.2.trans configured, wrote⟩

/-- What is emitted may be chosen, if the code so far has no part in it. -/
theorem Loads.ite {c : Prop} [Decidable c] {other : Assembler → Assembler} {code : Nat} (yes : c → Loads body code v)
    (no : ¬ c → Loads other code v) : Loads (fun a => if c then body a else other a) code v := by
  by_cases holds : c
  · simp only [if_pos holds]
    exact yes holds
  · simp only [if_neg holds]
    exact no holds

/-- A first halfword is loaded. -/
theorem firstHalfword_loads (hrd : rd.code < 31) (fits : Fits rd.width p) (inverted : Bool) :
    Loads (fun a => a.firstHalfword rd inverted p.1 p.2) rd.code (firstValue rd.width inverted p) := by
  unfold firstHalfword firstValue
  cases inverted with
  | false =>
    have encodes := fits.encodes .movz (Nat.lt_succ_of_lt hrd)
    refine ⟨_, fun a => emit_of_encodes encodes,
      fun sim => Simulator.Straight.write encodes (moveOps16_plain (Nat.lt_succ_of_lt hrd) _) sim ?_⟩
    exact congrArg (Semantics.registersOnly sim.core) (Registers.setGeneral_ofX ..)
  | true =>
    have encodes := fits.inverted.encodes .movn (Nat.lt_succ_of_lt hrd)
    refine ⟨_, fun a => emit_of_encodes encodes,
      fun sim => Simulator.Straight.write encodes (moveOps16_plain (Nat.lt_succ_of_lt hrd) _) sim ?_⟩
    exact congrArg (Semantics.registersOnly sim.core) (Registers.setGeneral_ofX ..)

/-- A further halfword is loaded, which keeps the others. -/
theorem Loads.nextHalfword (loads : Loads body rd.code v) (hrd : rd.code < 31) (fits : Fits rd.width p) :
    Loads (fun a => (body a).nextHalfword rd p) rd.code (nextValue rd.width v p) := by
  obtain ⟨ws, emitted, runs⟩ := loads
  have encodes := fits.encodes .movk (Nat.lt_succ_of_lt hrd)
  refine ⟨ws ++ [Instruction.word (.moveWide .movk rd.width) .al (moveOps16 rd p)], fun a => ?_, fun sim => ?_⟩
  · show (body a).nextHalfword rd p = _
    rw [emitted, ← append_append]
    exact emit_of_encodes encodes
  obtain ⟨mid, straight, wrote⟩ := runs sim
  have moves : Semantics.execute (.moveWide .movk rd.width) .al (moveOps16 rd p) mid.core =
      Semantics.registersOnly mid.core (mid.core.regs.write rd.code (nextValue rd.width v p) .zero) := by
    refine congrArg (Semantics.registersOnly mid.core) ((Registers.setGeneral_ofX ..).trans ?_)
    show mid.core.regs.write _ (rd.width.cut ((mid.core.regs.general (.ofX rd) .zero &&& _) ||| _)) _ = _
    rw [Registers.general_ofX, wrote.read hrd]
    rfl
  obtain ⟨after, straight', wrote'⟩ := Simulator.Straight.write encodes (moveOps16_plain (Nat.lt_succ_of_lt hrd) p) mid moves
  exact ⟨after, straight.trans straight', wrote.trans hrd wrote'⟩

/-! ## The macro -/

/-- **Words that build up a register** as far as some halfwords go. -/
def Builds (body : Assembler → Assembler) (rd : XReg) (target : BitVec 64) (filled : Bool) (done : List (Nat × Nat)) :
    Prop :=
  ∃ v, Loads body rd.code v ∧ Built rd.width target filled done v

theorem Builds.foldl {filled : Bool} {done : List (Nat × Nat)} (builds : Builds body rd target filled done)
    (hrd : rd.code < 31) (ps : List (Nat × Nat)) (places : ∀ p ∈ ps, IsHalfword target p ∧ Fits rd.width p) :
    Builds (fun a => ps.foldl (fun a p => a.nextHalfword rd p) (body a)) rd target filled (done ++ ps) := by
  induction ps generalizing body done with
  | nil =>
    rw [List.append_nil]
    exact builds
  | cons p ps ih =>
    obtain ⟨⟨halfword, fits⟩, places⟩ := List.forall_mem_cons.mp places
    obtain ⟨v, loads, built⟩ := builds
    rw [List.append_cons]
    exact ih ⟨_, loads.nextHalfword hrd fits, built.next halfword⟩ places

/-- The halfwords of a number have places in a register that holds the number. -/
theorem halfwords_places (width : Width) (target : BitVec 64) :
    ∀ p ∈ halfwords width.bits target, IsHalfword target p ∧ Fits width p := by
  intro p hp
  obtain ⟨i, hi, rfl⟩ := List.mem_map.mp hp
  have hi : i < width.bits / 16 := List.mem_range.mp hi
  have narrow : (target >>> (16 * i)).toNat % 65536 < 65536 := Nat.mod_lt _ (by decide)
  refine ⟨⟨fun k hk => ?_, narrow⟩, ⟨narrow, Nat.mul_mod_right 16 i, by show 16 * i < _; omega⟩⟩
  show ((target >>> (16 * i)).toNat % 2 ^ 16).testBit k = _
  rw [Nat.testBit_mod_two_pow, decide_eq_true hk, Bool.true_and, BitVec.testBit_toNat, BitVec.getLsbD_ushiftRight]

/-- Every bit of a register is in a halfword. -/
theorem halfwords_cover (width : Width) (target : BitVec 64) {j : Nat} (hj : j < width.bits) :
    ∃ p ∈ halfwords width.bits target, p.1 ≤ j ∧ j < p.1 + 16 := by
  have whole : width.bits % 16 = 0 := by cases width <;> rfl
  refine ⟨_, List.mem_map.mpr ⟨j / 16, List.mem_range.mpr (by omega), rfl⟩, ?_⟩
  show 16 * (j / 16) ≤ j ∧ j < 16 * (j / 16) + 16
  omega

/-- A halfword that is filled in has nothing but zeros, or nothing but ones. -/
theorem testBit_fill (inverted : Bool) {k : Nat} (hk : k < 16) :
    (if inverted then 65535 else 0 : Nat).testBit k = inverted := by
  cases inverted with
  | false => exact Nat.zero_testBit k
  | true => exact (Nat.testBit_two_pow_sub_one 16 k).trans (decide_eq_true hk)

theorem bit_of_filled (h : IsHalfword target p) {inverted : Bool} (same : p.2 = if inverted then 65535 else 0) {j : Nat}
    (low : p.1 ≤ j) (high : j < p.1 + 16) : target.getLsbD j = inverted := by
  have bit := h.bits (j - p.1) (by omega)
  rw [Nat.add_sub_cancel' low, same] at bit
  rw [← bit]
  exact testBit_fill inverted (by omega)

/-- **The halfwords that differ from what the first move fills in** are enough. -/
theorem halfwordSequence_loads (hrd : rd.code < 31) (inverted : Bool) (target : BitVec 64) :
    Loads (fun a => a.halfwordSequence rd inverted (halfwords rd.width.bits target)) rd.code (rd.width.cut target) := by
  have places := halfwords_places rd.width target
  -- a bit whose halfword is left out is as the first move fills it in
  have rest : ∀ j < rd.width.bits,
      Covers ((halfwords rd.width.bits target).filter fun p => p.2 != if inverted then 65535 else 0) j ∨
        target.getLsbD j = inverted := by
    intro j hj
    obtain ⟨p, hp, low, high⟩ := halfwords_cover rd.width target hj
    by_cases same : p.2 = if inverted then 65535 else 0
    · exact .inr (bit_of_filled (places p hp).1 same low high)
    · exact .inl ⟨p, List.mem_filter.mpr ⟨hp, bne_iff_ne.mpr same⟩, low, high⟩
  unfold halfwordSequence
  cases kept : (halfwords rd.width.bits target).filter fun p => p.2 != if inverted then 65535 else 0 with
  | nil =>
    rw [kept] at rest
    have filled : ∀ j < rd.width.bits, target.getLsbD j = inverted := fun j hj =>
      (rest j hj).resolve_left fun covered => List.not_mem_nil covered.choose_spec.1
    have wide : 16 ≤ rd.width.bits := by cases rd.width <;> decide
    have fits : Fits rd.width (0, if inverted then 65535 else 0) := .filled _ inverted
    have halfword : IsHalfword target (0, if inverted then 65535 else 0) := by
      refine ⟨fun k hk => ?_, fits.narrow⟩
      rw [Nat.zero_add, filled k (by omega)]
      exact testBit_fill inverted hk
    rw [← (built_first halfword inverted).eq fun j hj => .inr (filled j hj)]
    exact firstHalfword_loads hrd fits inverted
  | cons p ps =>
    rw [kept] at rest
    have members : ∀ q ∈ p :: ps, IsHalfword target q ∧ Fits rd.width q := fun q hq =>
      places q (List.mem_of_mem_filter (kept ▸ hq))
    obtain ⟨⟨halfword, fits⟩, others⟩ := List.forall_mem_cons.mp members
    have first : Builds (fun a => a.firstHalfword rd inverted p.1 p.2) rd target inverted [p] :=
      ⟨_, firstHalfword_loads hrd fits inverted, built_first halfword inverted⟩
    obtain ⟨v, loads, built⟩ := first.foldl hrd ps others
    rw [← built.eq rest]
    exact loads

/-- The operands of a bitwise or of a bitmask immediate with the zero register. -/
def maskOps (rd : XReg) (value : BitVec 64) : List Operand := [.ofX rd, .ofX (.zero rd.width), .ofImm value]

/-- A number that is a bitmask immediate has no fault as one. -/
theorem mask_fault? {width : Width} {imm : BitVec 64}
    (encoded : (BitmaskImmediate.encode? (width.cut imm) width.bits).isSome = true) (lane : Option LaneSize) :
    (Slot.bitmask width).fault? lane (.ofImm (width.cut imm)) = none := by
  cases width with
  | w =>
    have fits : fitsEither 32 (Width.w.cut imm).toInt = true :=
      Slot.fitsEither_of_lt (by decide) (Slot.toNat_and_onesBelow_lt imm (by decide))
    have cut : Width.w.cut imm &&& BitmaskImmediate.onesBelow 32 = Width.w.cut imm := Width.cut_cut .w imm
    simp [Slot.fault?, shiftFault?, Operand.value, Operand.ofImm, Slot.bitmask?, fits, cut, show
      (BitmaskImmediate.encode? (Width.w.cut imm) 32).isSome = true from encoded]
  | x =>
    simp [Slot.fault?, shiftFault?, Operand.ofImm, Slot.bitmask?, show
      (BitmaskImmediate.encode? (Width.x.cut imm) 64).isSome = true from encoded]

/-- The bitwise or with zero. -/
theorem logicalImm_maskOps (hrd : rd.code < 31) (m : BitVec 64) (r : Registers) :
    Semantics.logicalImm .orr rd.width (maskOps rd m) r = r.write rd.code (rd.width.cut m) .zero := by
  have zero : r.general (.ofX (.zero rd.width)) .zero = 0 := by
    rw [Registers.general_ofX]
    exact BitVec.zero_and
  show r.setGeneral (.ofX rd) (((r.general (.ofX (.zero rd.width)) .zero).setWidth rd.width.bits |||
    m.setWidth rd.width.bits).setWidth 64) .stack = _
  have sum : (0 : BitVec 64).setWidth rd.width.bits ||| m.setWidth rd.width.bits = m.setWidth rd.width.bits := by simp
  rw [zero, Registers.setGeneral_ofX, sum, Registers.write_of_lt r hrd, Registers.write_of_lt r hrd, Width.cut_setWidth]

theorem maskOps_plain (hrd : rd.code < 32) (value : BitVec 64) : ∀ op ∈ maskOps rd value, op.IsPlain := by
  simp only [maskOps, List.forall_mem_cons]
  exact ⟨.general _ hrd, .general _ (by decide : 31 < 32), .immediate _ 0, List.forall_mem_nil _⟩

theorem mask_encodes (hrd : rd.code < 32) (imm : BitVec 64)
    (encoded : (BitmaskImmediate.encode? (rd.width.cut imm) rd.width.bits).isSome = true) :
    Instruction.Encodes (.logicalImm .orr rd.width) .al (maskOps rd (rd.width.cut imm)) := by
  refine .of_plain (by cases rd with | mk code width => cases width <;> rfl) (maskOps_plain hrd _) ?_
  simp only [Form.checks, List.forall_mem_cons]
  refine ⟨?_, List.forall_mem_nil _⟩
  rintro s ⟨⟩
  exact mask_fault? encoded _

/-- **A number that is a bitmask immediate** is loaded in one instruction. -/
theorem mask_loads (hrd : rd.code < 31) (imm : BitVec 64)
    (encoded : (BitmaskImmediate.encode? (rd.width.cut imm) rd.width.bits).isSome = true) :
    Loads (fun a => a.emit .orr (maskOps rd (rd.width.cut imm))) rd.code (rd.width.cut imm) := by
  have encodes := mask_encodes (Nat.lt_succ_of_lt hrd) imm encoded
  refine ⟨_, fun a => emit_of_encodes encodes,
    fun sim => Simulator.Straight.write encodes (maskOps_plain (Nat.lt_succ_of_lt hrd) _) sim ?_⟩
  refine congrArg (Semantics.registersOnly sim.core) ((logicalImm_maskOps hrd _ _).trans ?_)
  rw [Width.cut_cut]

/-- **An immediate of any value is moved into a general register.** -/
theorem moveImmediate_loads (hrd : rd.code < 31) (imm : BitVec 64) :
    Loads (fun a => a.moveImmediate rd imm) rd.code (rd.width.cut imm) := by
  have halfwords := fun inverted => halfwordSequence_loads hrd inverted (rd.width.cut imm)
  simp only [Width.cut_cut] at halfwords
  unfold moveImmediate
  exact .ite (fun _ => halfwords _) fun _ => .ite (fun encoded => mask_loads hrd imm encoded) fun _ => halfwords _

/-! ## Parts -/

section

variable {P : (Assembler → Assembler) → Prop}

theorem nextHalfwords_of_parts (andThen : ∀ {f g}, P f → P g → P fun a => g (f a))
    (half : ∀ op p, Fits rd.width p → P fun a => a.emit (MoveWideOp.mnemonic op) (moveOps16 rd p)) {ps : List (Nat × Nat)}
    (places : ∀ p ∈ ps, Fits rd.width p) (first : P body) :
    P fun a => ps.foldl (fun a p => a.nextHalfword rd p) (body a) := by
  induction ps generalizing body with
  | nil => exact first
  | cons p ps ih =>
    obtain ⟨fits, places⟩ := List.forall_mem_cons.mp places
    exact ih places (andThen first (half .movk p fits))

theorem firstHalfword_of_parts
    (half : ∀ op p, Fits rd.width p → P fun a => a.emit (MoveWideOp.mnemonic op) (moveOps16 rd p))
    (fits : Fits rd.width p) (inverted : Bool) : P fun a => a.firstHalfword rd inverted p.1 p.2 := by
  unfold firstHalfword
  cases inverted with
  | false => exact half .movz p fits
  | true => exact half .movn (p.1, 65535 - p.2) fits.inverted

/-- **What holds of the moves of halfwords and of the bitmask, and of any two parts in sequence**, holds of the macro. -/
theorem moveImmediate_of_parts (andThen : ∀ {f g}, P f → P g → P fun a => g (f a))
    (half : ∀ op p, Fits rd.width p → P fun a => a.emit (MoveWideOp.mnemonic op) (moveOps16 rd p))
    (mask : ∀ imm, (BitmaskImmediate.encode? (rd.width.cut imm) rd.width.bits).isSome = true →
      P fun a => a.emit .orr (maskOps rd (rd.width.cut imm))) (imm : BitVec 64) :
    P fun a => a.moveImmediate rd imm := by
  have sequence : ∀ inverted, P fun a => a.halfwordSequence rd inverted (halfwords rd.width.bits (rd.width.cut imm)) := by
    intro inverted
    unfold halfwordSequence
    split
    · exact firstHalfword_of_parts half (.filled _ inverted) inverted
    · rename_i p ps filtered
      have kept : ∀ q ∈ p :: ps, Fits rd.width q := fun q hq =>
        (halfwords_places rd.width (rd.width.cut imm) q (List.mem_of_mem_filter (filtered ▸ hq))).2
      obtain ⟨fits, others⟩ := List.forall_mem_cons.mp kept
      exact nextHalfwords_of_parts andThen half others (firstHalfword_of_parts half fits inverted)
  unfold moveImmediate
  dsimp only
  split
  · exact sequence _
  · split
    · rename_i encoded
      exact mask imm encoded
    · exact sequence _

end

/-! ## Length -/

/-- An instruction that can be encoded is one word. -/
theorem size_emit_of_encodes (a : Assembler) {f : Form} {cond : Condition} {ops : List Operand}
    (h : Instruction.Encodes f cond ops) : (a.emit f.mnemonic ops cond).code.size = a.code.size + 1 := by
  rw [emit_of_encodes h]
  exact Array.size_push _

theorem size_firstHalfword (a : Assembler) (hrd : rd.code < 32) (fits : Fits rd.width p) (inverted : Bool) :
    (a.firstHalfword rd inverted p.1 p.2).code.size = a.code.size + 1 := by
  unfold firstHalfword
  cases inverted with
  | false => exact size_emit_of_encodes a (fits.encodes .movz hrd)
  | true => exact size_emit_of_encodes a (fits.inverted.encodes .movn hrd)

theorem size_nextHalfwords (a : Assembler) (hrd : rd.code < 32) {ps : List (Nat × Nat)}
    (places : ∀ p ∈ ps, Fits rd.width p) :
    (ps.foldl (fun a p => a.nextHalfword rd p) a).code.size = a.code.size + ps.length := by
  induction ps generalizing a with
  | nil => rfl
  | cons p ps ih =>
    obtain ⟨fits, places⟩ := List.forall_mem_cons.mp places
    have first : (a.nextHalfword rd p).code.size = a.code.size + 1 := size_emit_of_encodes a (fits.encodes .movk hrd)
    rw [List.foldl_cons, ih _ places, first, List.length_cons]
    omega

/-- **A sequence has a word for each halfword that is not filled in**, and one in any case. -/
theorem size_halfwordSequence (a : Assembler) (hrd : rd.code < 32) (inverted : Bool) {hws : List (Nat × Nat)}
    (places : ∀ p ∈ hws, Fits rd.width p) :
    (a.halfwordSequence rd inverted hws).code.size =
      a.code.size + max 1 (hws.filter fun p => p.2 != if inverted then 65535 else 0).length := by
  unfold halfwordSequence
  split
  · rename_i filtered
    rw [filtered]
    exact size_firstHalfword a hrd (.filled _ inverted) inverted
  · rename_i p ps filtered
    have kept : ∀ q ∈ p :: ps, Fits rd.width q := fun q hq => places q (List.mem_of_mem_filter (filtered ▸ hq))
    obtain ⟨fits, others⟩ := List.forall_mem_cons.mp kept
    rw [filtered, size_nextHalfwords _ hrd others, size_firstHalfword a hrd fits, List.length_cons]
    omega

/-- **An immediate is moved in at least one word**, and in no more words than a register has halfwords. -/
theorem size_moveImmediate (a : Assembler) (hrd : rd.code < 32) (imm : BitVec 64) :
    a.code.size + 1 ≤ (a.moveImmediate rd imm).code.size ∧
      (a.moveImmediate rd imm).code.size ≤ a.code.size + rd.width.bits / 16 := by
  have wide : 1 ≤ rd.width.bits / 16 := by cases rd.width <;> decide
  have sequence : ∀ inverted v, a.code.size + 1 ≤
      (a.halfwordSequence rd inverted (halfwords rd.width.bits v)).code.size ∧
      (a.halfwordSequence rd inverted (halfwords rd.width.bits v)).code.size ≤
        a.code.size + rd.width.bits / 16 := fun inverted v => by
    have few := List.length_filter_le (fun p : Nat × Nat => p.2 != if inverted then 65535 else 0)
      (halfwords rd.width.bits v)
    have all : (halfwords rd.width.bits v).length = rd.width.bits / 16 := by
      rw [halfwords, List.length_map, List.length_range]
    rw [size_halfwordSequence a hrd inverted fun p hp => (halfwords_places rd.width v p hp).2]
    omega
  unfold moveImmediate
  dsimp only
  split
  · exact sequence _ _
  · split
    · rename_i encoded
      have one : (a.emit .orr (maskOps rd (rd.width.cut imm))).code.size = a.code.size + 1 :=
        size_emit_of_encodes a (mask_encodes hrd imm encoded)
      exact ⟨Nat.le_of_eq one.symm, Nat.le_trans (Nat.le_of_eq one) (by omega)⟩
    · exact sequence _ _

/-! ## What the macro computes -/

/-- **An immediate of any value is moved into a general register.** No error is recorded. There is at least one word, and
    no more words than the register has halfwords. Executing them from any state leaves in the whole register the
    remainder of the immediate, and changes nothing else but the program counter. -/
theorem moveImmediate_computes (a : Assembler) (hrd : rd.code < 31) (imm : BitVec 64) :
    ∃ ws : List Word,
      a.expand (.moveImmediate rd imm) = { a with code := a.code ++ ws } ∧
      1 ≤ ws.length ∧ ws.length ≤ rd.width.bits / 16 ∧
      ∀ sim : Simulator, ∃ after, sim.executeWords? ws = some after ∧
        after.core = { sim.core with
          regs := { sim.core.regs with
            x := sim.core.regs.x.set rd.code (BitVec.ofNat 64 (imm.toNat % twoPow rd.width.bits))
            pc := sim.pc + BitVec.ofNat 64 (4 * ws.length) } } := by
  obtain ⟨ws, emitted, runs⟩ := moveImmediate_loads hrd imm
  have length : (a.moveImmediate rd imm).code.size = a.code.size + ws.length :=
    (congrArg (·.code.size) (emitted a)).trans (size_append ws)
  have bounds := size_moveImmediate a (Nat.lt_succ_of_lt hrd) imm
  refine ⟨ws, emitted a, by omega, by omega, fun sim => ?_⟩
  obtain ⟨after, straight, pc, wrote⟩ := runs sim
  obtain ⟨mem, moved⟩ := straight.core
  have counter : pc = sim.pc + BitVec.ofNat 64 (4 * ws.length) := (congrArg Registers.pc wrote).symm.trans moved
  have file : sim.core.regs.x.setIfInBounds rd.code (rd.width.cut imm) =
      sim.core.regs.x.set rd.code (BitVec.ofNat 64 (imm.toNat % twoPow rd.width.bits)) := by
    rw [Width.cut_eq_ofNat]
    exact Vector.ext fun i hi => by simp [Vector.getElem_setIfInBounds, Vector.getElem_set]
  refine ⟨after, straight.executeWords?, ?_⟩
  rw [Registers.write_of_lt _ hrd, file, counter] at wrote
  exact congrArg₂ Core.mk wrote mem

/-- A word of all ones but for its sign, in a 32-bit register: the upper half of the immediate is cut off, and the rest
    is a bitmask. -/
theorem moveImmediate_computes_mask :
    let a : Assembler := {}
    let rd : XReg := ⟨17, .w⟩
    ∃ ws : List Word,
      a.expand (.moveImmediate rd 0xdeadbeef7fffffff) = { a with code := a.code ++ ws } ∧
      1 ≤ ws.length ∧ ws.length ≤ 2 ∧
      ∀ sim : Simulator, ∃ after, sim.executeWords? ws = some after ∧
        after.core = { sim.core with
          regs := { sim.core.regs with
            x := sim.core.regs.x.set 17 0x7fffffff
            pc := sim.pc + BitVec.ofNat 64 (4 * ws.length) } } :=
  moveImmediate_computes {} (show (⟨17, .w⟩ : XReg).code < 31 by decide) 0xdeadbeef7fffffff

end Assembler

end ArmToolkit.A64
