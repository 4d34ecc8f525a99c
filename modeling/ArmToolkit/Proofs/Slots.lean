import ArmToolkit.Proofs.Immediates
import ArmToolkit.Proofs.RotatedRuns
import Mathlib.Tactic.Ring

/-!
# `Proofs.Slots` — operands written to a slot and read back

## Contents
- **Canonical operands.** `Slot.canonical` is what a slot keeps of an operand. `Slot.source` is the slot that holds the
  operand, which is another one for a register that is named again.
- **Written and read.** `Slot.read?_of_holds`: a word that holds the values of an accepted operand gives the canonical
  operand back.
-/

namespace ArmToolkit.A64

theorem ShiftType.ofCode_code (t : ShiftType) : ShiftType.ofCode (t.code % twoPow 2) = t := by cases t <;> rfl

namespace Slot

/-! ## Canonical operands -/

/-- The slot whose fields hold the operand. -/
def source : Slot → Slot
  | again s => s.source
  | s => s

/-- **What the slot keeps of an operand**: the lane size of a register is that of the word, the immediate of a 32-bit
    register has no sign, and a bitmask that was given for one lane size is cut to that of the word. -/
def canonical (slot : Slot) (given lane : Option LaneSize) (op : Operand) : Operand :=
  match slot with
  | general f width _ => .ofX ⟨op.reg % twoPow f.width, width⟩
  | generalOfLane f _ | term f .reg => .ofX ⟨op.reg % twoPow f.width, if isDouble lane then .x else .w⟩
  | shifted width _ => .shifted ⟨op.reg % twoPow 5, width⟩ op.shiftType op.shift
  | scalarAt f l => .ofV ⟨op.reg % twoPow f.width, some l⟩
  | scalar f rule => .ofV ⟨op.reg % twoPow f.width, rule.apply lane⟩
  | vector f rule => .ofZ ⟨op.reg % twoPow f.width, rule.apply lane⟩
  | predicate f rule q => .ofP ⟨op.reg % twoPow f.width, rule.apply lane, q⟩
  | governing f _ => .ofP ⟨op.reg % twoPow f.width, none, op.qualifier⟩
  | again s => s.canonical given lane op
  | halfword _ | arithmetic | byte _ _ => .shiftedImm op.imm op.shift
  | bitmask .w => .ofImm (op.imm &&& BitmaskImmediate.onesBelow 32)
  | laneBitmask =>
    .ofImm (BitmaskImmediate.replicate op.imm (laneBits given) &&& BitmaskImmediate.onesBelow (laneBits lane))
  | bitmask .x | code | unsigned _ | signed _ | term _ .imm | multiplier | scalarIndex | vectorIndex => .ofImm op.imm
  | target _ => .label op.imm
  | pattern => .ofPattern op.imm.toNat
  | offset _ => .memOffset (op.reg % twoPow 5) op.imm
  | registerOffset | vectorOffset => .mulVl (op.reg % twoPow 5) op.imm

/-- A field that holds signed numbers that fit in 64 bits, with `extra` more bits below. -/
def SignedField (f : Field) (extra : Nat) : Prop := 0 < f.width ∧ f.width + extra ≤ 63

instance (f : Field) (extra : Nat) : Decidable (SignedField f extra) := inferInstanceAs (Decidable (_ ∧ _))

/-- **The fields of the slot have sensible widths.** -/
def Proper : Slot → Prop
  | governing _ m => m.width = 1
  | target f => SignedField f 2
  | unsigned f => f.width ≤ 62
  | signed f | term f .imm => SignedField f 0
  | offset scale => scale ≤ 50
  | again s => s.Proper
  | _ => True

def decideProper : (s : Slot) → Decidable s.Proper
  | governing _ m => inferInstanceAs (Decidable (m.width = 1))
  | target f => inferInstanceAs (Decidable (SignedField f 2))
  | unsigned f => inferInstanceAs (Decidable (f.width ≤ 62))
  | signed f | term f .imm => inferInstanceAs (Decidable (SignedField f 0))
  | offset scale => inferInstanceAs (Decidable (scale ≤ 50))
  | again s => s.decideProper
  | general _ _ _ | generalOfLane _ _ | shifted _ _ | scalarAt _ _ | scalar _ _ | vector _ _ | predicate _ _ _
  | halfword _ | arithmetic | bitmask _ | laneBitmask | code | byte _ _ | multiplier | term _ .reg | scalarIndex
  | vectorIndex | pattern | registerOffset | vectorOffset => isTrue trivial

instance (s : Slot) : Decidable s.Proper := s.decideProper

/-- Whether the slot looks at the lane size of the instruction. -/
def measured : Slot → Bool
  | generalOfLane _ _ | term _ .reg | byte _ _ | scalarIndex | vectorIndex | laneBitmask => true
  | again s => s.measured
  | _ => false

/-- Whether the fields of the slot have a rotation, which is not kept in full. -/
def rotates : Slot → Bool
  | bitmask _ | laneBitmask => true
  | again s => s.rotates
  | _ => false

/-! ## Written and read -/

section

variable {w : Word} {op : Operand}

attribute [local simp] fault? read? values

theorem holds_two {f g : Field} {m n : Nat} :
    Holds [f, g] [m, n] w ↔ f.get w = m % twoPow f.width ∧ g.get w = n % twoPow g.width := by simp [Holds]

theorem holds_three {f g h : Field} {m n k : Nat} :
    Holds [f, g, h] [m, n, k] w ↔
      f.get w = m % twoPow f.width ∧ g.get w = n % twoPow g.width ∧ h.get w = k % twoPow h.width := by
  simp [Holds]

theorem read?_shifted {width : Width} {rotates : Bool} {given lane : Option LaneSize}
    (ok : (shifted width rotates).fault? given op = none)
    (holds : Holds (shifted width rotates).fields ((shifted width rotates).values given op) w) :
    (shifted width rotates).read? lane w = some ((shifted width rotates).canonical given lane op) := by
  obtain ⟨type, reg, amount⟩ := holds_three.mp holds
  simp only [fault?] at ok
  split at ok
  · cases ok
  · rename_i plain
    rw [ite_some_eq_none] at ok
    have narrow : op.shift % twoPow 6 = op.shift := Nat.mod_eq_of_lt (by cases width <;> exact Nat.lt_of_lt_of_le ok (by decide))
    simp only [read?, type, reg, amount, ShiftType.ofCode_code, narrow, canonical, plain, Bool.false_or, decide_eq_true_eq]
    rw [if_neg (Nat.not_le.mpr ok)]
    rfl

theorem read?_halfword {width : Width} {given lane : Option LaneSize} (ok : (halfword width).fault? given op = none)
    (holds : Holds (halfword width).fields ((halfword width).values given op) w) :
    (halfword width).read? lane w = some (.shiftedImm op.imm op.shift) := by
  obtain ⟨place, value⟩ := holds_two.mp holds
  simp only [fault?, orElse_eq_none, rangeFault?_eq_none, ite_some_eq_none] at ok
  obtain ⟨range, multiple, below⟩ := ok
  have bits : width.bits ≤ 64 := by cases width <;> decide
  have small : op.imm.toNat % twoPow 16 = op.imm.toNat :=
    toNat_mod_of_range range.1 (Int.lt_add_one_of_le range.2)
  have quotient : op.shift / 16 % twoPow 2 = op.shift / 16 := Nat.mod_eq_of_lt (by
    show op.shift / 16 < 4
    omega)
  simp only [read?, place, value, small, quotient, natImm_toNat]
  rw [if_neg (by omega), show 16 * (op.shift / 16) = op.shift by omega]

theorem read?_arithmetic {given lane : Option LaneSize} (ok : arithmetic.fault? given op = none)
    (holds : Holds arithmetic.fields (arithmetic.values given op) w) :
    arithmetic.read? lane w = some (.shiftedImm op.imm op.shift) := by
  obtain ⟨place, value⟩ := holds_two.mp holds
  simp only [fault?, orElse_eq_none, rangeFault?_eq_none, ite_some_eq_none] at ok
  obtain ⟨range, shift⟩ := ok
  have small : op.imm.toNat % twoPow 12 = op.imm.toNat :=
    toNat_mod_of_range range.1 (Int.lt_add_one_of_le range.2)
  have amount : 12 * ((if op.shift = 0 then 0 else 1) % twoPow 1) = op.shift := by
    rcases shift with h | h <;> rw [h] <;> rfl
  simp only [read?, place, value, small, natImm_toNat, amount]

theorem read?_target {f : Field} (proper : (target f).Proper) {given lane : Option LaneSize}
    (ok : (target f).fault? given op = none) (holds : Holds (target f).fields ((target f).values given op) w) :
    (target f).read? lane w = some (.label op.imm) := by
  have value := holds_one.mp holds
  simp only [fault?, ite_some_eq_none] at ok
  obtain ⟨aligned, low, high⟩ := ok
  obtain ⟨k, hk⟩ : ∃ k, f.width = k + 1 := ⟨f.width - 1, by have := proper.1; omega⟩
  have narrow : k + 1 ≤ 62 := by have := proper.2; omega
  have read : f.getSigned w = op.value / 4 := by
    refine Field.getSigned_eq hk ?_ ?_ ?_
    · rw [value, hk, Int.natCast_emod, toNat_quarter_emod narrow, Operand.value]
    · rw [hk, Field.double_twoPow, Field.double_twoPow] at low
      omega
    · rw [hk, Field.double_twoPow, Field.double_twoPow] at high
      omega
  simp only [read?, read]
  rw [show 4 * (op.value / 4) = op.value by omega, Operand.value, intImm_toInt]

theorem read?_code {given lane : Option LaneSize} (ok : code.fault? given op = none)
    (holds : Holds code.fields (code.values given op) w) : code.read? lane w = some (.ofImm op.imm) := by
  have value := holds_one.mp holds
  simp only [fault?, orElse_eq_none, rangeFault?_eq_none, shiftFault?_eq_none] at ok
  have small : op.imm.toNat % twoPow 16 = op.imm.toNat :=
    toNat_mod_of_range ok.1.1 (Int.lt_add_one_of_le ok.1.2)
  simp only [read?, value, small, natImm_toNat]

theorem read?_unsigned {f : Field} {given lane : Option LaneSize} (ok : (unsigned f).fault? given op = none)
    (holds : Holds (unsigned f).fields ((unsigned f).values given op) w) :
    (unsigned f).read? lane w = some (.ofImm op.imm) := by
  have value := holds_one.mp holds
  simp only [fault?, orElse_eq_none, rangeFault?_eq_none, shiftFault?_eq_none] at ok
  have small : op.imm.toNat % twoPow f.width = op.imm.toNat :=
    toNat_mod_of_range ok.1.1 (Int.lt_of_le_sub_one ok.1.2)
  simp only [read?, value, small, natImm_toNat]

/-- A number in the signed range of a field is read back from it. -/
theorem getSigned_of_holds {f : Field} (proper : SignedField f 0) (holds : Holds [f] [op.imm.toNat] w)
    (low : -(twoPow (f.width - 1) : Int) ≤ op.value) (high : op.value < twoPow (f.width - 1)) :
    f.getSigned w = op.value := by
  have value := holds_one.mp holds
  obtain ⟨k, hk⟩ : ∃ k, f.width = k + 1 := ⟨f.width - 1, by have := proper.1; omega⟩
  have narrow : k + 1 ≤ 64 := by have := proper.2; omega
  rw [hk, Nat.add_sub_cancel] at low high
  refine Field.getSigned_eq hk ?_ low high
  rw [value, hk, Int.natCast_emod, toNat_emod narrow, Operand.value]

theorem read?_signed {f : Field} (proper : SignedField f 0) (ok : signedFault? f op = none)
    (holds : Holds [f] [op.imm.toNat] w) : intImm (f.getSigned w) = op.imm := by
  simp only [signedFault?, orElse_eq_none, rangeFault?_eq_none, shiftFault?_eq_none] at ok
  rw [getSigned_of_holds proper holds ok.1.1 (Int.lt_of_le_sub_one ok.1.2), Operand.value, intImm_toInt]

theorem read?_byte {isSigned shiftable : Bool} {lane : Option LaneSize}
    (ok : (byte isSigned shiftable).fault? lane op = none)
    (holds : Holds (byte isSigned shiftable).fields ((byte isSigned shiftable).values lane op) w) :
    (byte isSigned shiftable).read? lane w = some (.shiftedImm op.imm op.shift) := by
  obtain ⟨place, value⟩ := holds_two.mp holds
  simp only [fault?, orElse_eq_none] at ok
  obtain ⟨shift, range⟩ := ok
  have number : (if isSigned then intImm (Field.getSigned ⟨5, 8⟩ w) else natImm (Field.get ⟨5, 8⟩ w)) = op.imm := by
    cases isSigned with
    | true =>
      rw [if_pos rfl, rangeFault?_eq_none] at range
      have read : Field.getSigned ⟨5, 8⟩ w = op.value :=
        getSigned_of_holds (by decide) (holds_one.mpr value) range.1 (Int.lt_add_one_of_le range.2)
      rw [if_pos rfl, read, Operand.value, intImm_toInt]
    | false =>
      rw [if_neg (by decide), rangeFault?_eq_none] at range
      have small : op.imm.toNat % twoPow 8 = op.imm.toNat :=
        toNat_mod_of_range range.1 (Int.lt_add_one_of_le range.2)
      rw [if_neg (by decide), value, small, natImm_toNat]
  simp only [read?, place, number]
  -- a shift is by a byte or by nothing, and by a byte only where lanes are wider
  by_cases plain : op.shift = 0
  · simp [plain]
  · rw [if_neg plain] at shift ⊢
    split at shift
    · cases shift
    · rename_i known
      split at shift
      · cases shift
      · rename_i wide
        simp_all [twoPow]

theorem read?_multiplier {given lane : Option LaneSize} (ok : multiplier.fault? given op = none)
    (holds : Holds multiplier.fields (multiplier.values given op) w) :
    multiplier.read? lane w = some (.ofImm op.imm) := by
  have value : Field.get ⟨16, 4⟩ w = (op.imm.toNat - 1) % 16 := holds_one.mp holds
  simp only [fault?, orElse_eq_none, rangeFault?_eq_none, shiftFault?_eq_none, Operand.value] at ok
  have number := toNat_eq_toInt (v := op.imm) (by omega)
  simp only [read?, value]
  rw [show (op.imm.toNat - 1) % 16 + 1 = op.imm.toNat by omega, natImm_toNat]

/-- The index is what stands above the mark of the lane size. -/
theorem markedIndex_div (lane : Option LaneSize) (op : Operand) :
    markedIndex lane op / twoPow (laneLog2 lane + 1) = op.imm.toNat := by
  have pos := twoPow_pos (laneLog2 lane)
  rw [markedIndex, twoPow_succ, ← Nat.div_div_eq_div_mul, Nat.mul_div_cancel _ pos]
  omega

/-- An index that is in range leaves room for the mark. -/
theorem markedIndex_lt {lane : Option LaneSize} {op : Operand} (bits : Nat) (low : 0 ≤ op.value)
    (high : op.value ≤ (twoPow bits / twoPow (laneLog2 lane) : Int) - 1) :
    markedIndex lane op < twoPow (bits + 1) := by
  have number := toNat_eq_toInt low
  have pos := twoPow_pos (laneLog2 lane)
  rw [← Int.natCast_ediv, Operand.value] at high
  -- `(2 * index + 1) * 2 ^ size` is below twice the room that `index + 1` lanes take
  have room : (op.imm.toNat + 1) * twoPow (laneLog2 lane) ≤ twoPow bits := Nat.mul_le_of_le_div _ _ _ (by omega)
  have twice : (2 * op.imm.toNat + 1) * twoPow (laneLog2 lane) + twoPow (laneLog2 lane) =
      2 * ((op.imm.toNat + 1) * twoPow (laneLog2 lane)) := by ring
  rw [markedIndex, twoPow_succ]
  omega

theorem read?_scalarIndex {lane : Option LaneSize} (ok : scalarIndex.fault? lane op = none)
    (holds : Holds scalarIndex.fields (scalarIndex.values lane op) w) :
    scalarIndex.read? lane w = some (.ofImm op.imm) := by
  have value := holds_one.mp holds
  simp only [fault?, orElse_eq_none, rangeFault?_eq_none, shiftFault?_eq_none] at ok
  have small : markedIndex lane op % twoPow 5 = markedIndex lane op :=
    Nat.mod_eq_of_lt (markedIndex_lt 4 ok.1.1 ok.1.2)
  simp only [read?, value, small, markedIndex_div, natImm_toNat]

theorem read?_vectorIndex {lane : Option LaneSize} (ok : vectorIndex.fault? lane op = none)
    (holds : Holds vectorIndex.fields (vectorIndex.values lane op) w) :
    vectorIndex.read? lane w = some (.ofImm op.imm) := by
  obtain ⟨upper, lower⟩ := holds_two.mp holds
  simp only [fault?, orElse_eq_none, rangeFault?_eq_none, shiftFault?_eq_none] at ok
  have small : markedIndex lane op < 128 := markedIndex_lt 6 ok.2.1 ok.2.2
  have whole : 32 * (markedIndex lane op / 32 % twoPow 2) + markedIndex lane op % twoPow 5 = markedIndex lane op := by
    show 32 * (markedIndex lane op / 32 % 4) + markedIndex lane op % 32 = _
    omega
  simp only [read?, upper, lower, whole, markedIndex_div, natImm_toNat]

theorem read?_pattern {given lane : Option LaneSize} (ok : pattern.fault? given op = none)
    (holds : Holds pattern.fields (pattern.values given op) w) :
    pattern.read? lane w = some (.ofPattern op.imm.toNat) := by
  have value := holds_one.mp holds
  simp only [fault?, rangeFault?_eq_none] at ok
  have small : op.imm.toNat % twoPow 5 = op.imm.toNat := toNat_mod_of_range ok.1 (Int.lt_add_one_of_le ok.2)
  simp only [read?, value, small]

theorem read?_offset {scale : Nat} {given lane : Option LaneSize} (ok : (offset scale).fault? given op = none)
    (holds : Holds (offset scale).fields ((offset scale).values given op) w) :
    (offset scale).read? lane w = some (.memOffset (op.reg % twoPow 5) op.imm) := by
  obtain ⟨place, base⟩ := holds_two.mp holds
  simp only [fault?, ite_some_eq_none] at ok
  obtain ⟨multiple, low, high⟩ := ok
  have number : (op.imm.toNat : Int) = op.value := toNat_eq_toInt low
  rw [← number] at multiple high
  have quotient : op.imm.toNat / twoPow scale ≤ 4095 := by
    rw [← Int.natCast_ediv] at high
    omega
  have small : op.imm.toNat / twoPow scale % twoPow 12 = op.imm.toNat / twoPow scale :=
    Nat.mod_eq_of_lt (Nat.lt_succ_of_le quotient)
  have divides : twoPow scale ∣ op.imm.toNat := Int.natCast_dvd_natCast.mp (Int.dvd_of_emod_eq_zero multiple)
  simp only [read?, place, base, small, Nat.mul_div_cancel' divides, natImm_toNat]
  rfl

theorem read?_registerOffset {given lane : Option LaneSize} (ok : registerOffset.fault? given op = none)
    (holds : Holds registerOffset.fields (registerOffset.values given op) w) :
    registerOffset.read? lane w = some (.mulVl (op.reg % twoPow 5) op.imm) := by
  obtain ⟨upper, lower, base⟩ := holds_three.mp holds
  simp only [fault?, vectorOffsetFault?, ite_some_eq_none] at ok
  have upper : Field.get ⟨16, 6⟩ w = op.imm.toNat / 8 % 64 := upper
  have lower : Field.get ⟨10, 3⟩ w = op.imm.toNat % 8 := lower
  have low : -256 ≤ op.value := ok.1
  have high : op.value < 256 := ok.2
  have same : (op.imm.toNat : Int) % 512 = op.value % 512 := toNat_emod (k := 9) (by decide)
  -- the upper field has the sign, the lower one the three bits below
  have read : Field.getSigned ⟨16, 6⟩ w = op.value / 8 := by
    refine Field.getSigned_eq (k := 5) rfl ?_ ?_ ?_
    · show op.value / 8 % 64 = _
      omega
    · show -32 ≤ op.value / 8
      omega
    · show op.value / 8 < 32
      omega
  have whole : 8 * (op.value / 8) + ((op.imm.toNat % 8 : Nat) : Int) = op.value := by omega
  simp only [read?, read, lower, base]
  rw [whole, Operand.value, intImm_toInt]
  rfl

theorem read?_vectorOffset {given lane : Option LaneSize} (ok : vectorOffset.fault? given op = none)
    (holds : Holds vectorOffset.fields (vectorOffset.values given op) w) :
    vectorOffset.read? lane w = some (.mulVl (op.reg % twoPow 5) op.imm) := by
  obtain ⟨place, base⟩ := holds_two.mp holds
  simp only [fault?, vectorOffsetFault?, ite_some_eq_none] at ok
  have read : Field.getSigned ⟨16, 4⟩ w = op.value :=
    getSigned_of_holds (by decide) (holds_one.mpr place) ok.1 ok.2
  simp only [read?, read, base, Operand.value, intImm_toInt]
  rfl

/-- A field that holds an encoded bitmask immediate gives it back. -/
theorem decode?_of_holds {f : Field} (thirteen : f.width = 13) {v : BitVec 64} {size : Nat} (hs : size = 32 ∨ size = 64)
    (ok : (BitmaskImmediate.encode? v size).isSome = true)
    (holds : Holds [f] [(BitmaskImmediate.encode? v size).getD 0] w) :
    ∃ e, BitmaskImmediate.decode? (f.get w) size = some (v, e) := by
  obtain ⟨n, encoded⟩ := Option.isSome_iff_exists.mp ok
  have value := holds_one.mp holds
  rw [encoded, Option.getD_some, thirteen,
    Nat.mod_eq_of_lt (show n < twoPow 13 from BitmaskImmediate.encode?_bits hs encoded)] at value
  rw [value]
  exact BitmaskImmediate.decode?_of_encode? hs encoded

theorem read?_bitmask {width : Width} {given lane : Option LaneSize} (ok : (bitmask width).fault? given op = none)
    (holds : Holds (bitmask width).fields ((bitmask width).values given op) w) :
    (bitmask width).read? lane w = some ((bitmask width).canonical given lane op) := by
  simp only [fault?, orElse_eq_none] at ok
  have known : (bitmask? width op).isSome = true := by
    by_contra unknown
    rw [if_neg unknown] at ok
    split at ok <;> cases ok.2
  cases width with
  | w =>
    obtain ⟨e, read⟩ := decode?_of_holds rfl (.inl rfl) known holds
    simp only [read?, Width.bits, read, Option.map_some]
    rfl
  | x =>
    obtain ⟨e, read⟩ := decode?_of_holds rfl (.inr rfl) known holds
    simp only [read?, Width.bits, read, Option.map_some]
    rfl

/-- A bitmask immediate without a fault has an encoding. -/
theorem laneBitmask?_isSome {given : Option LaneSize} (ok : laneBitmask.fault? given op = none) :
    (laneBitmask? given op).isSome = true := by
  simp only [fault?, orElse_eq_none] at ok
  by_contra unknown
  rw [if_neg unknown] at ok
  split at ok <;> cases ok.2

theorem read?_laneBitmask {given lane : Option LaneSize} (ok : laneBitmask.fault? given op = none)
    (holds : Holds laneBitmask.fields (laneBitmask.values given op) w) :
    laneBitmask.read? lane w = some (laneBitmask.canonical given lane op) := by
  obtain ⟨e, read⟩ := decode?_of_holds rfl (.inr rfl) (laneBitmask?_isSome ok) holds
  simp only [read?, read, Option.map_some]
  rfl

/-- **A word that holds an operand gives the canonical operand back.** -/
theorem read?_of_holds {slot : Slot} {given lane : Option LaneSize} (proper : slot.Proper)
    (same : slot.measured = true → slot.rotates = false → given = lane) (accepted : slot.accepts op = true)
    (ok : slot.source.fault? given op = none)
    (holds : Holds slot.source.fields (slot.source.values given op) w) :
    slot.read? lane w = some (slot.canonical given lane op) := by
  -- registers come back as they are; numbers come back from the fields that their slot keeps them in
  induction slot with
  | general f width c => rw [read?, holds_one.mp holds, canonical]
  | generalOfLane f c => rw [read?, holds_one.mp holds, canonical]
  | shifted width rotates => exact read?_shifted ok holds
  | scalarAt f l => rw [read?, holds_one.mp holds, canonical]
  | scalar f rule => rw [read?, holds_one.mp holds, canonical]
  | vector f rule => rw [read?, holds_one.mp holds, canonical]
  | predicate f rule q => rw [read?, holds_one.mp holds, canonical]
  | governing f m =>
    obtain ⟨reg, bit⟩ := holds_two.mp holds
    have one : m.width = 1 := proper
    obtain ⟨q, hq⟩ := Option.isSome_iff_exists.mp (Bool.and_eq_true_iff.mp accepted).2
    rw [read?, reg, bit, canonical, one, hq]
    cases q <;> rfl
  | again s ih => exact ih proper same accepted ok holds
  | halfword width => exact read?_halfword ok holds
  | arithmetic => exact read?_arithmetic ok holds
  | bitmask width => exact read?_bitmask ok holds
  | laneBitmask => exact read?_laneBitmask ok holds
  | target f => exact read?_target proper ok holds
  | code => exact read?_code ok holds
  | unsigned f => exact read?_unsigned ok holds
  | signed f => rw [read?, read?_signed proper ok holds, canonical]
  | byte isSigned shiftable =>
    cases same rfl rfl
    exact read?_byte ok holds
  | multiplier => exact read?_multiplier ok holds
  | term f source =>
    cases source with
    | reg => rw [read?, holds_one.mp holds, canonical]
    | imm => rw [read?, read?_signed proper ok holds, canonical]
  | scalarIndex =>
    cases same rfl rfl
    exact read?_scalarIndex ok holds
  | vectorIndex =>
    cases same rfl rfl
    exact read?_vectorIndex ok holds
  | pattern => exact read?_pattern ok holds
  | offset scale => exact read?_offset ok holds
  | registerOffset => exact read?_registerOffset ok holds
  | vectorOffset => exact read?_vectorOffset ok holds

end

end Slot

end ArmToolkit.A64
