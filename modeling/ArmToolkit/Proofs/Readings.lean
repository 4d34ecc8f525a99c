import ArmToolkit.Proofs.Slots

/-!
# `Proofs.Readings` — operands read from a word

## Contents
- **Fitting operands.** `Slot.Fits` says that a slot takes an operand, finds no fault in it and keeps all of it.
- **Marks.** `Sizing.marker?_spec`: the lane size that stands in front of an element index.
- **Readings.** `Slot.Reads` says that the operand fits and the word holds its values. Every operand that is read
  without a rotation is a reading (`Slot.reads_of_read?`); one with a rotation is a reading of the reduced encoding
  (`Slot.fits_bitmask`, `Slot.fits_laneBitmask`).
-/

namespace ArmToolkit.A64

/-! ## Marks -/

namespace Sizing

/-- The lowest set bit of a number and the bits above it. -/
theorem mod_of_lowest {n i : Nat} (set : n.testBit i = true) (clear : ∀ j < i, n.testBit j = false) :
    n % twoPow (i + 1) = twoPow i := by
  apply Nat.eq_of_testBit_eq
  intro j
  have low : (n % twoPow (i + 1)).testBit j = (decide (j < i + 1) && n.testBit j) := Nat.testBit_mod_two_pow n _ j
  have one : (twoPow i).testBit j = decide (i = j) := Nat.testBit_two_pow
  rw [low, one]
  rcases Nat.lt_trichotomy j i with below | rfl | above
  · simp [clear j below, show i ≠ j by omega]
  · simp [set]
  · simp [show ¬ j < i + 1 by omega, show i ≠ j by omega]

/-- **The marked lane size** is the place of the lowest set bit. -/
theorem marker?_spec {limit n : Nat} {l : LaneSize} (h : marker? limit n = some l) :
    l.log2 < limit ∧ n % twoPow (l.log2 + 1) = twoPow l.log2 := by
  obtain ⟨i, found, size⟩ := Option.bind_eq_some_iff.mp h
  obtain ⟨set, inside, clear⟩ := List.find?_range_eq_some.mp found
  have place : i = l.log2 := by
    have listed : LaneSize.all[i]? = some l := size
    rcases i with _ | _ | _ | _ | _ | i <;> simp [LaneSize.all] at listed <;> cases listed <;> rfl
  subst place
  refine ⟨List.mem_range.mp inside, mod_of_lowest set fun j hj => ?_⟩
  have := clear j hj
  simpa using this

end Sizing

namespace Slot

/-! ## Fitting operands -/

/-- **The operand is one that the slot can hold as it is.** -/
structure Fits (slot : Slot) (lane : Option LaneSize) (op : Operand) : Prop where
  accepted : slot.accepts op = true
  clean : slot.source.fault? lane op = none
  kept : slot.canonical lane lane op = op

/-- The lane size of the word is the one that the fields of the slot give, where they give one. -/
def LaneFrom (slot : Slot) (lane : Option LaneSize) (w : Word) : Prop :=
  match slot with
  | scalarIndex => Sizing.scalarIndex.read? w = some lane
  | vectorIndex => Sizing.vectorIndex.read? w = some lane
  | laneBitmask => Sizing.bitmask.read? w = some lane
  | again s => s.LaneFrom lane w
  | _ => True

/-- **The operand fits, and the word holds its values.** -/
def Reads (slot : Slot) (lane : Option LaneSize) (op : Operand) (w : Word) : Prop :=
  slot.Fits lane op ∧ Holds slot.source.fields (slot.source.values lane op) w

theorem Reads.of_eq {slot : Slot} {lane : Option LaneSize} {op built : Operand} {w : Word} (whole : op = built)
    (accepted : slot.accepts built = true) (kept : slot.canonical lane lane built = built)
    (clean : slot.source.fault? lane op = none) (holds : Holds slot.source.fields (slot.source.values lane op) w) :
    slot.Reads lane op w := by
  refine ⟨⟨?_, clean, ?_⟩, holds⟩
  · rw [whole, accepted]
  · rw [whole, kept]

/-! ## Readings -/

section

variable {w : Word} {op : Operand} {lane : Option LaneSize}

theorem get_mod (f : Field) (w : Word) : f.get w % twoPow f.width = f.get w := Nat.mod_eq_of_lt (f.get_lt w)

/-- An immediate made of a number. -/
theorem number_of_imm {n : Nat} (h : op.imm = natImm n) (lt : n < twoPow 63) : op.value = n ∧ op.imm.toNat = n := by
  rw [Operand.value, h]
  exact ⟨toInt_natImm lt, toNat_natImm (Nat.lt_of_lt_of_le lt (twoPow_le (by decide)))⟩

/-- An immediate made of a signed number. -/
theorem value_of_imm {z : Int} (h : op.imm = intImm z) (low : -(twoPow 63 : Int) ≤ z) (high : z < twoPow 63) :
    op.value = z := by
  rw [Operand.value, h]
  exact toInt_intImm low high

/-- The lowest bits of an immediate whose value is that of a signed field. -/
theorem number_of_signed {f : Field} (narrow : f.width ≤ 64) (value : op.value = f.getSigned w) :
    op.imm.toNat % twoPow f.width = f.get w := by
  have same : (op.imm.toNat : Int) % (twoPow f.width : Int) = f.get w := by
    rw [toNat_emod narrow, ← Field.getSigned_mod, ← value, Operand.value]
  rw [← Int.natCast_emod] at same
  exact Int.ofNat_inj.mp same

theorem ShiftType.code_ofCode {n : Nat} (h : n < 4) : (ShiftType.ofCode n).code = n := by
  rcases n with _ | _ | _ | _ | n
  · rfl
  · rfl
  · rfl
  · rfl
  · omega

theorem reads_shifted {width : Width} {rotates : Bool} (h : (shifted width rotates).read? lane w = some op) :
    (shifted width rotates).Reads lane op w := by
  simp only [read?] at h
  split at h
  · cases h
  · rename_i fine
    rw [Bool.or_eq_true, not_or, Bool.not_eq_true, decide_eq_true_eq] at fine
    have whole := (Option.some.inj h).symm
    have reg : op.reg = rm.get w := by rw [whole]; rfl
    have type : op.shiftType = ShiftType.ofCode (Field.get ⟨22, 2⟩ w) := by rw [whole]; rfl
    have shift : op.shift = Field.get ⟨10, 6⟩ w := by rw [whole]; rfl
    refine ⟨⟨?_, ?_, ?_⟩, holds_three.mpr ⟨?_, ?_, ?_⟩⟩
    · rw [whole]
      cases width <;> rfl
    · simp only [source, fault?, type, shift, fine.1, if_neg Bool.false_ne_true, ite_some_eq_none]
      exact Nat.lt_of_not_le fine.2
    · rw [canonical, reg, type, shift]
      exact (congrArg (fun n => Operand.shifted ⟨n, width⟩ _ _) (get_mod rm w)).trans whole.symm
    · rw [type, ShiftType.code_ofCode (Field.get_lt ⟨22, 2⟩ w), get_mod]
    · rw [reg, get_mod]
    · rw [shift, get_mod]

theorem reads_halfword {width : Width} (h : (halfword width).read? lane w = some op) :
    (halfword width).Reads lane op w := by
  simp only [read?] at h
  split at h
  · cases h
  · rename_i fine
    have whole := (Option.some.inj h).symm
    have lt : Field.get ⟨5, 16⟩ w < 65536 := Field.get_lt ⟨5, 16⟩ w
    have place : Field.get ⟨21, 2⟩ w < 4 := Field.get_lt ⟨21, 2⟩ w
    have shift : op.shift = 16 * Field.get ⟨21, 2⟩ w := by rw [whole]; rfl
    obtain ⟨value, number⟩ := number_of_imm (congrArg Operand.imm whole) (Nat.lt_trans lt (by decide))
    refine .of_eq whole rfl rfl ?_ (holds_two.mpr ⟨?_, ?_⟩)
    · simp only [source, fault?, orElse_eq_none, rangeFault?_eq_none, ite_some_eq_none, value, shift]
      omega
    · show _ = op.shift / 16 % 4
      omega
    · rw [number, get_mod]

theorem reads_arithmetic (h : arithmetic.read? lane w = some op) : arithmetic.Reads lane op w := by
  have whole := (Option.some.inj h).symm
  have lt : Field.get ⟨10, 12⟩ w < 4096 := Field.get_lt ⟨10, 12⟩ w
  have place : Field.get ⟨22, 1⟩ w < 2 := Field.get_lt ⟨22, 1⟩ w
  have shift : op.shift = 12 * Field.get ⟨22, 1⟩ w := by rw [whole]; rfl
  obtain ⟨value, number⟩ := number_of_imm (congrArg Operand.imm whole) (Nat.lt_trans lt (by decide))
  refine .of_eq whole rfl rfl ?_ (holds_two.mpr ⟨?_, ?_⟩)
  · simp only [source, fault?, orElse_eq_none, rangeFault?_eq_none, ite_some_eq_none, value, shift]
    omega
  · show _ = (if op.shift = 0 then 0 else 1) % 2
    rw [shift]
    split <;> omega
  · rw [number, get_mod]

theorem reads_target {f : Field} (proper : (target f).Proper) (h : (target f).read? lane w = some op) :
    (target f).Reads lane op w := by
  have whole := (Option.some.inj h).symm
  obtain ⟨k, hk⟩ : ∃ k, f.width = k + 1 := ⟨f.width - 1, by have := proper.1; omega⟩
  have narrow : k + 1 + 1 ≤ 63 := by have := proper.2; omega
  obtain ⟨low, high⟩ := Field.getSigned_bounds hk w
  -- a distance of `k + 1` words is one of `k + 3` bits, which does not wrap
  have fits : (4 * twoPow k : Int) ≤ twoPow 63 := by
    have := twoPow_le narrow
    have := Field.double_twoPow k
    have := Field.double_twoPow (k + 1)
    omega
  have value : op.value = 4 * f.getSigned w :=
    value_of_imm (congrArg Operand.imm whole) (by omega) (by omega)
  refine .of_eq whole rfl rfl ?_ (holds_one.mpr ?_)
  · rw [source, fault?, ite_some_eq_none, value, hk, Field.double_twoPow, Field.double_twoPow]
    · omega
    · exact fun _ => Slot.noConfusion
  · have same : ((op.imm.toNat / 4 : Nat) : Int) % (twoPow f.width : Int) = f.get w := by
      rw [toNat_quarter_emod (by omega), ← Field.getSigned_mod, ← Operand.value, value]
      congr 1
      omega
    rw [← Int.natCast_emod] at same
    exact (Int.ofNat_inj.mp same).symm

theorem reads_code (h : code.read? lane w = some op) : code.Reads lane op w := by
  have whole := (Option.some.inj h).symm
  have lt : Field.get ⟨5, 16⟩ w < 65536 := Field.get_lt ⟨5, 16⟩ w
  have shift : op.shift = 0 := by rw [whole]; rfl
  obtain ⟨value, number⟩ := number_of_imm (congrArg Operand.imm whole) (Nat.lt_trans lt (by decide))
  refine .of_eq whole rfl rfl ?_ (holds_one.mpr ?_)
  · simp only [source, fault?, orElse_eq_none, rangeFault?_eq_none, shiftFault?_eq_none, value, shift, and_true]
    omega
  · rw [number, get_mod]

theorem reads_unsigned {f : Field} (proper : (unsigned f).Proper) (h : (unsigned f).read? lane w = some op) :
    (unsigned f).Reads lane op w := by
  have whole := (Option.some.inj h).symm
  have lt := f.get_lt w
  have narrow : f.width ≤ 62 := proper
  have shift : op.shift = 0 := by rw [whole]; rfl
  obtain ⟨value, number⟩ :=
    number_of_imm (congrArg Operand.imm whole) (Nat.lt_of_lt_of_le lt (twoPow_le (Nat.le_succ_of_le narrow)))
  refine .of_eq whole rfl rfl ?_ (holds_one.mpr ?_)
  · simp only [source, fault?, orElse_eq_none, rangeFault?_eq_none, shiftFault?_eq_none, value, shift, and_true]
    omega
  · rw [number, get_mod]

theorem clean_signed {f : Field} (proper : SignedField f 0) (h : op = .ofImm (intImm (f.getSigned w))) :
    signedFault? f op = none ∧ Holds [f] [op.imm.toNat] w := by
  obtain ⟨k, hk⟩ : ∃ k, f.width = k + 1 := ⟨f.width - 1, by have := proper.1; omega⟩
  have narrow : k ≤ 63 := by have := proper.2; omega
  have := twoPow_le narrow
  obtain ⟨low, high⟩ := Field.getSigned_bounds hk w
  have shift : op.shift = 0 := by rw [h]; rfl
  have value : op.value = f.getSigned w := value_of_imm (congrArg Operand.imm h) (by omega) (by omega)
  constructor
  · simp only [signedFault?, orElse_eq_none, rangeFault?_eq_none, shiftFault?_eq_none, value, shift, and_true, hk,
      Nat.add_sub_cancel]
    omega
  · exact holds_one.mpr (number_of_signed (by omega) value).symm

theorem reads_byte {isSigned shiftable : Bool} (h : (byte isSigned shiftable).read? lane w = some op) :
    (byte isSigned shiftable).Reads lane op w := by
  simp only [read?] at h
  split at h
  · cases h
  · rename_i fine
    have whole := (Option.some.inj h).symm
    have place : Field.get ⟨13, 1⟩ w < 2 := Field.get_lt ⟨13, 1⟩ w
    have shift : op.shift = if Field.get ⟨13, 1⟩ w = 1 then 8 else 0 := by rw [whole]; rfl
    -- the field is read as it is checked, with a sign or without one
    have range : (if isSigned then rangeFault? op.value (-128) 127 else rangeFault? op.value 0 255) = none ∧
        op.imm.toNat % twoPow 8 = Field.get ⟨5, 8⟩ w := by
      cases isSigned with
      | true =>
        obtain ⟨low, high⟩ := Field.getSigned_bounds (f := ⟨5, 8⟩) (k := 7) rfl w
        have low : -128 ≤ Field.getSigned ⟨5, 8⟩ w := low
        have high : Field.getSigned ⟨5, 8⟩ w < 128 := high
        have wide : (128 : Int) < twoPow 63 := by decide
        have value : op.value = Field.getSigned ⟨5, 8⟩ w :=
          value_of_imm (congrArg Operand.imm whole) (by omega) (by omega)
        refine ⟨?_, number_of_signed (f := ⟨5, 8⟩) (by decide) value⟩
        rw [if_pos rfl, rangeFault?_eq_none, value]
        omega
      | false =>
        have lt : Field.get ⟨5, 8⟩ w < 256 := Field.get_lt ⟨5, 8⟩ w
        obtain ⟨value, number⟩ := number_of_imm (congrArg Operand.imm whole) (Nat.lt_trans lt (by decide))
        rw [number]
        refine ⟨?_, get_mod ⟨5, 8⟩ w⟩
        rw [if_neg (by decide), rangeFault?_eq_none, value]
        omega
    refine .of_eq whole rfl rfl ?_ (holds_two.mpr ⟨?_, range.2.symm⟩)
    · simp only [source, fault?, orElse_eq_none, range.1, and_true, shift]
      by_cases marked : Field.get ⟨13, 1⟩ w = 1
      · simp_all
      · simp [marked]
    · show _ = (if op.shift = 0 then 0 else 1) % 2
      rw [shift]
      split <;> split <;> omega

theorem reads_multiplier (h : multiplier.read? lane w = some op) : multiplier.Reads lane op w := by
  have whole := (Option.some.inj h).symm
  have lt : Field.get ⟨16, 4⟩ w < 16 := Field.get_lt ⟨16, 4⟩ w
  have shift : op.shift = 0 := by rw [whole]; rfl
  have wide : 17 < twoPow 63 := by decide
  obtain ⟨value, number⟩ := number_of_imm (congrArg Operand.imm whole) (by omega)
  refine .of_eq whole rfl rfl ?_ (holds_one.mpr ?_)
  · simp only [source, fault?, orElse_eq_none, rangeFault?_eq_none, shiftFault?_eq_none, value, shift, and_true]
    omega
  · show _ = (op.imm.toNat - 1) % 16
    omega

/-- A number whose lowest set bit is the mark of a lane size is the marked index. -/
theorem markedIndex_of_lowest {n : Nat} {l : LaneSize} (number : op.imm.toNat = n / twoPow (l.log2 + 1))
    (lowest : n % twoPow (l.log2 + 1) = twoPow l.log2) : markedIndex (some l) op = n := by
  have parts := Nat.div_add_mod n (twoPow (l.log2 + 1))
  rw [lowest, ← number, twoPow_succ] at parts
  rw [← parts, markedIndex, laneLog2]
  ring

theorem reads_scalarIndex (marked : Sizing.scalarIndex.read? w = some lane) (h : scalarIndex.read? lane w = some op) :
    scalarIndex.Reads lane op w := by
  have whole := (Option.some.inj h).symm
  obtain ⟨l, mark, rfl⟩ := Option.map_eq_some_iff.mp marked
  obtain ⟨size, lowest⟩ := Sizing.marker?_spec mark
  have lt : Field.get ⟨16, 5⟩ w < 32 := Field.get_lt ⟨16, 5⟩ w
  have shift : op.shift = 0 := by rw [whole]; rfl
  have wide : 32 < twoPow 63 := by decide
  obtain ⟨value, number⟩ := number_of_imm (congrArg Operand.imm whole)
    (Nat.lt_of_le_of_lt (Nat.div_le_self _ _) (by omega))
  refine .of_eq whole rfl rfl ?_ (holds_one.mpr ?_)
  · simp only [source, fault?, orElse_eq_none, rangeFault?_eq_none, shiftFault?_eq_none, value, shift, and_true]
    cases l <;> simp only [laneLog2, LaneSize.log2, twoPow, Nat.pow_eq] at lowest size ⊢ <;> omega
  · rw [markedIndex_of_lowest number lowest, get_mod]

theorem reads_vectorIndex (marked : Sizing.vectorIndex.read? w = some lane) (h : vectorIndex.read? lane w = some op) :
    vectorIndex.Reads lane op w := by
  have whole := (Option.some.inj h).symm
  obtain ⟨l, mark, rfl⟩ := Option.map_eq_some_iff.mp marked
  obtain ⟨size, lowest⟩ := Sizing.marker?_spec mark
  have upper : Field.get ⟨22, 2⟩ w < 4 := Field.get_lt ⟨22, 2⟩ w
  have lower : Field.get ⟨16, 5⟩ w < 32 := Field.get_lt ⟨16, 5⟩ w
  have shift : op.shift = 0 := by rw [whole]; rfl
  have wide : 128 < twoPow 63 := by decide
  obtain ⟨value, number⟩ := number_of_imm (congrArg Operand.imm whole)
    (Nat.lt_of_le_of_lt (Nat.div_le_self _ _) (by omega))
  -- the mark is in the lower of the two fields
  have low : (32 * Field.get ⟨22, 2⟩ w + Field.get ⟨16, 5⟩ w) % twoPow (l.log2 + 1) = twoPow l.log2 := by
    cases l <;> simp only [LaneSize.log2, twoPow, Nat.pow_eq] at lowest ⊢ <;> omega
  have index := markedIndex_of_lowest number low
  refine .of_eq whole rfl rfl ?_ (holds_two.mpr ⟨?_, ?_⟩)
  · simp only [source, fault?, orElse_eq_none, rangeFault?_eq_none, shiftFault?_eq_none, value, shift, true_and]
    cases l <;> simp only [laneLog2, LaneSize.log2, twoPow, Nat.pow_eq] at low size ⊢ <;> omega
  · show _ = markedIndex (some l) op / 32 % 4
    omega
  · show _ = markedIndex (some l) op % 32
    omega

theorem reads_pattern (h : pattern.read? lane w = some op) : pattern.Reads lane op w := by
  have whole := (Option.some.inj h).symm
  have lt : Field.get ⟨5, 5⟩ w < 32 := Field.get_lt ⟨5, 5⟩ w
  obtain ⟨value, number⟩ := number_of_imm (congrArg Operand.imm whole) (Nat.lt_trans lt (by decide))
  refine ⟨⟨?_, ?_, ?_⟩, holds_one.mpr ?_⟩
  · rw [whole]
    rfl
  · simp only [source, fault?, rangeFault?_eq_none, value]
    omega
  · rw [canonical, number]
    exact whole.symm
  · rw [number, get_mod]

theorem reads_offset {scale : Nat} (proper : (offset scale).Proper) (h : (offset scale).read? lane w = some op) :
    (offset scale).Reads lane op w := by
  have whole := (Option.some.inj h).symm
  have lt : Field.get ⟨10, 12⟩ w < 4096 := Field.get_lt ⟨10, 12⟩ w
  have reg : op.reg = rn.get w := by rw [whole]; rfl
  have kept : op.reg % twoPow 5 = op.reg := by rw [reg]; exact get_mod rn w
  have pos := twoPow_pos scale
  have fits : twoPow scale * Field.get ⟨10, 12⟩ w < twoPow 63 := by
    calc twoPow scale * Field.get ⟨10, 12⟩ w < twoPow scale * twoPow 12 := Nat.mul_lt_mul_of_pos_left lt pos
      _ = twoPow (scale + 12) := (twoPow_add scale 12).symm
      _ ≤ twoPow 63 := twoPow_le (by have : scale ≤ 50 := proper; omega)
  obtain ⟨value, number⟩ := number_of_imm (congrArg Operand.imm whole) fits
  refine ⟨⟨?_, ?_, ?_⟩, holds_two.mpr ⟨?_, ?_⟩⟩
  · rw [whole]
    rfl
  · simp only [source, fault?, ite_some_eq_none, value]
    rw [Int.natCast_mul, Int.mul_emod_right, Int.mul_ediv_cancel_left _ (by omega)]
    refine ⟨rfl, ?_, by omega⟩
    rw [← Int.natCast_mul]
    exact Int.natCast_nonneg _
  · rw [canonical, kept, whole]
    rfl
  · show _ = op.imm.toNat / twoPow scale % 4096
    rw [number, Nat.mul_div_cancel_left _ pos]
    omega
  · rw [reg, get_mod]

theorem reads_registerOffset (h : registerOffset.read? lane w = some op) : registerOffset.Reads lane op w := by
  have whole := (Option.some.inj h).symm
  have lower : Field.get ⟨10, 3⟩ w < 8 := Field.get_lt ⟨10, 3⟩ w
  obtain ⟨low, high⟩ := Field.getSigned_bounds (f := ⟨16, 6⟩) (k := 5) rfl w
  have low : -32 ≤ Field.getSigned ⟨16, 6⟩ w := low
  have high : Field.getSigned ⟨16, 6⟩ w < 32 := high
  have upper : Field.getSigned ⟨16, 6⟩ w % 64 = Field.get ⟨16, 6⟩ w := Field.getSigned_mod ⟨16, 6⟩ w
  have reg : op.reg = rn.get w := by rw [whole]; rfl
  have kept : op.reg % twoPow 5 = op.reg := by rw [reg]; exact get_mod rn w
  have wide : (512 : Int) < twoPow 63 := by decide
  have value : op.value = 8 * Field.getSigned ⟨16, 6⟩ w + Field.get ⟨10, 3⟩ w :=
    value_of_imm (congrArg Operand.imm whole) (by omega) (by omega)
  -- the lowest nine bits do not depend on the sign
  have same : (op.imm.toNat : Int) % 512 = op.value % 512 := toNat_emod (k := 9) (by decide)
  refine ⟨⟨?_, ?_, ?_⟩, holds_three.mpr ⟨?_, ?_, ?_⟩⟩
  · rw [whole]
    rfl
  · simp only [source, fault?, vectorOffsetFault?, ite_some_eq_none]
    show -256 ≤ op.value ∧ op.value < 256
    omega
  · rw [canonical, kept, whole]
    rfl
  · show _ = op.imm.toNat / 8 % 64
    omega
  · show _ = op.imm.toNat % 8
    omega
  · rw [reg, get_mod]

theorem reads_vectorOffset (h : vectorOffset.read? lane w = some op) : vectorOffset.Reads lane op w := by
  have whole := (Option.some.inj h).symm
  obtain ⟨low, high⟩ := Field.getSigned_bounds (f := ⟨16, 4⟩) (k := 3) rfl w
  have low : -8 ≤ Field.getSigned ⟨16, 4⟩ w := low
  have high : Field.getSigned ⟨16, 4⟩ w < 8 := high
  have reg : op.reg = rn.get w := by rw [whole]; rfl
  have kept : op.reg % twoPow 5 = op.reg := by rw [reg]; exact get_mod rn w
  have wide : (8 : Int) < twoPow 63 := by decide
  have value : op.value = Field.getSigned ⟨16, 4⟩ w :=
    value_of_imm (congrArg Operand.imm whole) (by omega) (by omega)
  refine ⟨⟨?_, ?_, ?_⟩, holds_two.mpr ⟨?_, ?_⟩⟩
  · rw [whole]
    rfl
  · simp only [source, fault?, vectorOffsetFault?, ite_some_eq_none]
    show -8 ≤ op.value ∧ op.value < 8
    omega
  · rw [canonical, kept, whole]
    rfl
  · exact (number_of_signed (f := ⟨16, 4⟩) (by decide) value).symm
  · rw [reg, get_mod]

theorem reads_generalOfLane {f : Field} {c : Code31} (h : (generalOfLane f c).read? lane w = some op) :
    (generalOfLane f c).Reads lane op w := by
  have whole := (Option.some.inj h).symm
  have reg : op.reg = f.get w := by rw [whole]; rfl
  have kept : op.reg % twoPow f.width = op.reg := by rw [reg]; exact get_mod f w
  have width : (op.kind == .x) = isDouble lane := by
    rw [whole]
    cases isDouble lane <;> rfl
  refine ⟨⟨?_, ?_, ?_⟩, holds_one.mpr ?_⟩
  · rw [whole]
    cases isDouble lane <;> rfl
  · exact if_pos width
  · rw [canonical, kept, reg]
    exact whole.symm
  · rw [reg, get_mod]

/-- A slot for a register, whose operand is made from the code in its field. -/
theorem reads_register {slot : Slot} {f : Field} (build : Nat → Operand) (code : ∀ n, (build n).reg = n)
    (read : slot.read? lane w = some (build (f.get w))) (accepted : ∀ n, slot.accepts (build n) = true)
    (clean : ∀ op, slot.source.fault? lane op = none)
    (canonical : ∀ op, slot.canonical lane lane op = build (op.reg % twoPow f.width))
    (fields : slot.source.fields = [f]) (values : ∀ op, slot.source.values lane op = [op.reg])
    (h : slot.read? lane w = some op) : slot.Reads lane op w := by
  have whole : op = build (f.get w) := Option.some.inj (h.symm.trans read)
  refine ⟨⟨?_, clean op, ?_⟩, ?_⟩
  · rw [whole, accepted]
  · rw [canonical, whole, code, get_mod]
  · rw [fields, values, whole, code]
    exact holds_get f w

theorem reads_governing {f m : Field} (proper : (governing f m).Proper)
    (h : (governing f m).read? lane w = some op) : (governing f m).Reads lane op w := by
  have whole := (Option.some.inj h).symm
  have one : m.width = 1 := proper
  have bit : m.get w < 2 := by
    have := m.get_lt w
    rw [one] at this
    exact this
  have reg : op.reg = f.get w := by rw [whole]; rfl
  have kept : op.reg % twoPow f.width = op.reg := by rw [reg]; exact get_mod f w
  have qualifier : op.qualifier = some (if m.get w = 1 then .merging else .zeroing) := by rw [whole]; rfl
  refine ⟨⟨?_, rfl, ?_⟩, holds_two.mpr ⟨?_, ?_⟩⟩
  · rw [whole]
    rfl
  · rw [canonical, kept, reg, qualifier]
    exact whole.symm
  · rw [reg, get_mod]
  · rw [qualifier, one]
    show _ = (if _ then 1 else 0) % 2
    by_cases merges : m.get w = 1
    · simp [merges]
    · simp [merges]
      omega

/-- **Every operand that is read is a reading**, where nothing rotates. -/
theorem reads_of_read? {slot : Slot} (proper : slot.Proper) (size : slot.LaneFrom lane w)
    (plain : slot.rotates = false) (h : slot.read? lane w = some op) : slot.Reads lane op w := by
  -- a slot that repeats another one reads as that one does; every other slot has a lemma of its own
  induction slot with
  | general f width c =>
    exact reads_register (fun n => .ofX ⟨n, width⟩) (fun _ => rfl) rfl (by cases width <;> exact fun _ => rfl)
      (fun _ => rfl) (fun _ => rfl) rfl (fun _ => rfl) h
  | generalOfLane f c => exact reads_generalOfLane h
  | shifted width rotates => exact reads_shifted h
  | scalarAt f l =>
    exact reads_register (fun n => .ofV ⟨n, some l⟩) (fun _ => rfl) rfl (fun _ => by simp [accepts, Operand.ofV])
      (fun _ => rfl) (fun _ => rfl) rfl (fun _ => rfl) h
  | scalar f rule =>
    exact reads_register (fun n => .ofV ⟨n, rule.apply lane⟩) (fun _ => rfl) rfl (fun _ => rfl) (fun _ => rfl)
      (fun _ => rfl) rfl (fun _ => rfl) h
  | vector f rule =>
    exact reads_register (fun n => .ofZ ⟨n, rule.apply lane⟩) (fun _ => rfl) rfl (fun _ => rfl) (fun _ => rfl)
      (fun _ => rfl) rfl (fun _ => rfl) h
  | predicate f rule q =>
    exact reads_register (fun n => .ofP ⟨n, rule.apply lane, q⟩) (fun _ => rfl) rfl
      (fun _ => by simp [accepts, Operand.ofP]) (fun _ => rfl) (fun _ => rfl) rfl (fun _ => rfl) h
  | governing f m => exact reads_governing proper h
  | again s ih =>
    obtain ⟨fits, holds⟩ := ih proper size plain h
    exact ⟨⟨fits.accepted, fits.clean, fits.kept⟩, holds⟩
  | halfword width => exact reads_halfword h
  | arithmetic => exact reads_arithmetic h
  | bitmask width => cases plain
  | laneBitmask => cases plain
  | target f => exact reads_target proper h
  | code => exact reads_code h
  | unsigned f => exact reads_unsigned proper h
  | signed f =>
    have whole := (Option.some.inj h).symm
    obtain ⟨clean, holds⟩ := clean_signed proper whole
    exact .of_eq whole rfl rfl clean holds
  | byte isSigned shiftable => exact reads_byte h
  | multiplier => exact reads_multiplier h
  | term f source =>
    cases source with
    | reg =>
      obtain ⟨fits, holds⟩ := reads_generalOfLane (c := .zero) h
      exact ⟨⟨fits.accepted, fits.clean, fits.kept⟩, holds⟩
    | imm =>
      have whole := (Option.some.inj h).symm
      obtain ⟨clean, holds⟩ := clean_signed proper whole
      exact .of_eq whole rfl rfl clean holds
  | scalarIndex => exact reads_scalarIndex size h
  | vectorIndex => exact reads_vectorIndex size h
  | pattern => exact reads_pattern h
  | offset scale => exact reads_offset proper h
  | registerOffset => exact reads_registerOffset h
  | vectorOffset => exact reads_vectorOffset h

/-! ## Rotations -/

/-- An immediate below a power of two fits in that many bits. -/
theorem fitsEither_of_lt {bits : Nat} {v : BitVec 64} (narrow : bits ≤ 63) (h : v.toNat < twoPow bits) :
    fitsEither bits v.toInt = true := by
  have := twoPow_le narrow
  have : twoPow 63 = 2 ^ 63 := rfl
  have value : v.toInt = v.toNat := by
    rw [BitVec.toInt_eq_toNat_cond]
    split <;> omega
  rw [fitsEither, decide_eq_true_eq, value]
  omega

theorem fitsEither_all (v : BitVec 64) : fitsEither 64 v.toInt = true := by
  have low : -(2 ^ 63) ≤ v.toInt := BitVec.le_toInt v
  have high : v.toInt < 2 ^ 63 := BitVec.toInt_lt
  rw [fitsEither, decide_eq_true_eq]
  exact .inr ⟨low, high⟩

theorem toNat_and_onesBelow_lt (v : BitVec 64) {bits : Nat} (narrow : bits < 64) :
    (v &&& BitmaskImmediate.onesBelow bits).toNat < twoPow bits := by
  have pos := twoPow_pos bits
  have small : twoPow bits - 1 < 2 ^ 64 := by
    have : twoPow bits ≤ 2 ^ 64 := twoPow_le (Nat.le_of_lt narrow)
    omega
  rw [BitVec.toNat_and, BitmaskImmediate.onesBelow, if_neg (by omega), BitVec.toNat_ofNat, Nat.mod_eq_of_lt small]
  exact Nat.lt_of_le_of_lt Nat.and_le_right (by omega)

/-- **A bitmask immediate of a general register is read** as an operand whose encoding has its rotation reduced. -/
theorem fits_bitmask {width : Width} (h : (bitmask width).read? lane w = some op) :
    (bitmask width).Fits lane op ∧ ∃ v e, BitmaskImmediate.decode? (Field.get ⟨10, 13⟩ w) width.bits = some (v, e) ∧
      bitmask? width op = some (BitmaskImmediate.reduceRotation e (Field.get ⟨10, 13⟩ w)) := by
  obtain ⟨⟨v, e⟩, read, built⟩ := Option.map_eq_some_iff.mp h
  have whole := built.symm
  have lt : Field.get ⟨10, 13⟩ w < 8192 := Field.get_lt ⟨10, 13⟩ w
  have shift : op.shift = 0 := by rw [whole]; rfl
  have imm : op.imm = v := by rw [whole]; rfl
  cases width with
  | w =>
    -- a decoded 32-bit value has no bits above its register
    have narrow : v &&& BitmaskImmediate.onesBelow 32 = v := by
      have half := read
      rw [Width.bits, BitmaskImmediate.decode?_word] at half
      split at half
      · obtain ⟨p, -, same⟩ := Option.map_eq_some_iff.mp half
        have cut : p.1 &&& BitmaskImmediate.onesBelow 32 = v := congrArg Prod.fst same
        rw [← cut, BitVec.and_assoc, BitVec.and_self]
      · cases half
    have encoded : bitmask? .w op = some (BitmaskImmediate.reduceRotation e (Field.get ⟨10, 13⟩ w)) := by
      rw [bitmask?, imm, narrow]
      exact BitmaskImmediate.encode?_of_decode? (.inl rfl) lt read
    refine ⟨⟨?_, ?_, ?_⟩, v, e, read, encoded⟩
    · rw [whole]
      rfl
    · have fits : fitsEither 32 op.value = true := by
        rw [Operand.value, imm, ← narrow]
        exact fitsEither_of_lt (by decide) (toNat_and_onesBelow_lt v (by decide))
      simp [source, fault?, shiftFault?, shift, fits, encoded]
    · rw [canonical, imm, narrow]
      exact whole.symm
  | x =>
    have encoded : bitmask? .x op = some (BitmaskImmediate.reduceRotation e (Field.get ⟨10, 13⟩ w)) := by
      rw [bitmask?, imm]
      exact BitmaskImmediate.encode?_of_decode? (.inr rfl) lt read
    refine ⟨⟨?_, ?_, ?_⟩, v, e, read, encoded⟩
    · rw [whole]
      rfl
    · simp [source, fault?, shiftFault?, shift, encoded]
    · rw [canonical, imm]
      exact whole.symm

/-- The lane size of a bitmask immediate is one of four, and holds whole elements. -/
theorem laneOfBits_spec {e : Nat} (size : e ∈ BitmaskImmediate.sizes) :
    (Sizing.laneOfBits e).bits ∈ BitmaskImmediate.sizes ∧ e ≤ (Sizing.laneOfBits e).bits := by
  have all : ∀ e ∈ BitmaskImmediate.sizes,
      (Sizing.laneOfBits e).bits ∈ BitmaskImmediate.sizes ∧ e ≤ (Sizing.laneOfBits e).bits := by decide
  exact all e size

/-- **A bitmask immediate of the lanes of a vector is read** in the same way, cut to its lane size. -/
theorem fits_laneBitmask (size : Sizing.bitmask.read? w = some lane) (h : laneBitmask.read? lane w = some op) :
    laneBitmask.Fits lane op ∧ ∃ v e, BitmaskImmediate.decode? (Field.get ⟨5, 13⟩ w) 64 = some (v, e) ∧
      BitmaskImmediate.replicate op.imm (laneBits lane) = v ∧
      laneBitmask? lane op = some (BitmaskImmediate.reduceRotation e (Field.get ⟨5, 13⟩ w)) := by
  obtain ⟨⟨v, e⟩, read, built⟩ := Option.map_eq_some_iff.mp h
  have lt : Field.get ⟨5, 13⟩ w < 8192 := Field.get_lt ⟨5, 13⟩ w
  rw [Sizing.read?, read, Option.map_some, Option.some.injEq] at size
  subst size
  obtain ⟨known, -, repeats⟩ := BitmaskImmediate.decode?_period lt read
  obtain ⟨lane, le⟩ := laneOfBits_spec known
  generalize Sizing.laneOfBits e = l at *
  have whole := built.symm
  have shift : op.shift = 0 := by rw [whole]; rfl
  have imm : op.imm = v &&& BitmaskImmediate.onesBelow l.bits := by rw [whole]; rfl
  have full : BitmaskImmediate.replicate op.imm l.bits = v := by
    rw [imm]
    exact BitmaskImmediate.replicate_element (BitmaskImmediate.size_pos lane) (repeats _ lane le)
  have encoded : laneBitmask? (some l) op = some (BitmaskImmediate.reduceRotation e (Field.get ⟨5, 13⟩ w)) := by
    rw [laneBitmask?, laneBits, full]
    exact BitmaskImmediate.encode?_of_decode? (.inr rfl) lt read
  refine ⟨⟨?_, ?_, ?_⟩, v, e, read, full, encoded⟩
  · rw [whole]
    rfl
  · have fits : fitsEither l.bits op.value = true := by
      -- cut to a narrow lane the immediate has no sign, and a doubleword holds all values
      by_cases wide : l.bits = 64
      · rw [wide]
        exact fitsEither_all op.imm
      · have narrow : l.bits < 64 := by
          have := BitmaskImmediate.size_le lane
          omega
        rw [Operand.value, imm]
        exact fitsEither_of_lt (by omega) (toNat_and_onesBelow_lt v narrow)
    simp [source, fault?, shiftFault?, shift, laneBits, fits, encoded]
  · rw [canonical, laneBits, full]
    exact whole.symm

end

end Slot

end ArmToolkit.A64
