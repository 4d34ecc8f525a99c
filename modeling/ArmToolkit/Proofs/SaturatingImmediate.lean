import ArmToolkit.Proofs.ElementArithmetic
import ArmToolkit.Proofs.WideImmediate

/-!
# `Proofs.SaturatingImmediate` — signed saturating sums and differences with an immediate

The instruction with an immediate takes it as an unsigned number, and adds its exact value. An immediate that the
instruction does not take goes through a scratch vector, whose lanes are read as signed numbers: there an immediate from
the middle of the range of the lane on stands for a negative number.

## Contents
- **Immediates of the instruction.** `LaneSize.Takes`: the immediates that the instruction takes, and no others
  (`Assembler.destructiveImmediate?_isSome_iff`).
- **The immediate that is used.** `LaneSize.used` is the number that is added or subtracted. It is the immediate or, from
  the middle of the range on, another (`LaneSize.used_eq`), and then no result is right (`nearestSigned_ne`).
- **The macro.** What its words leave in the lanes of the destination, and when that is the exact result brought into range
  (`Assembler.saturating_computes`).
-/

namespace ArmToolkit.A64

/-! ## Immediates of the instruction -/

/-- The signed saturating sum or difference with an immediate. -/
def ImmediateOp.saturating (subtracts : Bool) : ImmediateOp := if subtracts then .sqsub else .sqadd

/-- **An immediate that the instruction takes**: an unsigned byte or, with lanes wider than a byte, one that is shifted
    by eight. -/
def LaneSize.Takes (l : LaneSize) (imm : BitVec 64) : Prop :=
  imm.toNat ≤ 255 ∨ l ≠ .b ∧ imm.toNat % 256 = 0 ∧ imm.toNat ≤ 65280

instance (l : LaneSize) (imm : BitVec 64) : Decidable (l.Takes imm) := inferInstanceAs (Decidable (_ ∨ _))

/-- What the slot of the immediate takes. -/
theorem Slot.byte_fault?_eq_none {l : LaneSize} {v : BitVec 64} {s : Nat} :
    (byte false true).fault? (some l) (.shiftedImm v s) = none ↔
      (s = 0 ∨ s = 8 ∧ l ≠ .b) ∧ 0 ≤ v.toInt ∧ v.toInt ≤ 255 := by
  have range : (0 ≤ v.toInt ∧ v.toInt ≤ 255) ↔ rangeFault? v.toInt 0 255 = none := rangeFault?_eq_none.symm
  rw [range]
  unfold fault?
  rw [orElse_eq_none]
  refine and_congr ?_ Iff.rfl
  show (if s = 0 then none else _) = none ↔ _
  by_cases plain : s = 0
  · simp [plain]
  · rw [if_neg plain]
    by_cases eight : s = 8
    · simp [eight, Operand.shiftedImm]
    · simp [eight, plain, Operand.shiftedImm]

/-- An immediate that the instruction takes, and that is no byte, is a byte that is shifted. -/
theorem byteShifted?_of_takes {l : LaneSize} {imm : BitVec 64} (takes : l.Takes imm) (large : ¬ imm.toNat ≤ 255) :
    l ≠ .b ∧ ∃ v, byteShifted? (some l) imm = some v ∧ 0 ≤ v.toInt ∧ v.toInt ≤ 255 := by
  obtain ⟨wide, whole, small⟩ := takes.resolve_left large
  have number : imm.toInt = imm.toNat := by rw [BitVec.toInt_eq_toNat_cond, if_pos (by omega)]
  have half : twoPow 63 = 9223372036854775808 := by decide
  have quotient : (BitVec.ofInt 64 (imm.toInt / 256)).toInt = imm.toInt / 256 :=
    toInt_word (by omega) (by omega)
  refine ⟨wide, BitVec.ofInt 64 (imm.toInt / 256), if_pos ⟨by simpa using wide, ?_, by omega⟩, by omega, by omega⟩
  rintro rfl
  exact large (by decide)

namespace Assembler

variable {l : LaneSize} {zd : Nat} {imm : BitVec 64}

/-- The instruction can be encoded for the immediates that its slot takes. -/
theorem tryEncode?_saturating (subtracts : Bool) {v : BitVec 64} {s : Nat} (allowed : l ∈ Form.bhsd) (hzd : zd < 32) :
    (tryEncode? (ImmediateOp.saturating subtracts).op.mnemonic
      [.ofZ ⟨zd, some l⟩, .ofZ ⟨zd, some l⟩, .shiftedImm v s]).isSome = true ↔
      (s = 0 ∨ s = 8 ∧ l ≠ .b) ∧ 0 ≤ v.toInt ∧ v.toInt ≤ 255 := by
  have replaces := immediate_replaces (l := l) hzd (.saturating subtracts) v s
  have slot : (Form.immediate (.saturating subtracts)).slots[2]? = some (.byte false true) := by cases subtracts <;> rfl
  rw [← Slot.byte_fault?_eq_none]
  constructor
  · intro found
    obtain ⟨w, tried⟩ := Option.isSome_iff_exists.mp found
    obtain ⟨encodes, -⟩ := tryEncode?_eq_some (f := .immediate (.saturating subtracts)) replaces.accepted tried
    exact encodes.passes (c := .value 2) (by simp [Form.checks]) _ slot
  · intro clean
    refine Option.isSome_iff_exists.mpr ⟨_, tryEncode?_of_encodes (replaces.encodes ?_)⟩
    simp only [Form.checks, List.forall_mem_cons]
    refine ⟨⟨l, allowed, rfl⟩, rfl, rfl, fun s' hs => ?_, List.forall_mem_nil _⟩
    cases slot.symm.trans hs
    exact clean

/-- **A word is found for the immediates that the instruction takes.** -/
theorem destructiveImmediate?_isSome_iff (subtracts : Bool) (allowed : l ∈ Form.bhsd) (hzd : zd < 32) :
    (destructiveImmediate? (.saturating subtracts) ⟨zd, some l⟩ imm).isSome = true ↔ l.Takes imm := by
  constructor
  · intro found
    obtain ⟨w, found⟩ := Option.isSome_iff_exists.mp found
    obtain ⟨v, s, tried, rfl⟩ := byteImmediate?_eq_some found
    obtain ⟨shift, low, high⟩ := (tryEncode?_saturating subtracts allowed hzd).mp (Option.isSome_iff_exists.mpr ⟨w, tried⟩)
    have number := Slot.toNat_eq_toInt low
    rcases shift with rfl | ⟨rfl, wide⟩
    · exact .inl (by rw [BitVec.shiftLeft_zero]; omega)
    · have shifted : (v <<< 8).toNat = v.toNat * 256 := by
        rw [BitVec.toNat_shiftLeft, Nat.shiftLeft_eq]
        exact Nat.mod_eq_of_lt (by omega)
      exact .inr ⟨wide, by omega, by omega⟩
  · intro takes
    unfold destructiveImmediate? byteImmediate?
    cases plain : tryEncode? (ImmediateOp.saturating subtracts).op.mnemonic
        ([.ofZ ⟨zd, some l⟩, .ofZ ⟨zd, some l⟩] ++ [.ofImm imm]) with
    | some w => rfl
    | none =>
      -- it is no byte, so that it is one that is shifted
      have large : ¬ imm.toNat ≤ 255 := by
        intro small
        have number : imm.toInt = imm.toNat := by rw [BitVec.toInt_eq_toNat_cond, if_pos (by omega)]
        have found : (tryEncode? (ImmediateOp.saturating subtracts).op.mnemonic
            ([.ofZ ⟨zd, some l⟩, .ofZ ⟨zd, some l⟩] ++ [.ofImm imm])).isSome = true :=
          (tryEncode?_saturating subtracts (s := 0) allowed hzd).mpr ⟨.inl rfl, by omega, by omega⟩
        rw [plain] at found
        cases found
      obtain ⟨wide, v, shifted, low, high⟩ := byteShifted?_of_takes takes large
      rw [shifted]
      exact (tryEncode?_saturating subtracts allowed hzd).mpr ⟨.inr ⟨rfl, wide⟩, low, high⟩

end Assembler

/-! ## The immediate that is used -/

/-- **The number that the macro adds or subtracts**: the immediate, or the signed value of its lowest bits. -/
def LaneSize.used (l : LaneSize) (imm : BitVec 64) : Int :=
  if l.Takes imm then imm.toInt else (imm.setWidth l.bits).toInt

section

variable {l : LaneSize} {imm : BitVec 64}

/-- **An immediate in the range of the lane is used**, but for one from the middle of the range on that the instruction does
    not take. -/
theorem LaneSize.used_eq (low : 0 ≤ imm.toInt) (high : imm.toInt < twoPow l.bits) :
    l.used imm = if l.Takes imm ∨ imm.toInt < twoPow (l.bits - 1) then imm.toInt else imm.toInt - twoPow l.bits := by
  unfold used
  by_cases takes : l.Takes imm
  · rw [if_pos takes, if_pos (.inl takes)]
  · have number := Slot.toNat_eq_toInt low
    have double := twoPow_pred l.bits_pos
    have bits : (imm.setWidth l.bits).toNat = imm.toNat := by
      rw [BitVec.toNat_setWidth]
      exact Nat.mod_eq_of_lt (show imm.toNat < twoPow l.bits by omega)
    rw [if_neg takes, BitVec.toInt_eq_toNat_cond, bits, number]
    show (if 2 * imm.toNat < twoPow l.bits then _ else _ - ((twoPow l.bits : Nat) : Int)) = _
    by_cases small : imm.toInt < twoPow (l.bits - 1)
    · rw [if_pos (by omega), if_pos (.inr small)]
    · rw [if_neg (by omega), if_neg (not_or.mpr ⟨takes, small⟩)]

/-- **A number from the middle of the range on that is taken for a negative one** makes every result wrong. -/
theorem nearestSigned_ne {n : Nat} (positive : 0 < n) (subtracts : Bool) (x : BitVec n) {k : Int}
    (low : twoPow (n - 1) ≤ k) (high : k < twoPow n) :
    nearestSigned n (combined subtracts x.toInt (k - twoPow n)) ≠ nearestSigned n (combined subtracts x.toInt k) := by
  obtain ⟨least, greatest⟩ := toInt_bounds x
  have double := twoPow_pred positive
  unfold nearestSigned nearest combined
  cases subtracts with
  | true =>
    simp only [if_true]
    split_ifs <;> omega
  | false =>
    simp only [Bool.false_eq_true, if_false]
    split_ifs <;> omega

end

/-! ## The macro -/

namespace Assembler

variable {a : Assembler} {l : LaneSize} {zd zn : Nat}

/-- **What the words of the macro leave in the lanes of the destination.** -/
theorem saturatingImmediate_emits (subtracts : Bool) (allowed : l ∈ Form.bhsd) (hzd : zd < 32) (hzn : zn < 32)
    (general : ∃ k < 31, a.pools.has .general k = true) (vector : (a.pools.lowest? .vector).isSome = true)
    (unpooled : ∀ z ∈ [zd, zn], a.pools.has .vector z = false) (imm : BitVec 64) :
    a.Emits (a.wideImmediate (.saturating subtracts) ⟨zd, some l⟩ ⟨zn, some l⟩ imm) fun vl core after =>
      ∀ i < vl.lanes l, after.regs.zLane zd l.bits i =
        clampSigned l.bits (combined subtracts (core.regs.zLane zn l.bits i).toInt (l.used imm)) := by
  have known : (destructiveImmediate? (.saturating subtracts) ⟨zd, some l⟩ imm).isSome = true ↔ l.Takes imm :=
    destructiveImmediate?_isSome_iff subtracts allowed hzd
  have operand : wideOperand (.saturating subtracts) (some l) imm = imm := by cases subtracts <;> rfl
  have unnegated : ∀ v, negatedImmediate? (.saturating subtracts) ⟨zd, some l⟩ v = none := by
    intro v
    cases subtracts <;> rfl
  unfold wideImmediate
  dsimp only
  rw [operand, unnegated]
  -- the instruction takes the immediate as it is; without it the immediate is cut to a lane, which is read as signed
  cases found : destructiveImmediate? (.saturating subtracts) ⟨zd, some l⟩ imm with
  | some w =>
    have takes : l.Takes imm := known.mp (by rw [found]; rfl)
    obtain ⟨v, s, tried, shifted⟩ := byteImmediate?_eq_some found
    have value : ∀ x : BitVec l.bits, Semantics.withImmediate (.saturating subtracts) x imm =
        clampSigned l.bits (combined subtracts x.toInt imm.toInt) := by
      intro x
      cases subtracts <;> rfl
    refine (prefixed_emits (Semantics.withImmediate (.saturating subtracts) · imm) hzd hzn fun b => ?_).mono
      fun vl core after done i hi => ?_
    · rw [← shifted]
      exact (immediate_replaces hzd (.saturating subtracts) v s).tried tried
    · rw [done i hi, value, LaneSize.used, if_pos takes]
  | none =>
    have other : ¬ l.Takes imm := by
      intro takes
      have := known.mpr takes
      rw [found] at this
      cases this
    have ungoverned : (WideOp.arithmetic (.saturating subtracts)).isGoverned = true →
        (a.pools.lowest? .governing).isSome = true := by
      intro governed
      cases subtracts <;> cases governed
    have value : ∀ x y : BitVec l.bits, (ImmediateOp.saturating subtracts).op.apply x y =
        clampSigned l.bits (combined subtracts x.toInt y.toInt) := by
      intro x y
      cases subtracts <;> rfl
    refine (synthesizedImmediate_emits allowed hzd hzn general vector ungoverned unpooled imm).mono
      fun vl core after done i hi => ?_
    rw [done i hi, value, LaneSize.used, if_neg other]

/-- **A signed saturating sum or difference with an immediate.** Both vectors exist and are viewed at one lane size, and may
    be the same; there are a general scratch register below code 31 and a vector scratch register; neither vector is in the
    pool. No error is recorded, and executing the emitted words leaves in every lane the exact sum or difference of the
    source and of the number that is used, brought into the range of the lane. For an immediate in the range of the lane this
    is the exact result if the instruction takes the immediate or it lies below the middle of the range, and in no lane if
    not. -/
theorem saturating_computes (subtracts : Bool) {zd zn : ZReg} (views : zd.lane = some l ∧ zn.lane = some l)
    (allowed : l ∈ Form.bhsd) (codes : zd.code < 32 ∧ zn.code < 32)
    (general : ∃ k < 31, a.pools.has .general k = true) (vector : (a.pools.lowest? .vector).isSome = true)
    (unpooled : ∀ z ∈ [zd, zn], a.pools.has .vector z.code = false) (imm : BitVec 64) :
    ∃ ws : List Word,
      (a.expand (.immediate (.saturating subtracts) zd zn imm)).code = a.code ++ ws ∧
      (a.expand (.immediate (.saturating subtracts) zd zn imm)).errors = a.errors ∧
      ∀ (sim : Simulator) (vl : VectorLength), sim.core.regs.vl = some vl →
        ∃ after, sim.executeWords? ws = some after ∧ ∀ i < vl.lanes l,
          let x := (sim.core.regs.zLane zn.code l.bits i).toInt
          let r := (after.core.regs.zLane zd.code l.bits i).toInt
          r = nearestSigned l.bits (combined subtracts x (l.used imm)) ∧
          (0 ≤ imm.toInt → imm.toInt < twoPow l.bits →
            (r = nearestSigned l.bits (combined subtracts x imm.toInt) ↔
              l.Takes imm ∨ imm.toInt < twoPow (l.bits - 1))) := by
  obtain ⟨zd, lane⟩ := zd
  obtain ⟨zn, lane'⟩ := zn
  obtain ⟨rfl, rfl⟩ := views
  have clear : ∀ z ∈ [zd, zn], a.pools.has .vector z = false := by simpa using unpooled
  have emitted : a.Emits (a.expand (.immediate (.saturating subtracts) ⟨zd, some l⟩ ⟨zn, some l⟩ imm)) _ :=
    saturatingImmediate_emits subtracts allowed codes.1 codes.2 general vector clear imm
  obtain ⟨ws, code, runs⟩ := emitted
  refine ⟨ws, by rw [code]; rfl, by rw [code]; rfl, fun sim vl configured => ?_⟩
  obtain ⟨after, run, -, lanes⟩ := runs sim vl configured
  refine ⟨after, run, fun i hi => ?_⟩
  have result : (after.core.regs.zLane zd l.bits i).toInt = _ :=
    (congrArg BitVec.toInt (lanes i hi)).trans (toInt_clampSigned l.bits_pos _)
  refine ⟨result, fun low high => ?_⟩
  rw [result, LaneSize.used_eq low high]
  -- a number above the middle of the range is used as a negative one, and no lane gives the same with it
  constructor
  · intro same
    by_contra other
    rw [if_neg other] at same
    exact nearestSigned_ne l.bits_pos subtracts _ (Int.not_lt.mp fun small => other (.inr small)) high same
  · intro exact
    rw [if_pos exact]

/-- A difference with a number that the instruction does not take, and that lies below the middle of the range of a word. -/
theorem saturating_computes_word :
    let a : Assembler := {}
    let z : ZReg := ⟨2, some .s⟩
    ∃ ws : List Word,
      (a.expand (.immediate .sqsub z z 100000)).code = a.code ++ ws ∧
      (a.expand (.immediate .sqsub z z 100000)).errors = a.errors ∧
      ∀ (sim : Simulator) (vl : VectorLength), sim.core.regs.vl = some vl →
        ∃ after, sim.executeWords? ws = some after ∧ ∀ i < vl.lanes .s,
          (after.core.regs.zLane 2 32 i).toInt = nearestSigned 32 ((sim.core.regs.zLane 2 32 i).toInt - 100000) := by
  intro a z
  have views : z.lane = some .s ∧ z.lane = some .s := ⟨rfl, rfl⟩
  obtain ⟨ws, code, errors, runs⟩ := saturating_computes (a := a) true views (by decide) (by decide)
    ⟨16, by decide, by decide⟩ (by decide) (by decide) 100000
  refine ⟨ws, code, errors, fun sim vl configured => ?_⟩
  obtain ⟨after, run, lanes⟩ := runs sim vl configured
  exact ⟨after, run, fun i hi => ((lanes i hi).2 (by decide) (by decide)).mpr (.inr (by decide))⟩

/-- A sum that is wrong: with all registers zero, zero and 32769 give -32767 in a halfword, and not the greatest one. -/
theorem saturating_adds_negative :
    let a : Assembler := {}
    let sim : Simulator := (Simulator.create ⟨128, 10000, 256, false⟩).1
    ∃ (ws : List Word) (after : Simulator),
      (a.expand (.immediate .sqadd ⟨1, some .h⟩ ⟨2, some .h⟩ 32769)).code = a.code ++ ws ∧
      sim.executeWords? ws = some after ∧ sim.core.regs.zLane 2 16 0 = 0 ∧
      (after.core.regs.zLane 1 16 0).toInt = -32767 ∧ nearestSigned 16 (0 + 32769) = 32767 := by
  intro a sim
  obtain ⟨ws, code, runs⟩ := saturatingImmediate_emits (a := a) (l := .h) false (by decide)
    (show 1 < 32 by decide) (show 2 < 32 by decide) ⟨16, by decide, by decide⟩ (by decide) (by decide) 32769
  have zero : sim.core.regs.zLane 2 LaneSize.h.bits 0 = 0 := by
    rw [Registers.zLane, show sim.core.regs.zBits 2 = 0 from rfl]
    simp [lane]
  obtain ⟨after, run, -, lanes⟩ := runs sim ⟨128, rfl⟩ rfl
  have result := lanes 0 (by decide)
  rw [zero] at result
  exact ⟨ws, after, congrArg Assembler.code code, run, zero, (congrArg BitVec.toInt result).trans (by decide), by decide⟩

end Assembler

end ArmToolkit.A64
