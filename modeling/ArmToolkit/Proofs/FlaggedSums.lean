import ArmToolkit.A64.Statement
import ArmToolkit.Proofs.Constructed
import ArmToolkit.Proofs.Executed
import ArmToolkit.Proofs.Frames

/-!
# `Proofs.FlaggedSums` — what the flags of sums and differences say

The carry and overflow flags are computed from the wrapped result. Together with the sign and the zero flag they say how
the exact numbers compare: this module proves it for all sixteen conditions, and takes it from the arithmetic to the
instructions.

## Contents
- **Meanings.** `Condition.AfterDifference` and `Condition.AfterSum` say what a condition tells about the two numbers.
- **Flags.** The wrapped sum differs from the exact one by nothing or by the range (`addWithCarry_toInt`), so that equal
  sign and overflow flags mean that the exact sum is not negative (`addWithCarry_sign`). The carry is the same where it is
  computed from the wrapped sum (`addWithCarry_c_compared`) or in a wider one (`addWithCarry_c_shifted`).
- **Operands.** The numbers that an instruction adds or subtracts, as exact integers brought to the register width.
- **Instructions.** `Simulator.execute_flagged_sums`, for `adds`, `subs` and `cmp`.
-/

namespace ArmToolkit

/-! ## Meanings -/

/-- The integers that `n` bits hold in two's complement. -/
def SignedRange (n : Nat) (z : Int) : Prop := -(twoPow (n - 1) : Int) ≤ z ∧ z < twoPow (n - 1)

namespace Condition

/-- **What a condition says of two numbers after their difference.** -/
def AfterDifference {n : Nat} (a b : BitVec n) : Condition → Prop
  | eq => a = b
  | ne => a ≠ b
  | cs => b.toNat ≤ a.toNat
  | cc => a.toNat < b.toNat
  | hi => b.toNat < a.toNat
  | ls => a.toNat ≤ b.toNat
  | ge => b.toInt ≤ a.toInt
  | lt => a.toInt < b.toInt
  | gt => b.toInt < a.toInt
  | le => a.toInt ≤ b.toInt
  | mi => (a - b).msb = true
  | pl => (a - b).msb = false
  | vs => ¬ SignedRange n (a.toInt - b.toInt)
  | vc => SignedRange n (a.toInt - b.toInt)
  | al | nv => True

/-- **What a condition says of two numbers after their sum.** The signed conditions compare the exact sum with zero, and
    the unsigned ones compare it with the range. -/
def AfterSum {n : Nat} (a b : BitVec n) : Condition → Prop
  | eq => a + b = 0
  | ne => a + b ≠ 0
  | cs => twoPow n ≤ a.toNat + b.toNat
  | cc => a.toNat + b.toNat < twoPow n
  | hi => twoPow n < a.toNat + b.toNat
  | ls => a.toNat + b.toNat ≤ twoPow n
  | ge => 0 ≤ a.toInt + b.toInt
  | lt => a.toInt + b.toInt < 0
  | gt => 0 < a.toInt + b.toInt
  | le => a.toInt + b.toInt ≤ 0
  | mi => (a + b).msb = true
  | pl => (a + b).msb = false
  | vs => ¬ SignedRange n (a.toInt + b.toInt)
  | vc => SignedRange n (a.toInt + b.toInt)
  | al | nv => True

/-- Whether a condition passes, in terms of the flags that it looks at. -/
theorem holds_iff (c : Condition) (f : Flags) : c.holds f = true ↔
    match c with
    | eq => f.z = true
    | ne => ¬ f.z = true
    | cs => f.c = true
    | cc => ¬ f.c = true
    | hi => f.c = true ∧ ¬ f.z = true
    | ls => ¬ f.c = true ∨ f.z = true
    | ge => f.n = f.v
    | lt => ¬ f.n = f.v
    | gt => ¬ f.z = true ∧ f.n = f.v
    | le => f.z = true ∨ ¬ f.n = f.v
    | mi => f.n = true
    | pl => f.n = false
    | vs => f.v = true
    | vc => ¬ f.v = true
    | al | nv => True := by
  cases c <;> simp [holds]

end Condition

namespace A64

/-! ## Flags -/

section

variable {n : Nat} (x y : BitVec (n + 1)) (carry : Bool)

/-- A signed value in terms of the unsigned one. -/
theorem toInt_eq_ite : x.toInt = if x.toNat < twoPow n then (x.toNat : Int) else x.toNat - twoPow n * 2 := by
  have signed : x.toInt = if 2 * x.toNat < twoPow n * 2 then (x.toNat : Int) else x.toNat - (twoPow n * 2 : Nat) :=
    BitVec.toInt_eq_toNat_cond x
  rw [signed]
  split <;> split <;> omega

/-- The bounds of a signed value. -/
theorem toInt_range : -(twoPow n : Int) ≤ x.toInt ∧ x.toInt < twoPow n :=
  toInt_bounds x

/-- The exact sum of the signed values. -/
def exactSum : Int := x.toInt + y.toInt + carry.toNat

/-- The exact sum is within twice the range. -/
theorem exactSum_range : -(twoPow n : Int) * 2 ≤ exactSum x y carry ∧ exactSum x y carry < twoPow n * 2 := by
  have one : carry.toNat ≤ 1 := by cases carry <;> decide
  have hx := toInt_range x
  have hy := toInt_range y
  unfold exactSum
  omega

/-- **The wrapped sum of the unsigned values** is the exact one, or less by the range. -/
theorem addWithCarry_toNat : (addWithCarry x y carry).1.toNat = x.toNat + y.toNat + carry.toNat ∨
    (addWithCarry x y carry).1.toNat + twoPow (n + 1) = x.toNat + y.toNat + carry.toNat := by
  have one : carry.toNat ≤ 1 := by cases carry <;> decide
  have hx : x.toNat < twoPow (n + 1) := x.isLt
  have hy : y.toNat < twoPow (n + 1) := y.isLt
  have total : (addWithCarry x y carry).1.toNat = (x.toNat + y.toNat + carry.toNat) % twoPow (n + 1) := rfl
  rw [total]
  by_cases fits : x.toNat + y.toNat + carry.toNat < twoPow (n + 1)
  · exact .inl (Nat.mod_eq_of_lt fits)
  · right
    rw [Nat.mod_eq_sub_mod (Nat.not_lt.mp fits), Nat.mod_eq_of_lt (by omega)]
    omega

/-- **The wrapped sum of the signed values** is the exact one, or is moved into the range by its length. -/
theorem addWithCarry_toInt : (addWithCarry x y carry).1.toInt = exactSum x y carry ∨
    (exactSum x y carry < 0 ∧ (addWithCarry x y carry).1.toInt = exactSum x y carry + twoPow n * 2) ∨
    (0 ≤ exactSum x y carry ∧ (addWithCarry x y carry).1.toInt = exactSum x y carry - twoPow n * 2) := by
  have one : carry.toNat ≤ 1 := by cases carry <;> decide
  have hx : x.toNat < twoPow n * 2 := x.isLt
  have hy : y.toNat < twoPow n * 2 := y.isLt
  have hs : (addWithCarry x y carry).1.toNat < twoPow n * 2 := (addWithCarry x y carry).1.isLt
  have wraps := addWithCarry_toNat x y carry
  rw [twoPow_succ] at wraps
  unfold exactSum
  rw [toInt_eq_ite x, toInt_eq_ite y, toInt_eq_ite (addWithCarry x y carry).1]
  generalize (addWithCarry x y carry).1.toNat = s at *
  split <;> split <;> split <;> omega

/-- **The overflow flag** tells that the exact sum is out of range. -/
theorem addWithCarry_overflow :
    (addWithCarry x y carry).2.v = true ↔ ¬ SignedRange (n + 1) (exactSum x y carry) := by
  have inside := toInt_range (addWithCarry x y carry).1
  have moved := addWithCarry_toInt x y carry
  rw [addWithCarry_v, decide_eq_true_iff]
  show (addWithCarry x y carry).1.toInt ≠ exactSum x y carry ↔ ¬ (-(twoPow n : Int) ≤ _ ∧ _ < (twoPow n : Int))
  omega

/-- **Equal sign and overflow flags** tell that the exact sum is not negative: where the sum has been moved into the range
    its sign is the wrong one. -/
theorem addWithCarry_sign : (addWithCarry x y carry).2.n = (addWithCarry x y carry).2.v ↔ 0 ≤ exactSum x y carry := by
  have sign : (addWithCarry x y carry).2.n = decide ((addWithCarry x y carry).1.toInt < 0) :=
    (addWithCarry x y carry).1.msb_eq_toInt
  have bounds := exactSum_range x y carry
  have inside := toInt_range (addWithCarry x y carry).1
  have moved := addWithCarry_toInt x y carry
  rw [sign, addWithCarry_v, decide_eq_decide]
  show (_ ↔ (addWithCarry x y carry).1.toInt ≠ exactSum x y carry) ↔ _
  omega

/-- **The zero flag** tells that the wrapped sum is zero. -/
theorem addWithCarry_zero : (addWithCarry x y carry).2.z = true ↔ (addWithCarry x y carry).1 = 0 := by
  show ((addWithCarry x y carry).1.toNat == 0) = true ↔ _
  rw [beq_iff_eq, ← BitVec.toNat_inj]
  rfl

/-- **The carry flag is found by comparing the wrapped sum with its first term**: the sum is below it, or equal to it though
    something was carried in. -/
theorem addWithCarry_c_compared : (addWithCarry x y carry).2.c =
    (decide ((addWithCarry x y carry).1 < x) || (carry && (addWithCarry x y carry).1 == x)) := by
  have hy : y.toNat < twoPow (n + 1) := y.isLt
  have hs : (addWithCarry x y carry).1.toNat < twoPow (n + 1) := (addWithCarry x y carry).1.isLt
  have wraps := addWithCarry_toNat x y carry
  rw [addWithCarry_c, Bool.eq_iff_iff, decide_eq_true_eq, Bool.or_eq_true, decide_eq_true_eq, Bool.and_eq_true, beq_iff_eq,
    BitVec.lt_def, ← BitVec.toNat_inj]
  generalize (addWithCarry x y carry).1.toNat = s at *
  cases carry with
  | false =>
    simp only [Bool.toNat_false, Bool.false_eq_true, false_and, or_false] at wraps ⊢
    omega
  | true =>
    simp only [Bool.toNat_true, true_and] at wraps ⊢
    omega

end

/-- **The carry flag of 32 bits is found in a sum of 64**, in the bits above. -/
theorem addWithCarry_c_shifted (x y : BitVec 32) (carry : Bool) : (addWithCarry x y carry).2.c =
    ((x.setWidth 64 + y.setWidth 64 + BitVec.ofNat 64 carry.toNat) >>> 32 != 0) := by
  have one : carry.toNat ≤ 1 := by cases carry <;> decide
  have range : twoPow 32 = 2 ^ 32 := by decide
  have zero : (0 : BitVec 64).toNat = 0 := rfl
  rw [addWithCarry_c, Bool.eq_iff_iff, decide_eq_true_eq, bne_iff_ne, Ne, ← BitVec.toNat_inj, range]
  simp only [BitVec.toNat_ushiftRight, BitVec.toNat_add, BitVec.toNat_setWidth, BitVec.toNat_ofNat,
    Nat.shiftRight_eq_div_pow]
  omega

/-- A difference is the sum with the complement and a carry. -/
theorem addWithCarry_not {n : Nat} (a b : BitVec n) : (addWithCarry a (~~~b) true).1 = a - b := by
  rw [addWithCarry_sum, BitVec.sub_eq_add_neg, BitVec.neg_eq_not_add, BitVec.add_assoc]
  rfl

/-- A sum is formed without a carry. -/
theorem addWithCarry_add {n : Nat} (a b : BitVec n) : (addWithCarry a b false).1 = a + b :=
  (addWithCarry_sum a b false).trans (BitVec.add_zero _)

section

variable {n : Nat} (a b : BitVec (n + 1)) (c : Condition)

/-- The exact sum with the complement and a carry is the exact difference. -/
theorem exactSum_not : exactSum a (~~~b) true = a.toInt - b.toInt := by
  have hb : b.toNat < twoPow n * 2 := b.isLt
  have whole : (~~~b).toNat = twoPow n * 2 - 1 - b.toNat := BitVec.toNat_not
  have complement : (~~~b).toInt = -b.toInt - 1 := by
    rw [toInt_eq_ite, toInt_eq_ite, whole]
    split <;> split <;> omega
  unfold exactSum
  rw [complement]
  show a.toInt + (-b.toInt - 1) + 1 = _
  omega

/-- The carry flag after a difference tells that nothing was borrowed. -/
theorem addWithCarry_not_carry : (addWithCarry a (~~~b) true).2.c = true ↔ b.toNat ≤ a.toNat := by
  have hb : b.toNat < twoPow (n + 1) := b.isLt
  have whole : (~~~b).toNat = twoPow (n + 1) - 1 - b.toNat := BitVec.toNat_not
  rw [addWithCarry_c, decide_eq_true_iff, whole]
  show twoPow (n + 1) ≤ a.toNat + _ + 1 ↔ _
  omega

/-- **The conditions after a difference** compare the two numbers. -/
theorem holds_difference : c.holds (addWithCarry a (~~~b) true).2 = true ↔ c.AfterDifference a b := by
  have zero : (addWithCarry a (~~~b) true).2.z = true ↔ a = b := by
    rw [addWithCarry_zero, addWithCarry_not]
    simp [BitVec.sub_eq_iff_eq_add]
  have negative : (addWithCarry a (~~~b) true).2.n = (a - b).msb := congrArg BitVec.msb (addWithCarry_not a b)
  have carry := addWithCarry_not_carry a b
  have sign := addWithCarry_sign a (~~~b) true
  have wraps := addWithCarry_overflow a (~~~b) true
  rw [exactSum_not] at sign wraps
  have unsigned : a = b ↔ a.toNat = b.toNat := BitVec.toNat_inj.symm
  have signed : a = b ↔ a.toInt = b.toInt := BitVec.toInt_inj.symm
  rw [c.holds_iff]
  -- what each flag says is known; a condition of two flags is decided by the three ways to compare
  cases c with
  | eq => exact zero
  | ne => exact zero.not
  | cs => exact carry
  | cc => exact carry.not.trans Nat.not_le
  | hi | ls =>
    simp only [zero, carry, unsigned, Condition.AfterDifference]
    omega
  | ge => exact sign.trans Int.sub_nonneg
  | lt => exact sign.not.trans (by rw [Int.sub_nonneg, Int.not_le, Condition.AfterDifference])
  | gt | le =>
    simp only [zero, sign, signed, Condition.AfterDifference]
    omega
  | mi | pl => rw [negative, Condition.AfterDifference]
  | vs => exact wraps
  | vc => exact wraps.not_left
  | al | nv => rfl

/-- **The conditions after a sum** compare the exact sum with zero and with the range. -/
theorem holds_sum : c.holds (addWithCarry a b false).2 = true ↔ c.AfterSum a b := by
  have whole := addWithCarry_add a b
  have plain : exactSum a b false = a.toInt + b.toInt := Int.add_zero _
  have zero := addWithCarry_zero a b false
  have negative : (addWithCarry a b false).2.n = (a + b).msb := congrArg BitVec.msb whole
  have carry : (addWithCarry a b false).2.c = true ↔ twoPow (n + 1) ≤ a.toNat + b.toNat := by
    rw [addWithCarry_c, decide_eq_true_iff]
    rfl
  have sign := addWithCarry_sign a b false
  have wraps := addWithCarry_overflow a b false
  have unsigned := addWithCarry_toNat a b false
  have signed := addWithCarry_toInt a b false
  have bounds := exactSum_range a b false
  rw [plain] at sign wraps signed bounds
  rw [whole] at zero unsigned signed
  rw [c.holds_iff]
  cases c with
  | eq => exact zero
  | ne => exact zero.not
  | cs => exact carry
  | cc => exact carry.not.trans Nat.not_le
  | hi | ls =>
    -- a sum that wraps is zero only where it is the range
    have none : a + b = 0 ↔ (a + b).toNat = 0 := BitVec.toNat_inj.symm
    have inside : (a + b).toNat < twoPow (n + 1) := (a + b).isLt
    simp only [zero, carry, none, Condition.AfterSum]
    simp only [Bool.toNat_false, Nat.add_zero] at unsigned
    omega
  | ge => exact sign
  | lt => exact sign.not.trans Int.not_le
  | gt | le =>
    -- a sum that is moved to zero was negative
    have none : a + b = 0 ↔ (a + b).toInt = 0 := by
      rw [← BitVec.toInt_inj]
      simp
    have inside := toInt_range (a + b)
    simp only [zero, sign, none, Condition.AfterSum]
    generalize (a + b).toInt = s, a.toInt + b.toInt = e at *
    omega
  | mi | pl => rw [negative, Condition.AfterSum]
  | vs => exact wraps
  | vc => exact wraps.not_left
  | al | nv => rfl

end

/-! ## Operands -/

/-- A shifted number as an exact integer. Bits that leave at the bottom are rounded down. -/
def ShiftType.exact {n : Nat} (t : ShiftType) (v : BitVec n) (amount : Nat) : Int :=
  match t with
  | lsl => v.toNat * twoPow amount
  | lsr => v.toNat / twoPow amount
  | asr => v.toInt / twoPow amount
  | ror => (v.rotateRight amount).toNat

/-- **A shift keeps as many bits of the exact result as there are.** -/
theorem ShiftType.apply_eq_exact {n : Nat} (t : ShiftType) (v : BitVec n) (amount : Nat) :
    t.apply v amount = BitVec.ofInt n (t.exact v amount) := by
  cases t with
  | lsl =>
    show v <<< amount = BitVec.ofInt n ((v.toNat * twoPow amount : Nat) : Int)
    rw [BitVec.ofInt_natCast]
    apply BitVec.eq_of_toNat_eq
    rw [BitVec.toNat_shiftLeft, Nat.shiftLeft_eq, BitVec.toNat_ofNat]
    rfl
  | lsr =>
    show v >>> amount = BitVec.ofInt n ((v.toNat / twoPow amount : Nat) : Int)
    have below : v.toNat / twoPow amount < 2 ^ n := Nat.lt_of_le_of_lt (Nat.div_le_self ..) v.isLt
    rw [BitVec.ofInt_natCast]
    apply BitVec.eq_of_toNat_eq
    rw [BitVec.toNat_ushiftRight, Nat.shiftRight_eq_div_pow, BitVec.toNat_ofNat, Nat.mod_eq_of_lt below]
    rfl
  | asr =>
    show v.sshiftRight amount = BitVec.ofInt n (v.toInt / twoPow amount)
    rw [← BitVec.ofInt_toInt (x := v.sshiftRight amount), BitVec.toInt_sshiftRight, Int.shiftRight_eq_div_pow]
    rfl
  | ror =>
    show v.rotateRight amount = BitVec.ofInt n ((v.rotateRight amount).toNat : Int)
    rw [BitVec.ofInt_natCast, BitVec.ofNat_toNat, BitVec.setWidth_eq]

namespace Form

open Semantics (regAt)

/-- What code 31 is as the first source of a sum: the stack pointer beside an immediate, and zero beside a register. -/
def source31 : Form → Code31
  | addSubImm _ _ => .stack
  | _ => .zero

variable (f : Form) (ops : List Operand) (r : Registers)

/-- **The first number of a sum or difference.** -/
def leftNumber : BitVec f.registerWidth.bits := (r.read (regAt ops 1) f.source31).setWidth f.registerWidth.bits

/-- **The second number of a sum or difference**: an immediate with its left shift, or a register with its shift. -/
def rightNumber : BitVec f.registerWidth.bits :=
  match f with
  | addSubImm _ _ => BitVec.ofNat _ ((arg ops 2).imm.toNat * twoPow (arg ops 2).shift)
  | _ =>
    let v := (r.read (regAt ops 2) .zero).setWidth f.registerWidth.bits
    BitVec.ofInt _ ((arg ops 2).shiftType.exact v (arg ops 2).shift)

end Form

namespace Slot

variable {op : Operand} {width : Width}

/-- An operand of the general register kind of a width is 32 bits wide exactly if the width is. -/
theorem narrow_of_general {x : Field} {c : Code31} (accepted : (general x width c).accepts op = true) :
    op.kind = .w ↔ width = .w := by
  cases width <;> simp [accepts] at accepted <;> simp [accepted]

/-- An operand of the shifted register kind of a width is 32 bits wide exactly if the width is. -/
theorem narrow_of_shifted {rotates : Bool} (accepted : (shifted width rotates).accepts op = true) :
    op.kind = .w ↔ width = .w := by
  cases width <;> simp [accepts] at accepted <;> simp [accepted]

end Slot

namespace Registers

variable {op : Operand} {width : Width}

/-- A register operand is read at its width. -/
theorem general_setWidth (r : Registers) (narrow : op.kind = .w ↔ width = .w) (c : Code31) :
    (r.general op c).setWidth width.bits = (r.read op.reg c).setWidth width.bits := by
  unfold general
  cases width with
  | w =>
    rw [if_pos (narrow.mpr rfl)]
    exact BitVec.setWidth_setWidth_of_le _ (by decide) |>.trans (BitVec.setWidth_eq _)
  | x => rw [if_neg (by rw [narrow]; exact Width.noConfusion)]

/-- A register operand is written with zeros above its width. -/
theorem read_setGeneral (r : Registers) (narrow : op.kind = .w ↔ width = .w) (inside : op.reg < 31)
    (v : BitVec width.bits) : (r.setGeneral op (v.setWidth 64) .zero).read op.reg .zero = v.setWidth 64 := by
  unfold setGeneral
  rw [read_write r op.reg op.reg _ inside inside, if_pos rfl]
  cases width with
  | w =>
    have same : (v.setWidth 64).setWidth 32 = v :=
      (BitVec.setWidth_setWidth_of_le v (by decide)).trans (BitVec.setWidth_eq v)
    rw [if_pos (narrow.mpr rfl)]
    exact congrArg (BitVec.setWidth 64) same
  | x => rw [if_neg (by rw [narrow]; exact Width.noConfusion)]

end Registers

namespace Semantics

variable {f : Form} {op : AddSubOp} {width : Width} {cond : Condition} {ops : List Operand}

/-- **An instruction that adds or subtracts and sets the flags** works on the two numbers of its operands. -/
theorem execute_flagged (h : Instruction.Encodes f cond ops)
    (form : f = .addSubImm op width ∨ f = .addSubShifted op width) (sets : op.setsFlags = true) (core : Core) :
    execute f cond ops core = registersOnly core
      (writeSum op (arg ops 0) .zero (addSub op (f.leftNumber ops core.regs) (f.rightNumber ops core.regs)) core.regs) := by
  rcases form with rfl | rfl
  · have narrow : (arg ops 1).kind = .w ↔ width = .w := Slot.narrow_of_general (h.accepts_slot (i := 1) rfl)
    have right : (shiftedValue (arg ops 2)).setWidth width.bits =
        BitVec.ofNat width.bits ((arg ops 2).imm.toNat * twoPow (arg ops 2).shift) := by
      have divides : 2 ^ width.bits ∣ 2 ^ 64 := Nat.pow_dvd_pow 2 (by cases width <;> decide)
      apply BitVec.eq_of_toNat_eq
      rw [BitVec.toNat_setWidth, shiftedValue, BitVec.toNat_shiftLeft, Nat.shiftLeft_eq, Nat.mod_mod_of_dvd _ divides,
        BitVec.toNat_ofNat]
      rfl
    show registersOnly core (addSubImm op width ops core.regs) = _
    unfold addSubImm
    rw [if_pos sets, right, core.regs.general_setWidth narrow]
    rfl
  · have narrow : (arg ops 1).kind = .w ↔ width = .w := Slot.narrow_of_general (h.accepts_slot (i := 1) rfl)
    have narrow' : (arg ops 2).kind = .w ↔ width = .w := Slot.narrow_of_shifted (h.accepts_slot (i := 2) rfl)
    show registersOnly core (addSubShifted op width ops core.regs) = _
    unfold addSubShifted shiftedRegister
    rw [core.regs.general_setWidth narrow, core.regs.general_setWidth narrow', ShiftType.apply_eq_exact]
    rfl

/-- An operation that sets the flags writes those of the sum. -/
theorem flags_writeSum {n : Nat} (sets : op.setsFlags = true) (rd : Operand) (sum : BitVec n × Flags) (r : Registers) :
    (writeSum op rd .zero sum r).flags = sum.2 := by
  unfold writeSum
  rw [if_pos sets]
  exact (Registers.Frame.write _ rd _ .zero false).flags rfl

/-- The destination of an operation that sets the flags holds the sum. -/
theorem read_writeSum {rd : Operand} (narrow : rd.kind = .w ↔ width = .w) (inside : rd.reg < 31)
    (sum : BitVec width.bits × Flags) (r : Registers) :
    (writeSum op rd .zero sum r).read rd.reg .zero = sum.1.setWidth 64 :=
  Registers.read_setGeneral _ narrow inside sum.1

end Semantics

/-! ## Instructions -/

/-- The forms that add or subtract and set the flags. -/
theorem Form.of_flagged {f : Form} {op : AddSubOp} (sets : op.setsFlags = true) (h : f.mnemonic = op.mnemonic) :
    ∃ width, f = .addSubImm op width ∨ f = .addSubShifted op width := by
  have table : ∀ f ∈ all, ∀ op ∈ [AddSubOp.adds, .subs], f.mnemonic = op.mnemonic →
      ∃ width ∈ [Width.w, .x], f = .addSubImm op width ∨ f = .addSubShifted op width := by
    decide +kernel
  have listed : op ∈ [AddSubOp.adds, .subs] := by
    cases op with
    | adds | subs => decide
    | add | sub => cases sets
  obtain ⟨width, -, form⟩ := table f (mem_all f) op listed h
  exact ⟨width, form⟩

namespace Simulator

/-- **What an instruction with a result and flags leaves.** It does not fail, the destination has the result with zeros above
    it unless it is the zero register, and the conditions say what they mean; no other register changes. -/
structure Leaves (sim : Simulator) (report : Report) (rd : Nat) {n : Nat} (result : BitVec n)
    (meaning : Condition → Prop) : Prop where
  succeeds : report.failure = none
  result : rd ≠ 31 → report.sim.core.regs.read rd .zero = result.setWidth 64
  conditions : ∀ c : Condition, c.holds report.sim.core.regs.flags = true ↔ meaning c
  others : sim.core.regs.Frame (Code31.zero.place rd) true report.sim.core.regs

variable {inst : Instruction} {f : Form} {w : Word}

/-- An instruction that adds or subtracts and sets the flags leaves the sum or difference and its flags. -/
theorem leaves_of_flagged (sim : Simulator) (op : AddSubOp) (sets : op.setsFlags = true) (encoded : inst.encode = .ok w)
    (formed : inst.form = some f) (h : f.mnemonic = op.mnemonic) :
    let sum := Semantics.addSub op (f.leftNumber inst.ops sim.core.regs) (f.rightNumber inst.ops sim.core.regs)
    sim.Leaves (sim.execute inst) (arg inst.ops 0).reg sum.1 fun c => c.holds sum.2 = true := by
  intro sum
  obtain ⟨_, formed', passes, -⟩ := Instruction.encode_eq_ok_iff.mp encoded
  cases formed.symm.trans formed'
  obtain ⟨width, form⟩ := Form.of_flagged sets h
  obtain rfl : f.registerWidth = width := by rcases form with rfl | rfl <;> rfl
  have done := Semantics.execute_flagged passes form sets sim.core
  obtain ⟨succeeds, regs⟩ := execute_registers formed done
  -- code 31 is the zero register in both forms
  have first : ∃ c, f.slots[0]? = some (.general Slot.rd f.registerWidth c) := by
    rcases form with form | form <;> rw [form] <;> exact ⟨_, rfl⟩
  obtain ⟨c, first⟩ := first
  have narrow := Slot.narrow_of_general (passes.accepts_slot first)
  have code : (arg inst.ops 0).reg < 32 := (passes.keepsRegister first _ rfl).1
  have frame := Semantics.frame_writeSum op (arg inst.ops 0) .zero sum sim.core.regs
  refine ⟨succeeds, ?_, ?_, ?_⟩
  · intro other
    rw [regs]
    exact Semantics.read_writeSum narrow (by omega) sum sim.core.regs
  · intro c
    rw [regs]
    show c.holds (Semantics.writeSum op _ _ _ _).flags = true ↔ _
    rw [Semantics.flags_writeSum sets]
  · rw [regs]
    exact ⟨frame.read, frame.sp, frame.zBits, frame.pBits, Bool.noConfusion, frame.ffr, frame.vl⟩

/-- **A `cmp` is a `subs` into the zero register.** -/
theorem subs_of_cmp {args : List Argument} {m : Mnemonic} {ops : List Operand}
    (cmp : instruction? "cmp" args = some (m, ops)) (made : Instruction.make m ops = .ok inst) :
    ∃ f, inst.form = some f ∧ f.mnemonic = .subs ∧ (arg inst.ops 0).reg = 31 := by
  -- the statement is found by its name among the aliases
  have shape : m = .subs ∧ (arg ops 0).reg = 31 := by
    unfold instruction? at cmp
    split at cmp
    · cases cmp
      exact ⟨rfl, rfl⟩
    · cases cmp
      exact ⟨rfl, rfl⟩
    · rename_i other
      exact absurd other (by decide)
    · rename_i other
      exact absurd other (by decide)
    · rename_i other
      exact absurd other (by decide)
    · rename_i other
      exact absurd other (by decide)
    · -- no other statement has this name
      have none : Mnemonic.ofName? "cmp" = none := by decide
      rw [none] at cmp
      cases cmp
  unfold Instruction.make at made
  split at made
  · cases made
  · split at made
    · rename_i f resolved
      cases made
      have found := List.find?_some resolved
      simp only [Bool.and_eq_true, beq_iff_eq] at found
      exact ⟨f, rfl, found.1.trans shape.1, shape.2⟩
    · cases made

/-- **The flags of sums and differences.** After `subs` the destination has the difference modulo the register width, and the
    conditions compare the two numbers, signed and unsigned; after `adds` it has the sum, and they compare the exact sums
    with zero and with the range. The numbers are those before the instruction, whichever registers the operands name. A
    `cmp` is a `subs` that has no destination. -/
theorem execute_flagged_sums (sim : Simulator) :
    (∀ inst w f, Instruction.encode inst = .ok w → inst.form = some f → f.mnemonic = .subs →
      let a := f.leftNumber inst.ops sim.core.regs
      let b := f.rightNumber inst.ops sim.core.regs
      sim.Leaves (sim.execute inst) (arg inst.ops 0).reg (a - b) (Condition.AfterDifference a b)) ∧
      (∀ inst w f, Instruction.encode inst = .ok w → inst.form = some f → f.mnemonic = .adds →
        let a := f.leftNumber inst.ops sim.core.regs
        let b := f.rightNumber inst.ops sim.core.regs
        sim.Leaves (sim.execute inst) (arg inst.ops 0).reg (a + b) (Condition.AfterSum a b)) ∧
      ∀ args m ops inst, instruction? "cmp" args = some (m, ops) → Instruction.make m ops = .ok inst →
        ∃ f, inst.form = some f ∧ f.mnemonic = .subs ∧ (arg inst.ops 0).reg = 31 := by
  -- the width is a parameter of the form, so each is stated for both widths
  have difference : ∀ (width : Width) (a b : BitVec width.bits) (c : Condition),
      c.holds (Semantics.addSub .subs a b).2 = true ↔ c.AfterDifference a b := by
    intro width a b c
    cases width <;> exact holds_difference a b c
  have sum : ∀ (width : Width) (a b : BitVec width.bits) (c : Condition),
      c.holds (Semantics.addSub .adds a b).2 = true ↔ c.AfterSum a b := by
    intro width a b c
    cases width <;> exact holds_sum a b c
  refine ⟨?_, ?_, fun args m ops inst cmp made => subs_of_cmp cmp made⟩
  · intro inst w f encoded formed subs a b
    have leaves := leaves_of_flagged sim .subs rfl encoded formed subs
    have result : (Semantics.addSub .subs a b).1 = a - b := addWithCarry_not a b
    exact ⟨leaves.succeeds, fun other => result ▸ leaves.result other,
      fun c => (leaves.conditions c).trans (difference _ a b c), leaves.others⟩
  · intro inst w f encoded formed adds a b
    have leaves := leaves_of_flagged sim .adds rfl encoded formed adds
    have result : (Semantics.addSub .adds a b).1 = a + b := addWithCarry_add a b
    exact ⟨leaves.succeeds, fun other => result ▸ leaves.result other,
      fun c => (leaves.conditions c).trans (sum _ a b c), leaves.others⟩

/-- The least 32-bit number less one, in one register: the difference overflows, and it compares as less when signed and as
    higher when unsigned. The least 64-bit number added to itself carries and overflows. A `cmp` has no destination. -/
theorem execute_flagged_sums_least :
    let holding (v : BitVec 64) : Simulator :=
      ⟨⟨0, 1, 0, false⟩, ⟨(Registers.zero none).write 1 v .zero, .empty⟩, 0, false, none⟩
    let less : Instruction := ⟨some (.addSubImm .subs .w), .al, [.ofX (.w 1), .ofX (.w 1), .ofImm 1]⟩
    let twice : Instruction := ⟨some (.addSubShifted .adds .x), .al, [.ofX (.x 1), .ofX (.x 1), .ofX (.x 1)]⟩
    let cmp : Instruction := ⟨some (.addSubImm .subs .w), .al, [.ofX (.w 31), .ofX (.w 1), .ofImm 1]⟩
    (holding 0x80000000).Leaves ((holding 0x80000000).execute less) 1 (0x7fffffff : BitVec 32)
        (Condition.AfterDifference (0x80000000 : BitVec 32) 1) ∧
      (holding 0x8000000000000000).Leaves ((holding 0x8000000000000000).execute twice) 1 (0 : BitVec 64)
        (Condition.AfterSum (0x8000000000000000 : BitVec 64) 0x8000000000000000) ∧
      ∃ f, cmp.form = some f ∧ f.mnemonic = .subs ∧ (arg cmp.ops 0).reg = 31 := by
  intro holding less twice cmp
  obtain ⟨subs, -, named⟩ := execute_flagged_sums (holding 0x80000000)
  obtain ⟨-, adds, -⟩ := execute_flagged_sums (holding 0x8000000000000000)
  have encoded : Instruction.encode ⟨some (.addSubImm .subs .w), .al, [.ofX (.w 1), .ofX (.w 1), .ofImm 1]⟩ =
      .ok 0x71000421 := rfl
  have encoded' : Instruction.encode ⟨some (.addSubShifted .adds .x), .al, [.ofX (.x 1), .ofX (.x 1), .ofX (.x 1)]⟩ =
      .ok 0xab010021 := rfl
  have read : instruction? "cmp" [.general (.w 1) .lsl 0, .number 1] =
      some (.subs, [.ofX (.w 31), .ofX (.w 1), .ofImm 1]) := rfl
  have made : Instruction.make .subs [.ofX (.w 31), .ofX (.w 1), .ofImm 1] =
      .ok ⟨some (.addSubImm .subs .w), .al, [.ofX (.w 31), .ofX (.w 1), .ofImm 1]⟩ := rfl
  -- the numbers are read from the registers
  have left : (Form.addSubImm .subs .w).leftNumber less.ops (holding 0x80000000).core.regs =
      (0x80000000 : BitVec 32) := rfl
  have right : (Form.addSubImm .subs .w).rightNumber less.ops (holding 0x80000000).core.regs = (1 : BitVec 32) := rfl
  have left' : (Form.addSubShifted .adds .x).leftNumber twice.ops (holding 0x8000000000000000).core.regs =
      (0x8000000000000000 : BitVec 64) := rfl
  have right' : (Form.addSubShifted .adds .x).rightNumber twice.ops (holding 0x8000000000000000).core.regs =
      (0x8000000000000000 : BitVec 64) := rfl
  have difference := subs less _ _ encoded rfl rfl
  have sum := adds twice _ _ encoded' rfl rfl
  rw [left, right] at difference
  rw [left', right'] at sum
  refine ⟨difference, sum, ?_⟩
  exact named [.general (.w 1) .lsl 0, .number 1] .subs [.ofX (.w 31), .ofX (.w 1), .ofImm 1] cmp read made

end Simulator

end A64

end ArmToolkit
