import ArmToolkit.A64.Operand
import ArmToolkit.A64.Operation
import ArmToolkit.Condition
import ArmToolkit.PowerOfTwo

/-!
# `A64.Arithmetic` — the arithmetic of instructions

## Contents
- **With flags.** `addWithCarry` and `logicalFlags`. The carry and overflow flags tell that the sum is not exact
  (`addWithCarry_c`, `addWithCarry_v`).
- **Shifts.** `ShiftType.apply`.
- **Elements.** `clampSigned` and `clampUnsigned` are exact results brought into the range of a number of bits;
  `ElementOp.apply` and `Relation.holds` work on two elements.
-/

namespace ArmToolkit.A64

/-! ## With flags -/

/-- **The sum of two numbers and a carry**, with the flags it sets: sign, zero, unsigned and signed overflow. -/
def addWithCarry {n : Nat} (x y : BitVec n) (carry : Bool) : BitVec n × Flags :=
  let total := x.toNat + y.toNat + carry.toNat
  let sum := BitVec.ofNat n total
  (sum,
    { n := sum.msb
      z := sum.toNat == 0
      c := sum.toNat != total
      v := x.msb == y.msb && sum.msb != x.msb })

/-- The sum wraps around. -/
theorem addWithCarry_sum {n : Nat} (x y : BitVec n) (carry : Bool) :
    (addWithCarry x y carry).1 = x + y + BitVec.ofNat n carry.toNat := by
  apply BitVec.eq_of_toNat_eq
  simp [addWithCarry, BitVec.toNat_add]

/-- The carry flag tells that the exact sum of the unsigned values has no place. -/
theorem addWithCarry_c {n : Nat} (x y : BitVec n) (carry : Bool) :
    (addWithCarry x y carry).2.c = decide (twoPow n ≤ x.toNat + y.toNat + carry.toNat) := by
  have fits : x.toNat + y.toNat + carry.toNat < twoPow n ↔
      (x.toNat + y.toNat + carry.toNat) % twoPow n = x.toNat + y.toNat + carry.toNat :=
    ⟨Nat.mod_eq_of_lt, fun h => h ▸ Nat.mod_lt _ (twoPow_pos n)⟩
  show ((x.toNat + y.toNat + carry.toNat) % twoPow n != x.toNat + y.toNat + carry.toNat) = _
  by_cases h : twoPow n ≤ x.toNat + y.toNat + carry.toNat
  · have : (x.toNat + y.toNat + carry.toNat) % twoPow n ≠ x.toNat + y.toNat + carry.toNat :=
      fun e => Nat.not_lt.mpr h (fits.mpr e)
    simp [h, this]
  · simp [h, fits.mp (Nat.not_le.mp h)]

/-- The overflow flag tells that the sum is not the exact sum of the signed values. -/
theorem addWithCarry_v {n : Nat} (x y : BitVec (n + 1)) (carry : Bool) :
    (addWithCarry x y carry).2.v =
      decide ((addWithCarry x y carry).1.toInt ≠ x.toInt + y.toInt + carry.toNat) := by
  have one : carry.toNat ≤ 1 := by cases carry <;> decide
  have hx := x.isLt
  have hy := y.isLt
  have sum : (addWithCarry x y carry).1.toNat = (x.toNat + y.toNat + carry.toNat) % 2 ^ (n + 1) := rfl
  have wraps : (addWithCarry x y carry).1.toNat = x.toNat + y.toNat + carry.toNat ∨
      (addWithCarry x y carry).1.toNat + 2 ^ (n + 1) = x.toNat + y.toNat + carry.toNat := by
    rw [sum]
    by_cases h : x.toNat + y.toNat + carry.toNat < 2 ^ (n + 1)
    · exact .inl (Nat.mod_eq_of_lt h)
    · right
      rw [Nat.mod_eq_sub_mod (by omega), Nat.mod_eq_of_lt (by omega)]
      omega
  have hs := (addWithCarry x y carry).1.isLt
  show (x.msb == y.msb && (addWithCarry x y carry).1.msb != x.msb) = _
  generalize (addWithCarry x y carry).1 = s at wraps hs
  simp only [BitVec.toInt_eq_msb_cond, BitVec.msb_eq_decide, Nat.add_sub_cancel]
  rw [Nat.pow_succ] at *
  generalize 2 ^ n = p at *
  by_cases mx : p ≤ x.toNat <;> by_cases my : p ≤ y.toNat <;> by_cases ms : p ≤ s.toNat <;>
    simp [mx, my, ms] <;> omega
/-- The flags of a bitwise result: sign and zero. -/
def logicalFlags {n : Nat} (x : BitVec n) : Flags := { n := x.msb, z := x == 0, c := false, v := false }

/-! ## Shifts -/

/-- A number shifted by an amount below its width. -/
def ShiftType.apply {n : Nat} (t : ShiftType) (v : BitVec n) (amount : Nat) : BitVec n :=
  match t with
  | .lsl => v <<< amount
  | .lsr => v >>> amount
  | .asr => v.sshiftRight amount
  | .ror => v.rotateRight amount

/-! ## Elements -/

/-- The number of `n` bits nearest to an integer, in two's complement. -/
def clampSigned (n : Nat) (z : Int) : BitVec n :=
  BitVec.ofInt n (max (-(twoPow (n - 1) : Int)) (min (twoPow (n - 1) - 1) z))

/-- The unsigned number of `n` bits nearest to an integer. -/
def clampUnsigned (n : Nat) (z : Int) : BitVec n := BitVec.ofInt n (max 0 (min (twoPow n - 1) z))

/-- **What an operation computes from two elements.** -/
def ElementOp.apply {n : Nat} (op : ElementOp) (a b : BitVec n) : BitVec n :=
  match op with
  | add => a + b
  | sub => a - b
  | subr => b - a
  | mul => a * b
  | smax => if a.toInt < b.toInt then b else a
  | smin => if b.toInt < a.toInt then b else a
  | umax => if a.toNat < b.toNat then b else a
  | umin => if b.toNat < a.toNat then b else a
  | and => a &&& b
  | orr => a ||| b
  | eor => a ^^^ b
  | bic => a &&& ~~~b
  | sqadd => clampSigned n (a.toInt + b.toInt)
  | sqsub => clampSigned n (a.toInt - b.toInt)
  | uqadd => clampUnsigned n (a.toNat + b.toNat)
  | uqsub => clampUnsigned n (a.toNat - b.toNat)
  | sdiv => BitVec.ofInt n (a.toInt.tdiv b.toInt)
  | sdivr => BitVec.ofInt n (b.toInt.tdiv a.toInt)
  | udiv => a / b
  | udivr => b / a

/-- **Whether two elements are in a relation.** -/
def Relation.holds {n : Nat} (rel : Relation) (a b : BitVec n) : Bool :=
  match rel with
  | eq => a == b
  | ne => a != b
  | gt => decide (b.toInt < a.toInt)
  | ge => decide (b.toInt ≤ a.toInt)
  | lt => decide (a.toInt < b.toInt)
  | le => decide (a.toInt ≤ b.toInt)
  | hi => decide (b.toNat < a.toNat)
  | hs => decide (b.toNat ≤ a.toNat)
  | lo => decide (a.toNat < b.toNat)
  | ls => decide (a.toNat ≤ b.toNat)

/-- **A value with a count added to it** or subtracted from it, wrapping or brought into range. -/
def Overflow.adjust {n : Nat} (o : Overflow) (decrements : Bool) (v : BitVec n) (count : Nat) : BitVec n :=
  let change : Int := if decrements then -count else count
  match o with
  | .wrap => v + BitVec.ofInt n change
  | .signed => clampSigned n (v.toInt + change)
  | .unsigned => clampUnsigned n (v.toNat + change)

end ArmToolkit.A64
