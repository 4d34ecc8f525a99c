import ArmToolkit.A64.Semantics.Vector
import ArmToolkit.Bits
import ArmToolkit.Proofs.Immediates
import ArmToolkit.Proofs.RotatedRuns

/-!
# `Proofs.ElementArithmetic` — element operations are exact

## Contents
- **Exact results.** `ElementOp.Exact` says what an operation has to give, in terms of the signed and unsigned values of the
  elements and of their bits.
- **Words.** `ElementOp.onWords` is the arithmetic of a machine that has 64-bit words alone: elements are zero- or
  sign-extended, sums may leave the element or the word, and the result is cut to the element.
- **Saturation.** `saturating` is the exact result brought into range, where it is out of the range of words as well
  (`toInt_saturating`).
- **Agreement.** An operation is exact, and words give the same result (`ElementOp.apply_exact`, `ElementOp.onWords_eq`); so
  does a saturating operation with an immediate that is not cut to the element.
- `Element.operations_exact` puts this together for the four element sizes.
-/

namespace ArmToolkit.A64

open BitmaskImmediate (onesBelow)

/-! ## Exact results -/

/-- The nearest number of a range. -/
def nearest (least greatest z : Int) : Int := if z < least then least else if greatest < z then greatest else z

/-- The signed number of `n` bits nearest to an integer. -/
def nearestSigned (n : Nat) (z : Int) : Int := nearest (-(twoPow (n - 1) : Int)) (twoPow (n - 1) - 1) z

/-- The unsigned number of `n` bits nearest to an integer. -/
def nearestUnsigned (n : Nat) (z : Int) : Int := nearest 0 (twoPow n - 1) z

/-- The signed quotient rounded toward zero. It is zero for the divisor zero, and the least number divided by minus one is
    the least number again. -/
def signedQuotient (n : Nat) (x y : Int) : Int :=
  if y = 0 then 0 else if x = -(twoPow (n - 1) : Int) ∧ y = -1 then -(twoPow (n - 1) : Int) else x.tdiv y

/-- The unsigned quotient rounded down, and zero for the divisor zero. -/
def unsignedQuotient (x y : Nat) : Nat := if y = 0 then 0 else x / y

/-- **What an operation on two elements has to give.** -/
def ElementOp.Exact {n : Nat} (op : ElementOp) (a b r : BitVec n) : Prop :=
  match op with
  | add => (r.toNat : Int) = (a.toNat + b.toNat) % twoPow n
  | sub => (r.toNat : Int) = (a.toNat - b.toNat) % twoPow n
  | subr => (r.toNat : Int) = (b.toNat - a.toNat) % twoPow n
  | mul => (r.toNat : Int) = (a.toNat * b.toNat) % twoPow n
  | smax => r.toInt = max a.toInt b.toInt
  | smin => r.toInt = min a.toInt b.toInt
  | umax => r.toNat = max a.toNat b.toNat
  | umin => r.toNat = min a.toNat b.toNat
  | and => ∀ i < n, r.getLsbD i = (a.getLsbD i && b.getLsbD i)
  | orr => ∀ i < n, r.getLsbD i = (a.getLsbD i || b.getLsbD i)
  | eor => ∀ i < n, r.getLsbD i = (a.getLsbD i ^^ b.getLsbD i)
  | bic => ∀ i < n, r.getLsbD i = (a.getLsbD i && !b.getLsbD i)
  | sqadd => r.toInt = nearestSigned n (a.toInt + b.toInt)
  | sqsub => r.toInt = nearestSigned n (a.toInt - b.toInt)
  | uqadd => (r.toNat : Int) = nearestUnsigned n (a.toNat + b.toNat)
  | uqsub => (r.toNat : Int) = nearestUnsigned n (a.toNat - b.toNat)
  | sdiv => r.toInt = signedQuotient n a.toInt b.toInt
  | sdivr => r.toInt = signedQuotient n b.toInt a.toInt
  | udiv => r.toNat = unsignedQuotient a.toNat b.toNat
  | udivr => r.toNat = unsignedQuotient b.toNat a.toNat

section

variable {n : Nat}

/-- The nearest signed number is in range. -/
theorem nearestSigned_range (n : Nat) (z : Int) :
    -(twoPow (n - 1) : Int) ≤ nearestSigned n z ∧ nearestSigned n z < twoPow (n - 1) := by
  have := twoPow_pos (n - 1)
  unfold nearestSigned nearest
  split
  · omega
  · split <;> omega

/-- The nearest unsigned number is in range. -/
theorem nearestUnsigned_range (n : Nat) (z : Int) : 0 ≤ nearestUnsigned n z ∧ nearestUnsigned n z < twoPow n := by
  have := twoPow_pos n
  unfold nearestUnsigned nearest
  split
  · omega
  · split <;> omega

/-- A number in range is the nearest one. -/
theorem nearestSigned_of_range {z : Int} (low : -(twoPow (n - 1) : Int) ≤ z) (high : z < twoPow (n - 1)) :
    nearestSigned n z = z := by
  unfold nearestSigned nearest
  rw [if_neg (by omega), if_neg (by omega)]

theorem clampSigned_eq (z : Int) : clampSigned n z = BitVec.ofInt n (nearestSigned n z) := by
  have := twoPow_pos (n - 1)
  unfold clampSigned nearestSigned nearest
  congr 1
  split
  · omega
  · split <;> omega

theorem clampUnsigned_eq (z : Int) : clampUnsigned n z = BitVec.ofInt n (nearestUnsigned n z) := by
  have := twoPow_pos n
  unfold clampUnsigned nearestUnsigned nearest
  congr 1
  split
  · omega
  · split <;> omega

/-- **A number brought into the signed range** is the nearest one. -/
theorem toInt_clampSigned (positive : 0 < n) (z : Int) : (clampSigned n z).toInt = nearestSigned n z := by
  obtain ⟨low, high⟩ := nearestSigned_range n z
  rw [clampSigned_eq, toInt_ofInt_of_range positive low high]

/-- **A number brought into the unsigned range** is the nearest one. -/
theorem toNat_clampUnsigned (z : Int) : ((clampUnsigned n z).toNat : Int) = nearestUnsigned n z := by
  obtain ⟨low, high⟩ := nearestUnsigned_range n z
  rw [clampUnsigned_eq, toNat_ofInt_of_range low high]

/-- A difference modulo the range. -/
theorem toNat_sub_eq (a b : BitVec n) : ((a - b).toNat : Int) = (a.toNat - b.toNat) % twoPow n := by
  have hb : b.toNat < twoPow n := b.isLt
  have moved : ((twoPow n - b.toNat + a.toNat : Nat) : Int) = a.toNat - b.toNat + twoPow n * 1 := by omega
  rw [← Int.add_mul_emod_self_left _ _ 1, ← moved]
  exact congrArg Nat.cast (BitVec.toNat_sub a b)

/-- The bits of the quotient rounded toward zero are those that division gives. -/
theorem ofInt_tdiv (a b : BitVec n) : BitVec.ofInt n (a.toInt.tdiv b.toInt) = a.sdiv b := by
  apply BitVec.eq_of_toInt_eq
  rw [BitVec.toInt_ofInt, BitVec.toInt_sdiv]

/-- **The quotient is exact**, but for the least number divided by minus one. -/
theorem toInt_sdiv_eq (positive : 0 < n) (a b : BitVec n) : (a.sdiv b).toInt = signedQuotient n a.toInt b.toInt := by
  have least : (BitVec.intMin n).toInt = -(twoPow (n - 1) : Int) := by
    rw [BitVec.toInt_intMin_of_pos positive]
    exact_mod_cast rfl
  have minus : (-1#n).toInt = -1 := by
    rw [BitVec.neg_one_eq_allOnes, BitVec.toInt_allOnes, if_pos positive]
  unfold signedQuotient
  split
  · rename_i zero
    obtain rfl : b = 0#n := BitVec.eq_of_toInt_eq (by rw [zero, BitVec.toInt_zero])
    rw [BitVec.sdiv_zero, BitVec.toInt_zero]
  · split
    · rename_i corner
      obtain rfl : a = BitVec.intMin n := BitVec.eq_of_toInt_eq (by rw [corner.1, least])
      obtain rfl : b = -1#n := BitVec.eq_of_toInt_eq (by rw [corner.2, minus])
      rw [BitVec.intMin_sdiv_neg_one, least]
    · rename_i other
      apply BitVec.toInt_sdiv_of_ne_or_ne
      by_cases first : a = BitVec.intMin n
      · exact .inr fun second => other ⟨by rw [first, least], by rw [second, minus]⟩
      · exact .inl first

/-- The unsigned quotient is exact. -/
theorem toNat_div_eq (a b : BitVec n) : (a / b).toNat = unsignedQuotient a.toNat b.toNat := by
  rw [BitVec.toNat_udiv, unsignedQuotient]
  split
  · rename_i zero
    rw [zero, Nat.div_zero]
  · rfl

/-- **An operation is exact.** -/
theorem ElementOp.apply_exact (positive : 0 < n) (op : ElementOp) (a b : BitVec n) : op.Exact a b (op.apply a b) := by
  -- each operation is stated by the integers that its operands stand for
  cases op with
  | add => exact congrArg Nat.cast (BitVec.toNat_add a b)
  | sub => exact toNat_sub_eq a b
  | subr => exact toNat_sub_eq b a
  | mul => exact congrArg Nat.cast (BitVec.toNat_mul a b)
  | smax =>
    show (if a.toInt < b.toInt then b else a).toInt = _
    split <;> omega
  | smin =>
    show (if b.toInt < a.toInt then b else a).toInt = _
    split <;> omega
  | umax =>
    show (if a.toNat < b.toNat then b else a).toNat = _
    split <;> omega
  | umin =>
    show (if b.toNat < a.toNat then b else a).toNat = _
    split <;> omega
  | and => exact fun i _ => BitVec.getLsbD_and
  | orr => exact fun i _ => BitVec.getLsbD_or
  | eor => exact fun i _ => BitVec.getLsbD_xor
  | bic =>
    intro i hi
    show (a &&& ~~~b).getLsbD i = _
    rw [BitVec.getLsbD_and, BitVec.getLsbD_not, decide_eq_true hi, Bool.true_and]
  | sqadd | sqsub => exact toInt_clampSigned positive _
  | uqadd | uqsub => exact toNat_clampUnsigned _
  | sdiv =>
    show (BitVec.ofInt n (a.toInt.tdiv b.toInt)).toInt = _
    rw [ofInt_tdiv, toInt_sdiv_eq positive]
  | sdivr =>
    show (BitVec.ofInt n (b.toInt.tdiv a.toInt)).toInt = _
    rw [ofInt_tdiv, toInt_sdiv_eq positive]
  | udiv => exact toNat_div_eq a b
  | udivr => exact toNat_div_eq b a

end

/-! ## Words -/

/-- The signed value of the lowest bits of a word, as a word. -/
def signedWord (bits : Nat) (v : BitVec 64) : BitVec 64 := BitVec.ofInt 64 (Bits.signedValue bits v)

/-- The exact sum or difference of two numbers. -/
def combined (subtracts : Bool) (x y : Int) : Int := if subtracts then x - y else x + y

/-- The sum or difference of two words, which wraps. -/
def wrapped (subtracts : Bool) (a b : BitVec 64) : BitVec 64 := if subtracts then a - b else a + b

/-- A word whose highest bit tells that the signs of the operands and of the wrapped result do not go together. -/
def overflowing (subtracts : Bool) (a b : BitVec 64) : BitVec 64 :=
  if subtracts then (a ^^^ b) &&& (a ^^^ wrapped subtracts a b) else ~~~(a ^^^ b) &&& (a ^^^ wrapped subtracts a b)

/-- **A saturating sum or difference of signed words.** Below 64 bits the words have room for the exact result, which is cut
    to the range. With 64 bits the sign of the first operand tells on which side a result that overflows is. -/
def saturating (bits : Nat) (subtracts : Bool) (a b : BitVec 64) : BitVec 64 :=
  let greatest := onesBelow (bits - 1)
  let least := -greatest - 1
  let result := wrapped subtracts a b
  if bits < 64 then if result.slt least then least else if greatest.slt result then greatest else result
  else if overflowing subtracts a b >>> 63 = 0 then result
  else if a.slt 0 then least
  else greatest

/-- A saturating sum or difference of unsigned words. A sum that wraps is less than its operands. -/
def saturatingUnsigned (bits : Nat) (subtracts : Bool) (a b : BitVec 64) : BitVec 64 :=
  if subtracts then if a < b then 0 else a - b
  else if a + b < a ∨ onesBelow bits < a + b then onesBelow bits
  else a + b

/-- The quotient of signed words; a division by minus one is a negation, which wraps. -/
def wordQuotient (a b : BitVec 64) : BitVec 64 := if b = 0 then 0 else if b = -1 then 0 - a else a.sdiv b

/-- **An operation on the zero-extended elements of two words**, cut to the element. -/
def ElementOp.onWords (op : ElementOp) (bits : Nat) (a b : BitVec 64) : BitVec 64 :=
  let sa := signedWord bits a
  let sb := signedWord bits b
  let result :=
    match op with
    | add => a + b
    | sub => a - b
    | subr => b - a
    | mul => a * b
    | smax => if sa.slt sb then sb else sa
    | smin => if sb.slt sa then sb else sa
    | umax => if a < b then b else a
    | umin => if b < a then b else a
    | and => a &&& b
    | orr => a ||| b
    | eor => a ^^^ b
    | bic => a &&& ~~~b
    | sqadd => saturating bits false sa sb
    | sqsub => saturating bits true sa sb
    | uqadd => saturatingUnsigned bits false a b
    | uqsub => saturatingUnsigned bits true a b
    | sdiv => wordQuotient sa sb
    | sdivr => wordQuotient sb sa
    | udiv => if b = 0 then 0 else a / b
    | udivr => if a = 0 then 0 else b / a
  result &&& onesBelow bits

section

variable {n : Nat}

/-- The lowest bits of a word are those of its signed value. -/
theorem setWidth_eq_ofInt (narrow : n ≤ 64) (x : BitVec 64) : x.setWidth n = BitVec.ofInt n x.toInt :=
  (BitVec.signExtend_eq_setWidth_of_le x narrow).symm

/-- A difference of words that is cut to the element is the difference of what the words are cut to. -/
theorem setWidth_sub (narrow : n ≤ 64) (x y : BitVec 64) : (x - y).setWidth n = x.setWidth n - y.setWidth n := by
  rw [BitVec.sub_eq_add_neg, BitVec.setWidth_add _ _ narrow, BitVec.setWidth_neg_of_le narrow, ← BitVec.sub_eq_add_neg]

/-- A word is cut to its lowest bits. -/
theorem and_onesBelow (n : Nat) (x : BitVec 64) : x &&& onesBelow n = (x.setWidth n).setWidth 64 := by
  apply BitVec.eq_of_getLsbD_eq
  intro i hi
  rw [BitVec.getLsbD_and, BitmaskImmediate.getLsbD_onesBelow n hi, BitVec.getLsbD_setWidth, BitVec.getLsbD_setWidth]
  simp [hi, Bool.and_comm]

/-- An element that is extended is cut to itself. -/
theorem setWidth_extended (narrow : n ≤ 64) (a : BitVec n) : (a.setWidth 64).setWidth n = a :=
  (BitVec.setWidth_setWidth_of_le a narrow).trans (BitVec.setWidth_eq a)

/-- A number in the range of words is the signed value of a word. -/
theorem toInt_word {z : Int} (low : -(twoPow 63 : Int) ≤ z) (high : z < twoPow 63) : (BitVec.ofInt 64 z).toInt = z :=
  toInt_ofInt_of_range (by decide) low high

/-- The signed word of an element has its value. -/
theorem toInt_signedWord (positive : 0 < n) (narrow : n ≤ 64) (a : BitVec n) :
    (signedWord n (a.setWidth 64)).toInt = a.toInt := by
  have value : Bits.signedValue n (a.setWidth 64) = a.toInt := by
    unfold Bits.signedValue
    split
    · obtain rfl : n = 64 := by omega
      rw [BitVec.setWidth_eq]
    · rw [setWidth_extended narrow]
  have room : twoPow (n - 1) ≤ twoPow 63 := twoPow_le (by omega)
  obtain ⟨low, high⟩ := toInt_bounds a
  rw [signedWord, value]
  exact toInt_word (by omega) (by omega)

/-- The greatest unsigned number of some bits, as a word. -/
theorem toNat_onesBelow (narrow : n ≤ 64) : (onesBelow n).toNat = twoPow n - 1 := by
  have one := twoPow_pos n
  unfold BitmaskImmediate.onesBelow
  split
  · obtain rfl : n = 64 := by omega
    rfl
  · have small : twoPow n ≤ twoPow 63 := twoPow_le (by omega)
    have half : twoPow 63 = 9223372036854775808 := by decide
    rw [BitVec.toNat_ofNat, Nat.mod_eq_of_lt (by omega)]

/-- The bits below `n` are the greatest signed number of `n + 1` bits. -/
theorem toInt_greatest (narrow : n < 64) : (onesBelow n).toInt = twoPow n - 1 := by
  have one := twoPow_pos n
  have small : twoPow n ≤ twoPow 63 := twoPow_le (by omega)
  have half : twoPow 63 = 9223372036854775808 := by decide
  rw [BitVec.toInt_eq_toNat_cond, toNat_onesBelow (by omega), if_pos (by omega)]
  omega

/-- The least signed number of `n + 1` bits is one below what the bits below `n` are when negated. -/
theorem toInt_least (narrow : n < 64) : (-onesBelow n - 1).toInt = -(twoPow n : Int) := by
  have small : twoPow n ≤ twoPow 63 := twoPow_le (by omega)
  have one := twoPow_pos n
  have below : -onesBelow n - 1 = BitVec.ofInt 64 (-(onesBelow n).toInt - 1) := by
    apply BitVec.eq_of_toInt_eq
    rw [BitVec.toInt_sub, BitVec.toInt_ofInt, BitVec.toInt_neg]
    simp
  have value : -(onesBelow n).toInt - 1 = -(twoPow n : Int) := by
    rw [toInt_greatest narrow]
    omega
  rw [below, value]
  exact toInt_word (by omega) (by omega)

/-- A wrapped result has the bits of the exact one. -/
theorem wrapped_eq (subtracts : Bool) (a b : BitVec 64) :
    wrapped subtracts a b = BitVec.ofInt 64 (combined subtracts a.toInt b.toInt) := by
  apply BitVec.eq_of_toInt_eq
  rw [BitVec.toInt_ofInt]
  cases subtracts with
  | true => exact BitVec.toInt_sub
  | false => exact BitVec.toInt_add a b

/-- **The signs tell whether the exact result is a word.** -/
theorem overflowing_iff (subtracts : Bool) (a b : BitVec 64) : overflowing subtracts a b >>> 63 = 0 ↔
    -(twoPow 63 : Int) ≤ combined subtracts a.toInt b.toInt ∧ combined subtracts a.toInt b.toInt < twoPow 63 := by
  have top : ∀ x : BitVec 64, x >>> 63 = 0 ↔ x.msb = false := by
    intro x
    rw [← BitVec.toNat_inj, BitVec.toNat_ushiftRight, Nat.shiftRight_eq_div_pow, BitVec.msb_eq_decide]
    simp
  have half : (twoPow 63 : Int) = 2 ^ (64 - 1) := by decide
  rw [top, half]
  cases subtracts with
  | true =>
    have signs : (overflowing true a b).msb = a.ssubOverflow b := by
      show ((a ^^^ b) &&& (a ^^^ (a - b))).msb = _
      rw [BitVec.ssubOverflow_eq, BitVec.msb_and, BitVec.msb_xor, BitVec.msb_xor]
      cases a.msb <;> cases b.msb <;> cases (a - b).msb <;> rfl
    rw [signs]
    unfold BitVec.ssubOverflow combined
    simp
    omega
  | false =>
    have signs : (overflowing false a b).msb = a.saddOverflow b := by
      show (~~~(a ^^^ b) &&& (a ^^^ (a + b))).msb = _
      rw [BitVec.saddOverflow_eq, BitVec.msb_and, BitVec.msb_not, BitVec.msb_xor, BitVec.msb_xor]
      cases a.msb <;> cases b.msb <;> cases (a + b).msb <;> rfl
    rw [signs]
    unfold BitVec.saddOverflow combined
    simp
    omega

/-- **Saturation with signed words is exact**: the result is the exact one brought into range. Below 64 bits the second
    operand may be out of range itself, but has to leave room in the word. -/
theorem toInt_saturating (positive : 0 < n) (narrow : n ≤ 64) (subtracts : Bool) {a b : BitVec 64}
    (low : -(twoPow (n - 1) : Int) ≤ a.toInt) (high : a.toInt < twoPow (n - 1))
    (room : n < 64 → -(twoPow 62 : Int) ≤ b.toInt ∧ b.toInt < twoPow 62) :
    (saturating n subtracts a b).toInt = nearestSigned n (combined subtracts a.toInt b.toInt) := by
  have greatest := toInt_greatest (n := n - 1) (by omega)
  have least := toInt_least (n := n - 1) (by omega)
  have result := wrapped_eq subtracts a b
  have side : combined subtracts a.toInt b.toInt = a.toInt - b.toInt ∨
      combined subtracts a.toInt b.toInt = a.toInt + b.toInt := by cases subtracts <;> simp [combined]
  unfold saturating
  -- below 64 bits the word holds the exact result; at 64 bits the overflow has to be seen from the signs
  by_cases word : n < 64
  · have half : twoPow (n - 1) ≤ twoPow 62 := twoPow_le (by omega)
    have twice : twoPow 63 = twoPow 62 * 2 := rfl
    obtain ⟨low', high'⟩ := room word
    have exact_value : (wrapped subtracts a b).toInt = combined subtracts a.toInt b.toInt := by
      rw [result]
      exact toInt_word (by omega) (by omega)
    rw [if_pos word]
    simp only [BitVec.slt_iff_toInt_lt, greatest, least, exact_value, nearestSigned, nearest]
    split
    · exact least
    · split
      · exact greatest
      · exact exact_value
  · obtain rfl : n = 64 := by omega
    have fits := overflowing_iff subtracts a b
    obtain ⟨low', high'⟩ : -(twoPow 63 : Int) ≤ b.toInt ∧ b.toInt < twoPow 63 := toInt_bounds b
    rw [if_neg word]
    simp only [fits]
    split
    · rename_i inside
      rw [result, toInt_word inside.1 inside.2, nearestSigned_of_range inside.1 inside.2]
    · -- the first operand is on the side of the exact result
      rename_i outside
      have sign : a.slt 0 = true ↔ a.toInt < 0 := BitVec.slt_iff_toInt_lt
      simp only [sign, nearestSigned, nearest]
      split
      · have below : combined subtracts a.toInt b.toInt < -(twoPow (64 - 1) : Int) := by
          show _ < -(twoPow 63 : Int)
          omega
        rw [if_pos below]
        exact least
      · have above : (twoPow (64 - 1) : Int) - 1 < combined subtracts a.toInt b.toInt := by
          show (twoPow 63 : Int) - 1 < _
          omega
        rw [if_neg (by omega), if_pos above]
        exact greatest

/-- **Saturation with unsigned words** gives the nearest number: a sum that wraps is less than its operands. -/
theorem toNat_saturatingUnsigned (narrow : n ≤ 64) (subtracts : Bool) {a b : BitVec 64} (ha : a.toNat < twoPow n)
    (hb : b.toNat < twoPow n) :
    ((saturatingUnsigned n subtracts a b).toNat : Int) = nearestUnsigned n (combined subtracts a.toNat b.toNat) := by
  have greatest := toNat_onesBelow narrow
  unfold saturatingUnsigned nearestUnsigned nearest combined
  cases subtracts with
  | true =>
    rw [if_pos rfl, if_pos rfl]
    simp only [BitVec.lt_def]
    split
    · rw [if_pos (by omega)]
      rfl
    · rename_i order
      have exact_value : (a - b).toNat = a.toNat - b.toNat := BitVec.toNat_sub_of_le (Nat.not_lt.mp order)
      rw [if_neg (by omega), if_neg (by omega), exact_value]
      omega
  | false =>
    have sum : (a + b).toNat = (a.toNat + b.toNat) % twoPow 64 := BitVec.toNat_add a b
    simp only [Bool.false_eq_true, if_false, BitVec.lt_def, greatest]
    by_cases word : a.toNat + b.toNat < twoPow 64
    · rw [Nat.mod_eq_of_lt word] at sum
      rw [if_neg (by omega : ¬ (a.toNat + b.toNat : Int) < 0)]
      split
      · rw [if_pos (by omega), greatest]
        omega
      · rw [if_neg (by omega), sum]
        omega
    · -- a sum of narrower elements does not wrap
      have whole : twoPow n = twoPow 64 := by
        by_cases less : n ≤ 63
        · have half := twoPow_le less
          have twice : twoPow 64 = twoPow 63 * 2 := rfl
          omega
        · rw [show n = 64 by omega]
      have less : (a.toNat + b.toNat) % twoPow 64 = a.toNat + b.toNat - twoPow 64 := by
        rw [Nat.mod_eq_sub_mod (Nat.not_lt.mp word), Nat.mod_eq_of_lt (by omega)]
      rw [less] at sum
      rw [if_pos (by omega), if_neg (by omega), if_pos (by omega), greatest]
      omega

/-- A quotient of signed words has the bits of the exact one. -/
theorem wordQuotient_eq (a b : BitVec 64) : wordQuotient a b = BitVec.ofInt 64 (a.toInt.tdiv b.toInt) := by
  rw [ofInt_tdiv]
  unfold wordQuotient
  split
  · rename_i zero
    rw [zero]
    exact BitVec.sdiv_zero.symm
  · split
    · rename_i minus
      have value : (-1 : BitVec 64).toInt = -1 := by decide
      apply BitVec.eq_of_toInt_eq
      rw [minus, BitVec.toInt_sdiv, value, Int.tdiv_neg, Int.tdiv_one, BitVec.toInt_sub]
      simp
    · rfl

/-! ## Agreement -/

/-- **A saturating operation on an extended element**, with a second operand that leaves room in the word. -/
theorem setWidth_saturating (positive : 0 < n) (narrow : n ≤ 64) (subtracts : Bool) (a : BitVec n) {b : BitVec 64}
    (room : n < 64 → -(twoPow 62 : Int) ≤ b.toInt ∧ b.toInt < twoPow 62) :
    (saturating n subtracts (signedWord n (a.setWidth 64)) b).setWidth n =
      clampSigned n (combined subtracts a.toInt b.toInt) := by
  have value := toInt_signedWord positive narrow a
  obtain ⟨low, high⟩ := toInt_bounds a
  rw [setWidth_eq_ofInt narrow, toInt_saturating positive narrow subtracts (value ▸ low) (value ▸ high) room, value,
    clampSigned_eq]

/-- A second element leaves room. -/
theorem room_of_element (positive : 0 < n) (b : BitVec n) (word : n < 64) :
    -(twoPow 62 : Int) ≤ b.toInt ∧ b.toInt < twoPow 62 := by
  have half : twoPow (n - 1) ≤ twoPow 62 := twoPow_le (by omega)
  obtain ⟨low, high⟩ := toInt_bounds b
  omega

/-- A saturating operation on unsigned elements. -/
theorem setWidth_saturatingUnsigned (narrow : n ≤ 64) (subtracts : Bool) (a b : BitVec n) :
    (saturatingUnsigned n subtracts (a.setWidth 64) (b.setWidth 64)).setWidth n =
      clampUnsigned n (combined subtracts a.toNat b.toNat) := by
  have na : (a.setWidth 64).toNat = a.toNat := BitVec.toNat_setWidth_of_le narrow
  have nb : (b.setWidth 64).toNat = b.toNat := BitVec.toNat_setWidth_of_le narrow
  have words := toNat_saturatingUnsigned narrow subtracts (na ▸ a.isLt) (nb ▸ b.isLt)
  rw [na, nb, ← toNat_clampUnsigned] at words
  apply BitVec.eq_of_toNat_eq
  rw [BitVec.toNat_setWidth, Int.ofNat.inj words, Nat.mod_eq_of_lt (clampUnsigned n _).isLt]

/-- A quotient of unsigned elements. -/
theorem setWidth_div (narrow : n ≤ 64) (a b : BitVec n) :
    (if b.setWidth 64 = 0 then 0 else a.setWidth 64 / b.setWidth 64).setWidth n = a / b := by
  have na : (a.setWidth 64).toNat = a.toNat := BitVec.toNat_setWidth_of_le narrow
  have nb : (b.setWidth 64).toNat = b.toNat := BitVec.toNat_setWidth_of_le narrow
  have below : a.toNat / b.toNat < 2 ^ n := Nat.lt_of_le_of_lt (Nat.div_le_self ..) a.isLt
  apply BitVec.eq_of_toNat_eq
  split
  · rename_i zero
    have none : b.toNat = 0 := by rw [← nb, zero]; rfl
    rw [BitVec.toNat_udiv, none, Nat.div_zero]
    simp
  · rw [BitVec.toNat_setWidth, BitVec.toNat_udiv, na, nb, Nat.mod_eq_of_lt below, BitVec.toNat_udiv]

/-- **Words give what the operation gives.** -/
theorem ElementOp.onWords_eq (positive : 0 < n) (narrow : n ≤ 64) (op : ElementOp) (a b : BitVec n) :
    op.onWords n (a.setWidth 64) (b.setWidth 64) = (op.apply a b).setWidth 64 := by
  have ha := setWidth_extended narrow a
  have hb := setWidth_extended narrow b
  have sa := toInt_signedWord positive narrow a
  have sb := toInt_signedWord positive narrow b
  have wa : (signedWord n (a.setWidth 64)).setWidth n = a := by rw [setWidth_eq_ofInt narrow, sa, BitVec.ofInt_toInt]
  have wb : (signedWord n (b.setWidth 64)).setWidth n = b := by rw [setWidth_eq_ofInt narrow, sb, BitVec.ofInt_toInt]
  have na : (a.setWidth 64).toNat = a.toNat := BitVec.toNat_setWidth_of_le narrow
  have nb : (b.setWidth 64).toNat = b.toNat := BitVec.toNat_setWidth_of_le narrow
  unfold onWords
  rw [and_onesBelow]
  congr 1
  -- operations that wrap may be cut at the end; all others are done on the value of the element in its word
  cases op with
  | add =>
    show (a.setWidth 64 + b.setWidth 64).setWidth n = a + b
    rw [BitVec.setWidth_add _ _ narrow, ha, hb]
  | sub =>
    show (a.setWidth 64 - b.setWidth 64).setWidth n = a - b
    rw [setWidth_sub narrow, ha, hb]
  | subr =>
    show (b.setWidth 64 - a.setWidth 64).setWidth n = b - a
    rw [setWidth_sub narrow, ha, hb]
  | mul =>
    show (a.setWidth 64 * b.setWidth 64).setWidth n = a * b
    rw [BitVec.setWidth_mul _ _ narrow, ha, hb]
  | smax | smin =>
    simp only [BitVec.slt_iff_toInt_lt, sa, sb, apply]
    split
    · assumption
    · assumption
  | umax | umin =>
    simp only [BitVec.lt_def, na, nb, apply]
    split
    · assumption
    · assumption
  | and =>
    show (a.setWidth 64 &&& b.setWidth 64).setWidth n = a &&& b
    rw [BitVec.setWidth_and, ha, hb]
  | orr =>
    show (a.setWidth 64 ||| b.setWidth 64).setWidth n = a ||| b
    rw [BitVec.setWidth_or, ha, hb]
  | eor =>
    show (a.setWidth 64 ^^^ b.setWidth 64).setWidth n = a ^^^ b
    rw [BitVec.setWidth_xor, ha, hb]
  | bic =>
    show (a.setWidth 64 &&& ~~~(b.setWidth 64)).setWidth n = a &&& ~~~b
    rw [BitVec.setWidth_and, BitVec.setWidth_not narrow, ha, hb]
  | sqadd =>
    have words := setWidth_saturating positive narrow false a (sb ▸ room_of_element positive b)
    rwa [sb] at words
  | sqsub =>
    have words := setWidth_saturating positive narrow true a (sb ▸ room_of_element positive b)
    rwa [sb] at words
  | uqadd => exact setWidth_saturatingUnsigned narrow false a b
  | uqsub => exact setWidth_saturatingUnsigned narrow true a b
  | sdiv =>
    show (wordQuotient _ _).setWidth n = BitVec.ofInt n (a.toInt.tdiv b.toInt)
    rw [wordQuotient_eq, setWidth_ofInt narrow, sa, sb]
  | sdivr =>
    show (wordQuotient _ _).setWidth n = BitVec.ofInt n (b.toInt.tdiv a.toInt)
    rw [wordQuotient_eq, setWidth_ofInt narrow, sa, sb]
  | udiv => exact setWidth_div narrow a b
  | udivr => exact setWidth_div narrow b a

/-- **A saturating operation with an immediate** is exact for immediates of sixteen bits, and words give the same. -/
theorem withImmediate_saturating (positive : 0 < n) (narrow : n ≤ 64) (a : BitVec n) {imm : BitVec 64}
    (small : imm.toNat ≤ 65535) :
    ((Semantics.withImmediate .sqadd a imm).toInt = nearestSigned n (a.toInt + imm.toNat) ∧
        (saturating n false (signedWord n (a.setWidth 64)) imm).setWidth n = Semantics.withImmediate .sqadd a imm) ∧
      (Semantics.withImmediate .sqsub a imm).toInt = nearestSigned n (a.toInt - imm.toNat) ∧
        (saturating n true (signedWord n (a.setWidth 64)) imm).setWidth n = Semantics.withImmediate .sqsub a imm := by
  have value : imm.toInt = imm.toNat := by rw [BitVec.toInt_eq_toNat_cond, if_pos (by omega)]
  have room : n < 64 → -(twoPow 62 : Int) ≤ imm.toInt ∧ imm.toInt < twoPow 62 := by
    have large : twoPow 62 = 4611686018427387904 := by decide
    intro _
    omega
  have sum : (clampSigned n (a.toInt + imm.toInt)).toInt = _ := toInt_clampSigned positive _
  have difference : (clampSigned n (a.toInt - imm.toInt)).toInt = _ := toInt_clampSigned positive _
  rw [← value]
  exact ⟨⟨sum, setWidth_saturating positive narrow false a room⟩, difference,
    setWidth_saturating positive narrow true a room⟩

end

/-- **Element operations are exact at every element size.** Each of them gives the exact result of its elements, and 64-bit
    words give the same although sums and negations wrap in them. A signed saturating operation is exact with an immediate
    that is out of the range of the element as well. -/
theorem Element.operations_exact (e : Element) :
    (∀ (op : ElementOp) (a b : BitVec e.lane.bits), op.Exact a b (op.apply a b) ∧
      op.onWords e.lane.bits (a.setWidth 64) (b.setWidth 64) = (op.apply a b).setWidth 64) ∧
    ∀ (a : BitVec e.lane.bits) (imm : BitVec 64), imm.toNat ≤ (if e = .b then 255 else 65280) →
      ((Semantics.withImmediate .sqadd a imm).toInt = nearestSigned e.lane.bits (a.toInt + imm.toNat) ∧
        (saturating e.lane.bits false (signedWord e.lane.bits (a.setWidth 64)) imm).setWidth e.lane.bits =
          Semantics.withImmediate .sqadd a imm) ∧
      (Semantics.withImmediate .sqsub a imm).toInt = nearestSigned e.lane.bits (a.toInt - imm.toNat) ∧
        (saturating e.lane.bits true (signedWord e.lane.bits (a.setWidth 64)) imm).setWidth e.lane.bits =
          Semantics.withImmediate .sqsub a imm := by
  have size : 0 < e.lane.bits ∧ e.lane.bits ≤ 64 := by cases e <;> decide
  constructor
  · intro op a b
    exact ⟨op.apply_exact size.1 a b, op.onWords_eq size.1 size.2 a b⟩
  · intro a imm small
    refine withImmediate_saturating size.1 size.2 a ?_
    split at small <;> omega

/-- The least byte divided by minus one is itself, and a byte added to an immediate that is no signed byte stops at the
    greatest one. -/
theorem Element.operations_exact_byte :
    (ElementOp.sdiv.apply (0x80 : BitVec 8) 0xff).toInt = -128 ∧
      (200 : BitVec 64).toNat ≤ 255 ∧ (Semantics.withImmediate .sqadd (100 : BitVec 8) 200).toInt = 127 := by
  obtain ⟨elements, immediates⟩ := operations_exact .b
  have corner := (elements .sdiv (0x80 : BitVec 8) (0xff : BitVec 8)).1
  have bounded := (immediates (100 : BitVec 8) 200 (by decide)).1.1
  exact ⟨corner.trans (by decide), by decide, bounded.trans (by decide)⟩

end ArmToolkit.A64
