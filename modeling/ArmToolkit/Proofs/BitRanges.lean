import ArmToolkit.Bits
import ArmToolkit.Bits.NamedField
import ArmToolkit.Condition
import Mathlib.Data.List.Find

/-!
# `Proofs.BitRanges` — named fields, and numbers in a number of bits

## Contents
- **Fields.** Setting a field changes its bits and no others (`NamedField.getLsbD_set`), and a number that fits is read back
  (`NamedField.get_set`). Fields that lie apart do not see each other (`NamedField.get_set_of_apart`).
- **The flags register.** It is a word of four fields (`Flags.word_eq_set`, `Flags.ofWord_eq_get`).
- **Numbers.** A number fits in some bits exactly if it comes back from them (`fitsSigned_iff`, `fitsUnsigned_iff`), and
  shifting up and down extends the sign (`extendByShifts_eq`).
- **Zeros at both ends.** `trailingZeros_eq_iff` and `leadingZeros_eq_iff`.
-/

namespace ArmToolkit

namespace Bits

/-! ## Fields -/

namespace NamedField

/-- **A field that a word of `w` bits can have**: it has bits, they are in the word, and its type has room for them. A flag
    has one bit. -/
structure Valid (f : NamedField) (w : Nat) : Prop where
  positive : 0 < f.count
  inside : f.index + f.count ≤ w
  typed : match f.type with
    | .flag => f.count = 1
    | .unsigned bits | .signed bits => f.count ≤ bits

/-- **Two fields that have no bit in common.** -/
def Apart (f g : NamedField) : Prop := f.index + f.count ≤ g.index ∨ g.index + g.count ≤ f.index

variable {f g : NamedField} {w : Nat}

theorem getLsbD_mask (f : NamedField) (w j : Nat) :
    (f.mask w).getLsbD j = decide (j < w ∧ f.index ≤ j ∧ j < f.index + f.count) := by
  rw [mask, BitVec.getLsbD_ofNat, Nat.testBit_shiftLeft, show twoPow f.count = 2 ^ f.count from rfl,
    Nat.testBit_two_pow_sub_one]
  by_cases low : f.index ≤ j
  · simp [low, show j - f.index < f.count ↔ j < f.index + f.count by omega]
  · simp [low]

/-- **Setting a field changes its bits and no others.** -/
theorem getLsbD_set (f : NamedField) (v : BitVec w) (z : Int) (j : Nat) : (f.set v z).getLsbD j =
    if f.index ≤ j ∧ j < f.index + f.count then
      decide (j < w) && (BitVec.ofInt w (f.type.convert z)).getLsbD (j - f.index)
    else v.getLsbD j := by
  rw [set, BitVec.getLsbD_or, BitVec.getLsbD_and, BitVec.getLsbD_and, BitVec.getLsbD_not, BitVec.getLsbD_shiftLeft,
    getLsbD_mask]
  by_cases inside : j < w
  · split
    · rename_i here
      simp [inside, here, Nat.not_lt.mpr here.1]
    · rename_i elsewhere
      simp [inside, elsewhere]
  · simp [inside, BitVec.getLsbD_of_ge v j (Nat.not_lt.mp inside)]

/-- The bits of a field that was set are the lowest bits of the number. -/
theorem extractLsb'_set (inside : f.index + f.count ≤ w) (v : BitVec w) (z : Int) :
    (f.set v z).extractLsb' f.index f.count = BitVec.ofInt f.count (f.type.convert z) := by
  rw [← setWidth_ofInt (show f.count ≤ w by omega)]
  apply BitVec.eq_of_getLsbD_eq
  intro j hj
  rw [BitVec.getLsbD_extractLsb', getLsbD_set, if_pos ⟨by omega, by omega⟩, BitVec.getLsbD_setWidth]
  simp [hj, show f.index + j < w by omega]

/-- **A number that fits is read as it was stored.** -/
theorem get_set (valid : f.Valid w) {z : Int} (fits : f.fits z = true) (v : BitVec w) : f.get (f.set v z) = z := by
  obtain ⟨type, index, count⟩ := f
  obtain ⟨positive, inside, typed⟩ := valid
  unfold get
  rw [extractLsb'_set inside]
  -- a number that fits the field fits its type as well, so converting it changes nothing, before and after
  cases type with
  | flag =>
    obtain ⟨low, high⟩ : 0 ≤ z ∧ z < twoPow count := of_decide_eq_true fits
    have one : count = 1 := typed
    subst one
    have two : (twoPow 1 : Int) = 2 := rfl
    obtain rfl | rfl : z = 0 ∨ z = 1 := by omega
    · rfl
    · rfl
  | unsigned bits =>
    obtain ⟨low, high⟩ : 0 ≤ z ∧ z < twoPow count := of_decide_eq_true fits
    have room : z < twoPow bits := lt_of_lt_of_le high (by exact_mod_cast twoPow_le typed)
    have converted : FieldType.convert (.unsigned bits) z = z := toNat_ofInt_of_range low room
    dsimp only
    rw [converted, toNat_ofInt_of_range low high, converted]
  | signed bits =>
    obtain ⟨low, high⟩ : -(twoPow (count - 1) : Int) ≤ z ∧ z < twoPow (count - 1) := of_decide_eq_true fits
    have room : (twoPow (count - 1) : Int) ≤ twoPow (bits - 1) := by
      exact_mod_cast twoPow_le (Nat.sub_le_sub_right typed 1)
    have converted : FieldType.convert (.signed bits) z = z :=
      toInt_ofInt_of_range (Nat.lt_of_lt_of_le positive typed) (by omega) (by omega)
    dsimp only
    rw [converted]
    exact toInt_ofInt_of_range positive low high

/-- **Setting a field leaves the numbers of the fields apart from it.** -/
theorem get_set_of_apart (apart : f.Apart g) (v : BitVec w) (z : Int) : g.get (f.set v z) = g.get v := by
  have same : (f.set v z).extractLsb' g.index g.count = v.extractLsb' g.index g.count := by
    apply BitVec.eq_of_getLsbD_eq
    intro j hj
    unfold Apart at apart
    rw [BitVec.getLsbD_extractLsb', BitVec.getLsbD_extractLsb', getLsbD_set, if_neg (by omega)]
  unfold get
  rw [same]

end NamedField

/-! ## Numbers -/

/-- **A number fits in a two's complement field** exactly if it is the value of its lowest bits. -/
theorem fitsSigned_iff {bits : Nat} (positive : 0 < bits) (v : BitVec 64) :
    fitsSigned bits v.toInt = true ↔ signedValue bits v = v.toInt := by
  unfold fitsSigned signedValue
  rw [decide_eq_true_eq]
  split
  · rename_i whole
    simp [whole]
  · rename_i part
    have cut : v.setWidth bits = BitVec.ofInt bits v.toInt := by
      rw [← setWidth_ofInt (show bits ≤ 64 by omega), BitVec.ofInt_toInt]
    constructor
    · rintro (whole | ⟨low, high⟩)
      · exact absurd whole part
      · rw [cut, toInt_ofInt_of_range positive low high]
    · intro same
      right
      rw [← same]
      exact toInt_bounds _

/-- **A number fits in an unsigned field** exactly if it is the unsigned value of its lowest bits. -/
theorem fitsUnsigned_iff (bits : Nat) (v : BitVec 64) :
    fitsUnsigned bits v.toInt = true ↔ ((v.setWidth bits).toNat : Int) = v.toInt := by
  unfold fitsUnsigned
  rw [decide_eq_true_eq]
  constructor
  · rintro ⟨low, room⟩
    have value : v.toInt = v.toNat := by
      rw [BitVec.toInt_eq_toNat_cond] at low ⊢
      split
      · rfl
      · have := v.isLt
        omega
    have below : v.toNat < twoPow bits := by
      rcases room with whole | below
      · exact Nat.lt_of_lt_of_le v.isLt (twoPow_le whole)
      · rw [value] at below
        exact_mod_cast below
    rw [value, BitVec.toNat_setWidth, show v.toNat % 2 ^ bits = v.toNat from Nat.mod_eq_of_lt below]
  · intro same
    rw [← same]
    exact ⟨Int.natCast_nonneg _, .inr (by exact_mod_cast (v.setWidth bits).isLt)⟩

/-- **Shifting up and down again extends the sign** of the lowest bits. -/
theorem extendByShifts_eq {n bits : Nat} (wide : 32 ≤ n) (positive : 0 < bits) (narrow : bits ≤ n) (v : BitVec n) :
    extendByShifts bits v = (v.setWidth bits).signExtend n := by
  unfold extendByShifts
  rw [Nat.max_eq_right wide, BitVec.signExtend_eq, BitVec.setWidth_eq]
  apply BitVec.eq_of_getLsbD_eq
  intro i hi
  rw [BitVec.getLsbD_sshiftRight, BitVec.getLsbD_signExtend, BitVec.msb_eq_getLsbD_last, BitVec.msb_eq_getLsbD_last]
  simp only [BitVec.getLsbD_shiftLeft, BitVec.getLsbD_setWidth]
  by_cases low : i < bits
  · have moved : n - bits + i < n ∧ ¬ n - bits + i < n - bits := by omega
    simp [hi, Nat.not_le.mpr hi, low, moved]
  · simp [hi, low, show ¬ n - bits + i < n by omega, show n - 1 - (n - bits) = bits - 1 by omega,
      show bits - 1 < bits by omega, show n - 1 < n by omega, show ¬ n - 1 < n - bits by omega]

/-- A narrow value stays as it is. -/
theorem extendByShifts_of_narrow {n bits : Nat} (narrow : 2 * n ≤ 32 + bits) (v : BitVec n) :
    extendByShifts bits v = v := by
  apply BitVec.eq_of_getLsbD_eq
  intro i hi
  rw [extendByShifts, BitVec.getLsbD_setWidth, BitVec.getLsbD_sshiftRight, if_pos (by omega), BitVec.getLsbD_shiftLeft,
    BitVec.getLsbD_signExtend]
  have moved : n - bits + i < max 32 n ∧ ¬ n - bits + i < n - bits := by omega
  simp [hi, Nat.not_le.mpr hi, moved]

/-! ## Zeros at both ends -/

/-- The first number that has a property, or all of them. -/
theorem find?_range_getD_eq_iff {n k : Nat} (p : Nat → Bool) : ((List.range n).find? p).getD n = k ↔
    k ≤ n ∧ (∀ i < k, p i = false) ∧ (k < n → p k = true) := by
  cases found : (List.range n).find? p with
  | none =>
    have nowhere : ∀ i < n, p i = false := by simpa using found
    constructor
    · rintro rfl
      exact ⟨Nat.le_refl _, nowhere, fun beyond => absurd beyond (Nat.lt_irrefl _)⟩
    · rintro ⟨le, -, here⟩
      by_contra other
      have inside : k < n := Nat.lt_of_le_of_ne le fun same => other same.symm
      rw [nowhere k inside] at here
      cases here inside
  | some i =>
    obtain ⟨here, inside, before⟩ := List.find?_range_eq_some.mp found
    rw [List.mem_range] at inside
    constructor
    · rintro rfl
      exact ⟨Nat.le_of_lt inside, fun j hj => by simpa using before j hj, fun _ => here⟩
    · rintro ⟨le, before', here'⟩
      -- the first such number is the only one with none before it
      rcases Nat.lt_trichotomy i k with lt | rfl | gt
      · rw [before' i lt] at here
        cases here
      · rfl
      · have clear := before k gt
        rw [here' (Nat.lt_trans gt inside)] at clear
        cases clear

/-- **The number of zeros below the lowest one.** -/
theorem trailingZeros_eq_iff {n k : Nat} (v : BitVec n) : trailingZeros v = k ↔
    k ≤ n ∧ (∀ i < k, v.getLsbD i = false) ∧ (k < n → v.getLsbD k = true) :=
  find?_range_getD_eq_iff _

/-- **The number of zeros above the highest one.** -/
theorem leadingZeros_eq_iff {n k : Nat} (v : BitVec n) : leadingZeros v = k ↔
    k ≤ n ∧ (∀ i < k, v.getMsbD i = false) ∧ (k < n → v.getMsbD k = true) := by
  have downwards : (List.range n).reverse = (List.range n).map fun i => n - 1 - i := by
    conv_lhs => rw [List.range_eq_range', List.reverse_range', Nat.zero_add]
  have fromTop : (List.range n).find? (v.getLsbD ∘ fun i => n - 1 - i) = (List.range n).find? v.getMsbD := by
    refine List.find?_congr fun i hi => ?_
    rw [BitVec.getMsbD_eq_getLsbD, decide_eq_true (List.mem_range.mp hi), Bool.true_and]
    rfl
  rw [← find?_range_getD_eq_iff]
  unfold leadingZeros highest?
  rw [downwards, List.find?_map, fromTop]
  cases found : (List.range n).find? v.getMsbD with
  | none => rfl
  | some i =>
    have inside := List.mem_range.mp (List.mem_of_find?_eq_some found)
    show n - 1 - (n - 1 - i) = k ↔ i = k
    rw [show n - 1 - (n - 1 - i) = i by omega]

end Bits

/-! ## The flags register -/

namespace Flags

open Bits

/-- The field of one bit of the flags register. -/
def field (index : Nat) : NamedField := ⟨.flag, index, 1⟩

/-- **The flags register has a field for each flag**, and zeros below. -/
theorem word_eq_set (f : Flags) : f.word =
    (field 28).set ((field 29).set ((field 30).set ((field 31).set 0 f.n.toNat) f.z.toNat) f.c.toNat) f.v.toNat := by
  obtain ⟨n, z, c, v⟩ := f
  cases n <;> cases z <;> cases c <;> cases v <;> decide

theorem get_field (index : Nat) (w : BitVec 32) : (field index).get w = (w.getLsbD index).toNat := by
  have bit : w.extractLsb' index 1 = BitVec.ofBool (w.getLsbD index) := by
    apply BitVec.eq_of_getLsbD_eq
    intro i hi
    simp [Nat.lt_one_iff.mp hi]
  show FieldType.convert .flag (w.extractLsb' index 1).toNat = _
  rw [bit]
  cases w.getLsbD index <;> rfl

/-- **The flags that a word sets** are those of its fields that are not zero. -/
theorem ofWord_eq_get (w : BitVec 32) : ofWord w =
    ⟨(field 31).get w ≠ 0, (field 30).get w ≠ 0, (field 29).get w ≠ 0, (field 28).get w ≠ 0⟩ := by
  unfold ofWord
  simp only [get_field]
  simp

/-- **The flags come back from the flags register.** -/
theorem ofWord_word (f : Flags) : ofWord f.word = f := by
  obtain ⟨n, z, c, v⟩ := f
  cases n <;> cases z <;> cases c <;> cases v <;> decide

end Flags

end ArmToolkit
