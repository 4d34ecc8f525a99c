import ArmToolkit.PowerOfTwo

/-!
# `Bits.NamedField` — typed bit ranges of a word

A named field is a range of bits of a word, together with the type of the number in it. `get` reads the number, `set`
replaces it and leaves all other bits alone, and `fits` tells whether a number comes back as it was stored.
-/

namespace ArmToolkit.Bits

/-- **The type of the number in a field**: a flag, or an integer of a width with or without a sign. -/
inductive FieldType
  | flag
  | unsigned (bits : Nat)
  | signed (bits : Nat)
  deriving DecidableEq

/-- A number converted to the type: every number but zero sets a flag, and integers wrap. -/
def FieldType.convert : FieldType → Int → Int
  | flag, z => if z = 0 then 0 else 1
  | unsigned n, z => (BitVec.ofInt n z).toNat
  | signed n, z => (BitVec.ofInt n z).toInt

/-- A range of `count` bits, from bit `index` up. -/
structure NamedField where
  type : FieldType
  index : Nat
  count : Nat
  deriving DecidableEq

namespace NamedField

variable (f : NamedField)

/-- The word that has exactly the bits of the field set. -/
def mask (w : Nat) : BitVec w := BitVec.ofNat w ((twoPow f.count - 1) <<< f.index)

/-- **The number in the field.** -/
def get {w : Nat} (v : BitVec w) : Int :=
  let raw := v.extractLsb' f.index f.count
  match f.type with
  | .signed _ => raw.toInt
  | type => type.convert raw.toNat

/-- **The word with another number in the field.** -/
def set {w : Nat} (v : BitVec w) (z : Int) : BitVec w :=
  (v &&& ~~~(f.mask w)) ||| ((BitVec.ofInt w (f.type.convert z) <<< f.index) &&& f.mask w)

/-- The word with the bits of a number added to those of the field. -/
def setOr {w : Nat} (v : BitVec w) (z : Int) : BitVec w :=
  f.set v (BitVec.ofInt 64 (f.get v) ||| BitVec.ofInt 64 (f.type.convert z)).toInt

/-- **Whether a number fits**, so that it is read as it was stored. -/
def fits (z : Int) : Bool :=
  match f.type with
  | .signed _ => decide (-(twoPow (f.count - 1) : Int) ≤ z ∧ z < twoPow (f.count - 1))
  | _ => decide (0 ≤ z ∧ z < twoPow f.count)

end NamedField

end ArmToolkit.Bits
