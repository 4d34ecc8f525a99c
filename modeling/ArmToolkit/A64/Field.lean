import ArmToolkit.PowerOfTwo

/-!
# `A64.Field` — bit fields of an instruction word

A field is a run of bits of a 32-bit word. `Field.put` places a number in it and `Field.get` reads it back; a number
too wide for the field loses its upper bits. `coverage` is the set of bits that a list of fields takes up.
-/

namespace ArmToolkit.A64

/-- A 32-bit instruction word. -/
abbrev Word := BitVec 32

/-- A run of `width` bits, from bit `lsb` up. -/
structure Field where
  lsb : Nat
  width : Nat
  deriving DecidableEq

namespace Field

/-- The word that has exactly the bits of the field set. -/
def mask (f : Field) : Word := BitVec.ofNat 32 ((twoPow f.width - 1) <<< f.lsb)

/-- The word with a number in the field and zeros elsewhere. -/
def put (f : Field) (n : Nat) : Word := BitVec.ofNat 32 ((n % twoPow f.width) <<< f.lsb)

/-- **The number in a field.** -/
def get (f : Field) (w : Word) : Nat := (w.extractLsb' f.lsb f.width).toNat

/-- The number in a field, as a two's complement number. -/
def getSigned (f : Field) (w : Word) : Int := (w.extractLsb' f.lsb f.width).toInt

end Field

/-- The bits that some field of a list takes up. -/
def coverage (fs : List Field) : Word := fs.foldr (fun f w => f.mask ||| w) 0

/-- **The word that holds numbers in fields**, one number a field. -/
def putAll (fs : List Field) (ns : List Nat) : Word := (fs.zip ns).foldr (fun p w => p.1.put p.2 ||| w) 0

end ArmToolkit.A64
