import ArmToolkit.Bits

/-!
# `A64.Scratch` — pools of scratch registers

Macros that need a register beside their operands take one from a pool. A pool is a set of register codes; the lowest
code is taken first. What a scope takes out of the pools is put back when it ends.
-/

namespace ArmToolkit.A64

/-- A set of codes without one of them. -/
def withoutBit {n : Nat} (v : BitVec n) (i : Nat) : BitVec n := v &&& ~~~((1 : BitVec n) <<< i)

/-- A set of codes with one more. -/
def withBit {n : Nat} (v : BitVec n) (i : Nat) : BitVec n := v ||| ((1 : BitVec n) <<< i)

/-- **The pools**: general, vector and predicate registers, one bit a code. -/
structure ScratchPools where
  general : BitVec 32
  vector : BitVec 32
  predicate : BitVec 16
  deriving DecidableEq

/-- What a scratch register is needed for. Governing predicates are the lowest eight. -/
inductive ScratchClass
  | general | vector | predicate | governing
  deriving DecidableEq

namespace ScratchClass

/-- The name of a class in messages. -/
def name : ScratchClass → String
  | general => "general"
  | vector => "vector"
  | predicate => "predicate"
  | governing => "governing predicate"

end ScratchClass

namespace ScratchPools

/-- The pools that an assembler starts with. -/
def initial : ScratchPools where
  general := withBit (withBit 0 16) 17
  vector := withBit 0 31
  predicate := 0

/-- The lowest code of a class in the pools. -/
def lowest? (p : ScratchPools) : ScratchClass → Option Nat
  | .general => Bits.lowest? p.general
  | .vector => Bits.lowest? p.vector
  | .predicate => Bits.lowest? p.predicate
  | .governing => Bits.lowest? (p.predicate &&& 0xff)

/-- The pools without a code of a class. -/
def remove (p : ScratchPools) (c : ScratchClass) (code : Nat) : ScratchPools :=
  match c with
  | .general => { p with general := withoutBit p.general code }
  | .vector => { p with vector := withoutBit p.vector code }
  | .predicate | .governing => { p with predicate := withoutBit p.predicate code }

/-- The pools with one more code of a class. -/
def add (p : ScratchPools) (c : ScratchClass) (code : Nat) : ScratchPools :=
  match c with
  | .general => { p with general := withBit p.general code }
  | .vector => { p with vector := withBit p.vector code }
  | .predicate | .governing => { p with predicate := withBit p.predicate code }

/-- Whether a code of a class is in the pools. -/
def has (p : ScratchPools) (c : ScratchClass) (code : Nat) : Bool :=
  match c with
  | .general => p.general.getLsbD code
  | .vector => p.vector.getLsbD code
  | .predicate | .governing => p.predicate.getLsbD code

end ScratchPools

end ArmToolkit.A64
