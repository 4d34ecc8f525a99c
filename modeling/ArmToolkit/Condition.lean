import ArmToolkit.Text.Ascii

/-!
# `Condition` — condition codes, the NZCV flags and the instruction sets

The sixteen condition codes are shared by T32 and A64. A condition is read against the four flags by
`Condition.holds`; its code is its place in the list `Condition.all`.
-/

namespace ArmToolkit

/-! ## Conditions -/

/-- A condition code. -/
inductive Condition
  | eq | ne | cs | cc | mi | pl | vs | vc | hi | ls | ge | lt | gt | le | al | nv
  deriving DecidableEq, Inhabited

namespace Condition

/-- The conditions in the order of their codes. -/
def all : List Condition := [eq, ne, cs, cc, mi, pl, vs, vc, hi, ls, ge, lt, gt, le, al, nv]

/-- The four-bit code of a condition. -/
def code : Condition → Nat
  | eq => 0 | ne => 1 | cs => 2 | cc => 3 | mi => 4 | pl => 5 | vs => 6 | vc => 7
  | hi => 8 | ls => 9 | ge => 10 | lt => 11 | gt => 12 | le => 13 | al => 14 | nv => 15

/-- The condition of a code; the codes are four bits wide, so higher bits do not count. -/
def ofCode (n : Nat) : Condition := all.getD (n % 16) nv

/-- The name of a condition. -/
def name : Condition → String
  | eq => "eq" | ne => "ne" | cs => "cs" | cc => "cc" | mi => "mi" | pl => "pl" | vs => "vs" | vc => "vc"
  | hi => "hi" | ls => "ls" | ge => "ge" | lt => "lt" | gt => "gt" | le => "le" | al => "al" | nv => "nv"

/-- The condition that a name stands for. Names are in lower case; `hs` and `lo` are second names of `cs` and
    `cc`. -/
def ofName? (s : String) : Option Condition :=
  match all.find? fun c => c.name == s with
  | some c => some c
  | none => if s == "hs" then some cs else if s == "lo" then some cc else none

/-- The condition whose code differs in the lowest bit. It is the opposite of every condition but `al` and `nv`,
    which have none. -/
def invert : Condition → Condition
  | eq => ne | ne => eq | cs => cc | cc => cs | mi => pl | pl => mi | vs => vc | vc => vs
  | hi => ls | ls => hi | ge => lt | lt => ge | gt => le | le => gt | al => nv | nv => al

end Condition

/-! ## Flags -/

/-- **The NZCV flags**: negative, zero, carry, overflow. -/
structure Flags where
  n : Bool
  z : Bool
  c : Bool
  v : Bool
  deriving DecidableEq, Inhabited

namespace Flags

/-- All four flags clear. -/
def clear : Flags := ⟨false, false, false, false⟩

/-- The flags as a number below 16, with N as its top bit. -/
def nibble (f : Flags) : Nat := 8 * f.n.toNat + 4 * f.z.toNat + 2 * f.c.toNat + f.v.toNat

/-- The flags in the low four bits of a number. -/
def ofNibble (x : Nat) : Flags := ⟨x.testBit 3, x.testBit 2, x.testBit 1, x.testBit 0⟩

/-- **The flags register**: the flags in the top four bits, zeros below. -/
def word (f : Flags) : BitVec 32 := BitVec.ofNat 32 (f.nibble <<< 28)

/-- The flags that a value written to the flags register sets; its other bits are dropped. -/
def ofWord (w : BitVec 32) : Flags := ⟨w.getLsbD 31, w.getLsbD 30, w.getLsbD 29, w.getLsbD 28⟩

end Flags

/-- **Whether a condition passes** under the flags. -/
def Condition.holds (c : Condition) (f : Flags) : Bool :=
  match c with
  | .eq => f.z
  | .ne => !f.z
  | .cs => f.c
  | .cc => !f.c
  | .mi => f.n
  | .pl => !f.n
  | .vs => f.v
  | .vc => !f.v
  | .hi => f.c && !f.z
  | .ls => !f.c || f.z
  | .ge => f.n == f.v
  | .lt => f.n != f.v
  | .gt => !f.z && f.n == f.v
  | .le => f.z || f.n != f.v
  | .al => true
  | .nv => true

/-! ## Instruction sets -/

/-- The instruction sets that the toolkit encodes and decodes. -/
inductive InstructionSet
  | a64 | t32
  deriving DecidableEq

namespace InstructionSet

/-- The name of an instruction set. -/
def name : InstructionSet → String
  | a64 => "a64"
  | t32 => "t32"

/-- The instruction set that a name stands for, in any case. -/
def ofName? (s : String) : Option InstructionSet :=
  [a64, t32].find? fun i => Text.equalNoCase s i.name

end InstructionSet

end ArmToolkit
