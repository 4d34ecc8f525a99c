import ArmToolkit.A64.Mnemonic

/-!
# `A64.Operation` — what the instructions of a form compute

Each group of forms has its own list of operations, so that a form is a group together with one of its operations
and nothing else can be built. Where several groups share an element operation or a relation, they map into the
one list that says what it computes (`ElementOp`, `Relation`).

## Contents
- **Base instructions.** `MoveWideOp`, `AddSubOp`, `LogicalOp`, `ZeroTest`, `Access`, `TransferSize`.
- **Element operations.** `ElementOp`, and the groups that use it: `PredicatedOp`, `UnpredicatedOp`, `BitwiseOp`,
  `ImmediateOp`, `BitmaskOp`.
- **Other vector operations.** `PermuteOp`, `ReductionOp`, `Relation` with its groups, `PredicateOp`, `Counting`,
  `CountOp` and its groups, `IndexSource`.
-/

namespace ArmToolkit.A64

/-! ## Base instructions -/

/-- Moves of a 16-bit immediate: inverted, zero-filled, or into one halfword. -/
inductive MoveWideOp
  | movn | movz | movk
  deriving DecidableEq

/-- Addition and subtraction, with or without setting the flags. -/
inductive AddSubOp
  | add | adds | sub | subs
  deriving DecidableEq

/-- Whether the operation sets the flags. -/
def AddSubOp.setsFlags : AddSubOp → Bool
  | .adds | .subs => true
  | .add | .sub => false

/-- Whether the operation subtracts. -/
def AddSubOp.subtracts : AddSubOp → Bool
  | .sub | .subs => true
  | .add | .adds => false

/-- Bitwise operations on general registers; `ands` also sets the flags. -/
inductive LogicalOp
  | and | orr | eor | ands
  deriving DecidableEq

/-- Branches that compare a register with zero. -/
inductive ZeroTest
  | cbz | cbnz
  deriving DecidableEq

/-- The direction of a memory access. -/
inductive Access
  | load | store
  deriving DecidableEq

/-- The size of a transfer between memory and a general register. -/
inductive TransferSize
  | b | h | w | x
  deriving DecidableEq

/-- The binary logarithm of the size in bytes, which is also the scale of the offset. -/
def TransferSize.log2 : TransferSize → Nat
  | .b => 0 | .h => 1 | .w => 2 | .x => 3

/-- The width of the register of a transfer. -/
def TransferSize.is64 : TransferSize → Bool
  | .x => true
  | _ => false

/-! ## Element operations -/

/-- An operation on two elements of one size. -/
inductive ElementOp
  | add | sub | subr | mul
  | smax | smin | umax | umin
  | and | orr | eor | bic
  | sqadd | sqsub | uqadd | uqsub
  | sdiv | sdivr | udiv | udivr
  deriving DecidableEq

/-- The mnemonic of an element operation. -/
def ElementOp.mnemonic : ElementOp → Mnemonic
  | .add => .add | .sub => .sub | .subr => .subr | .mul => .mul
  | .smax => .smax | .smin => .smin | .umax => .umax | .umin => .umin
  | .and => .and | .orr => .orr | .eor => .eor | .bic => .bic
  | .sqadd => .sqadd | .sqsub => .sqsub | .uqadd => .uqadd | .uqsub => .uqsub
  | .sdiv => .sdiv | .sdivr => .sdivr | .udiv => .udiv | .udivr => .udivr

/-- The predicated, destructive operations. -/
inductive PredicatedOp
  | add | sub | subr | smax | umax | smin | umin | mul
  | sdiv | udiv | sdivr | udivr | orr | eor | and | bic
  deriving DecidableEq

/-- What a predicated operation computes. -/
def PredicatedOp.op : PredicatedOp → ElementOp
  | .add => .add | .sub => .sub | .subr => .subr | .smax => .smax | .umax => .umax | .smin => .smin
  | .umin => .umin | .mul => .mul | .sdiv => .sdiv | .udiv => .udiv | .sdivr => .sdivr | .udivr => .udivr
  | .orr => .orr | .eor => .eor | .and => .and | .bic => .bic

/-- The unpredicated arithmetic operations. -/
inductive UnpredicatedOp
  | add | sub | sqadd | uqadd | sqsub | uqsub
  deriving DecidableEq

/-- What an unpredicated operation computes. -/
def UnpredicatedOp.op : UnpredicatedOp → ElementOp
  | .add => .add | .sub => .sub | .sqadd => .sqadd | .uqadd => .uqadd | .sqsub => .sqsub | .uqsub => .uqsub

/-- The unpredicated bitwise operations. -/
inductive BitwiseOp
  | and | orr | eor | bic
  deriving DecidableEq

/-- What a bitwise operation computes. -/
def BitwiseOp.op : BitwiseOp → ElementOp
  | .and => .and | .orr => .orr | .eor => .eor | .bic => .bic

/-- The operations with an 8-bit immediate. -/
inductive ImmediateOp
  | add | sub | subr | sqadd | uqadd | sqsub | uqsub
  | smax | umax | smin | umin | mul
  deriving DecidableEq

namespace ImmediateOp

/-- What an operation with an immediate computes. -/
def op : ImmediateOp → ElementOp
  | add => .add | sub => .sub | subr => .subr | sqadd => .sqadd | uqadd => .uqadd | sqsub => .sqsub
  | uqsub => .uqsub | smax => .smax | umax => .umax | smin => .smin | umin => .umin | mul => .mul

/-- Whether the immediate is signed. -/
def isSigned : ImmediateOp → Bool
  | smax | smin | mul => true
  | _ => false

/-- Whether the immediate can be shifted left by eight. -/
def isShiftable : ImmediateOp → Bool
  | add | sub | subr | sqadd | uqadd | sqsub | uqsub => true
  | _ => false

end ImmediateOp

/-- The operations with a bitmask immediate. -/
inductive BitmaskOp
  | orr | eor | and
  deriving DecidableEq

/-- What an operation with a bitmask immediate computes. -/
def BitmaskOp.op : BitmaskOp → ElementOp
  | .orr => .orr | .eor => .eor | .and => .and

/-! ## Other vector operations -/

/-- Rearrangements of the elements of two vectors. -/
inductive PermuteOp
  | tbl | zip1 | zip2 | uzp1 | uzp2 | trn1 | trn2
  deriving DecidableEq

/-- Reductions of the active elements to a scalar. -/
inductive ReductionOp
  | saddv | uaddv | smaxv | umaxv | sminv | uminv | orv | eorv | andv
  deriving DecidableEq

/-- A relation between two elements: signed (`gt` … `le`) or unsigned (`hi` … `ls`) order, or equality. -/
inductive Relation
  | eq | ne | gt | ge | lt | le | hi | hs | lo | ls
  deriving DecidableEq

/-- The mnemonic of the compare for a relation. -/
def Relation.mnemonic : Relation → Mnemonic
  | .eq => .cmpeq | .ne => .cmpne | .gt => .cmpgt | .ge => .cmpge | .lt => .cmplt | .le => .cmple
  | .hi => .cmphi | .hs => .cmphs | .lo => .cmplo | .ls => .cmpls

/-- The relations that two vectors can be compared by. -/
inductive VectorRelation
  | hs | hi | ge | gt | eq | ne
  deriving DecidableEq

/-- The relation itself. -/
def VectorRelation.rel : VectorRelation → Relation
  | .hs => .hs | .hi => .hi | .ge => .ge | .gt => .gt | .eq => .eq | .ne => .ne

/-- The relations to an unsigned immediate. -/
inductive UnsignedRelation
  | hs | hi | lo | ls
  deriving DecidableEq

/-- The relation itself. -/
def UnsignedRelation.rel : UnsignedRelation → Relation
  | .hs => .hs | .hi => .hi | .lo => .lo | .ls => .ls

/-- The relations to a signed immediate. -/
inductive SignedRelation
  | ge | gt | lt | le | eq | ne
  deriving DecidableEq

/-- The relation itself. -/
def SignedRelation.rel : SignedRelation → Relation
  | .ge => .ge | .gt => .gt | .lt => .lt | .le => .le | .eq => .eq | .ne => .ne

/-- Bitwise operations on predicates; `ands` also sets the flags. -/
inductive PredicateOp
  | and | bic | eor | sel | ands | orr
  deriving DecidableEq

/-- What is done with the number of elements that a pattern selects. -/
inductive Counting
  | cnt | inc | dec
  deriving DecidableEq

/-- What is done with the number of active lanes: wrapping, or saturating as signed or unsigned numbers. -/
inductive CountOp
  | incp | decp | sqincp | sqdecp | uqincp | uqdecp
  deriving DecidableEq

/-- How a count is combined with a value. -/
inductive Overflow
  | wrap | signed | unsigned
  deriving DecidableEq

/-- Whether the count is subtracted. -/
def CountOp.decrements : CountOp → Bool
  | .decp | .sqdecp | .uqdecp => true
  | .incp | .sqincp | .uqincp => false

/-- What happens where the exact result does not fit. -/
def CountOp.overflow : CountOp → Overflow
  | .incp | .decp => .wrap
  | .sqincp | .sqdecp => .signed
  | .uqincp | .uqdecp => .unsigned

/-- The mnemonic of a counting operation. -/
def CountOp.mnemonic : CountOp → Mnemonic
  | .incp => .incp | .decp => .decp | .sqincp => .sqincp | .sqdecp => .sqdecp
  | .uqincp => .uqincp | .uqdecp => .uqdecp

/-- The counting operations on a 32-bit register alone. -/
inductive WordCountOp
  | uqincp | uqdecp
  deriving DecidableEq

/-- The operation itself. -/
def WordCountOp.op : WordCountOp → CountOp
  | .uqincp => .uqincp | .uqdecp => .uqdecp

/-- The counting operations on a 32-bit register with a sign-extended 64-bit result. -/
inductive ExtendedCountOp
  | sqincp | sqdecp
  deriving DecidableEq

/-- The operation itself. -/
def ExtendedCountOp.op : ExtendedCountOp → CountOp
  | .sqincp => .sqincp | .sqdecp => .sqdecp

/-- Where the start or the step of an index vector comes from. -/
inductive IndexSource
  | imm | reg
  deriving DecidableEq

end ArmToolkit.A64
