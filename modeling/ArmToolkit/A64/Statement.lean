import ArmToolkit.A64.MacroCall

/-!
# `A64.Statement` — lines of an assembly program

A statement is a name with arguments. A lower-case name is that of an instruction, or of one of the few aliases; a name
with a capital letter is that of a macro. Which of the operations of one name is meant follows from the kinds of the
arguments.

## Contents
- **Arguments.** `Argument`: a register of some class, or a number.
- **Instructions.** `instruction?` gives the mnemonic and the operands of a statement.
- **Macros.** `macroCall?` gives the macro of a statement.
- **Statements.** `Statement.ofName?`, and `Assembler.assemble`.
-/

namespace ArmToolkit.A64

/-! ## Arguments -/

/-- **An argument of a statement.** A general register may come with a shift. -/
inductive Argument
  | general (r : XReg) (shiftType : ShiftType) (shift : Nat)
  | scalar (r : VReg)
  | vector (r : ZReg)
  | predicate (r : PReg)
  | number (value : BitVec 64)

/-- The low bits of a number. -/
def lowBits (n : Nat) (v : BitVec 64) : BitVec 64 := v &&& BitmaskImmediate.onesBelow n

namespace Mnemonic

/-- The instructions whose third operand may be a shifted register. -/
def takesShiftedRegister : Mnemonic → Bool
  | add | adds | sub | subs | and | ands | orr | eor => true
  | _ => false

/-- The loads and stores of one register. -/
def isTransfer : Mnemonic → Bool
  | ldr | str | ldrb | strb | ldrh | strh => true
  | _ => false

/-- The loads and stores of the active lanes of a vector. -/
def isContiguous : Mnemonic → Bool
  | ld1b | ld1h | ld1w | ld1d | st1b | st1h | st1w | st1d => true
  | _ => false

/-- The instructions that count the elements of a pattern. -/
def countsElements : Mnemonic → Bool
  | cntb | cnth | cntw | cntd | incb | inch | incw | incd | decb | dech | decw | decd => true
  | _ => false

/-- The instructions that set a predicate to a pattern. -/
def setsPattern : Mnemonic → Bool
  | ptrue | ptrues => true
  | _ => false

/-- **The width of an immediate in a statement**: it is taken modulo that power of two. `scalar` tells whether the
    first argument is a general register, and `element` whether the immediate is the index of an element. -/
def immediateWidth (m : Mnemonic) (scalar element : Bool) : Nat :=
  match m with
  | movz | movn | movk | hlt => 16
  | add | adds | sub | subs => if scalar then 32 else 64
  | dup => if element then 32 else 64
  | _ => 64

end Mnemonic

/-! ## Instructions -/

namespace Argument

/-- The operand of a register; a number is none. -/
def register? : Argument → Option Operand
  | general r _ _ => some (.ofX r)
  | scalar r => some (.ofV r)
  | vector r => some (.ofZ r)
  | predicate r => some (.ofP r)
  | number _ => none

/-- Whether the argument is a general register. -/
def isGeneral : Argument → Bool
  | general _ _ _ => true
  | _ => false

/-- Whether the argument is a register with elements. -/
def hasElements : Argument → Bool
  | scalar _ | vector _ => true
  | _ => false

/-- The memory operand at a base register: in bytes for general and scalar registers, in register lengths for vector
    and predicate registers. -/
def memory (transferred : Argument) (base : XReg) (offset : BitVec 64) : Operand :=
  match transferred with
  | vector _ | predicate _ => .mulVl base.code offset
  | _ => .memOffset base.code offset

/-- **The operands of plain arguments.** A number is an immediate, and a number after it is its left shift. -/
def operands (width : Nat) : List Argument → List Operand
  | number v :: number s :: rest => .shiftedImm (lowBits width v) (s.toNat % 256) :: operands width rest
  | number v :: rest => .ofImm (lowBits width v) :: operands width rest
  | arg :: rest => arg.register?.toList ++ operands width rest
  | [] => []

/-- The operand of one argument: a register, or an immediate. -/
def operand : Argument → Operand
  | number v => .ofImm v
  | general r _ _ => .ofX r
  | scalar r => .ofV r
  | vector r => .ofZ r
  | predicate r => .ofP r

/-- A number, or what stands for it if it is left out. -/
def numberOr (default : Nat) : List Argument → BitVec 64
  | number v :: _ => v
  | _ => BitVec.ofNat 64 default

end Argument

open Argument in
/-- **The operands of an instruction** for the arguments of a statement. -/
def statementOperands (m : Mnemonic) (args : List Argument) : List Operand :=
  -- offsets, patterns and multipliers may be left out
  if m.isTransfer then
    match args with
    | rt :: general base _ _ :: rest => rt.register?.toList ++ [rt.memory base (numberOr 0 rest)]
    | args => operands 64 args
  else if m.isContiguous then
    match args with
    | zt :: pg :: general base _ _ :: rest =>
      zt.register?.toList ++ pg.register?.toList ++ [.mulVl base.code (numberOr 0 rest)]
    | args => operands 64 args
  else if m.setsPattern then
    match args with
    | pd :: rest => pd.register?.toList ++ [.ofPattern ((numberOr 31 rest).toNat % 256)]
    | [] => []
  else if m.countsElements then
    match args with
    | rd :: rest =>
      rd.register?.toList ++
        [.ofPattern ((numberOr 31 rest).toNat % 256), .ofImm (lowBits 32 (numberOr 1 (rest.drop 1)))]
    | [] => []
  else if m = .index then args.map operand
  else
    match args with
    | [rd, rn, general rm type shift] =>
      rd.register?.toList ++ rn.register?.toList ++
        [if m.takesShiftedRegister then .shifted rm type shift else .ofX rm]
    | args =>
      operands (m.immediateWidth (args.headD (number 0)).isGeneral ((args.drop 1).any hasElements)) args

open Argument in
/-- **The instruction of a statement.** `cmp` subtracts and keeps only the flags, `mov` is an `orr` with zero, and a
    return without a register goes to the link register. -/
def instruction? (name : String) (args : List Argument) : Option (Mnemonic × List Operand) :=
  match name, args with
  | "cmp", [general rn _ _, number v] => some (.subs, [.ofX (.zero rn.width), .ofX rn, .ofImm (lowBits 32 v)])
  | "cmp", [general rn _ _, general rm _ _] => some (.subs, [.ofX (.zero rn.width), .ofX rn, .ofX rm])
  | "mov", [general rd _ _, general rm _ _] => some (.orr, [.ofX rd, .ofX (.zero rd.width), .ofX rm])
  | "mrs_nzcv", [general rt _ _] => some (.mrs, [.ofX rt])
  | "msr_nzcv", [general rt _ _] => some (.msr, [.ofX rt])
  | "ret", [] => some (.ret, [.ofX .link])
  | name, args => (Mnemonic.ofName? name).map fun m => (m, statementOperands m args)

/-! ## Macros -/

/-- The predicated operations. -/
def PredicatedOp.all : List PredicatedOp :=
  [add, sub, subr, smax, umax, smin, umin, mul, sdiv, udiv, sdivr, udivr, orr, eor, and, bic]

/-- The unpredicated operations. -/
def UnpredicatedOp.all : List UnpredicatedOp := [add, sub, sqadd, uqadd, sqsub, uqsub]

/-- The operations with an immediate. -/
def ImmediateOp.all : List ImmediateOp := [add, sub, subr, sqadd, uqadd, sqsub, uqsub, smax, umax, smin, umin, mul]

/-- The operations with a bitmask immediate. -/
def BitmaskOp.all : List BitmaskOp := [orr, eor, and]

/-- The relations. -/
def Relation.all : List Relation := [eq, ne, gt, ge, lt, le, hi, hs, lo, ls]

/-- The access of a mnemonic that loads or stores a register. -/
def access? : Mnemonic → Option Access
  | .ldr => some .load
  | .str => some .store
  | _ => none

/-- The operation on a vector and an immediate of a mnemonic. -/
def immediateCall? (m : Mnemonic) (zd zn : ZReg) (v : BitVec 64) : Option MacroCall :=
  ((ImmediateOp.all.find? fun op => op.op.mnemonic == m).map fun op => .immediate op zd zn v) <|>
    (BitmaskOp.all.find? fun op => op.op.mnemonic == m).map fun op => .bitmask op zd zn v

open Argument in
/-- The macro of a mnemonic and arguments. -/
def mnemonicCall? (m : Mnemonic) (args : List Argument) : Option MacroCall :=
  match m, args with
  | .dup, [vector zd, number v] => some (.dup zd v)
  | .cpy, [vector zd, predicate pg, number v] => some (.cpy zd pg v)
  | .insr, [vector zd, number v] => some (.insr zd v)
  | .index, [vector zd, number s, number t] => some (.index zd s t)
  | .pfirst, [predicate pd, predicate pg, predicate pn] => some (.pfirst pd pg pn)
  | .pnext, [predicate pd, predicate pv, predicate pn] => some (.pnext pd pv pn)
  | .mla, [vector zd, predicate pg, vector za, vector zn, vector zm] =>
    some (.multiplyAccumulate false zd pg za zn zm)
  | .mls, [vector zd, predicate pg, vector za, vector zn, vector zm] =>
    some (.multiplyAccumulate true zd pg za zn zm)
  | m, vector zt :: general base _ _ :: rest =>
    (access? m).map fun access => .transferVector access zt base (numberOr 0 rest)
  | m, predicate pt :: general base _ _ :: rest =>
    (access? m).map fun access => .transferPredicate access pt base (numberOr 0 rest)
  | m, [predicate pd, predicate pg, vector zn, vector zm] =>
    (Relation.all.find? fun r => r.mnemonic == m).map fun r => .compare r pd pg zn zm
  | m, [predicate pd, predicate pg, vector zn, number v] =>
    (Relation.all.find? fun r => r.mnemonic == m).map fun r => .compareImmediate r pd pg zn v
  | m, [vector zd, predicate pg, vector zn, vector zm] =>
    (PredicatedOp.all.find? fun op => op.op.mnemonic == m).map fun op => .predicated op zd pg zn zm
  | m, [vector zd, vector zn, vector zm] =>
    (UnpredicatedOp.all.find? fun op => op.op.mnemonic == m).map fun op => .unpredicated op zd zn zm
  | m, [vector zd, vector zn, number v] => immediateCall? m zd zn v
  | _, _ => none

/-- The mnemonic whose name with a capital first letter is given. -/
def capitalMnemonic? (name : String) : Option Mnemonic :=
  Mnemonic.all.find? fun m => m != .bCond && m.name.capitalize == name

open Argument in
/-- **The macro of a statement.** -/
def macroCall? (name : String) (args : List Argument) : Option MacroCall :=
  match name, args with
  | "Mov", [general rd _ _, number v] => some (.moveImmediate rd v)
  | "Mov", [general rd _ _, general rm _ _] => some (.moveRegister rd rm)
  | "Mov", [vector zd, vector zn] => some (.moveVector zd zn)
  | "Mov", [predicate pd, predicate pn] => some (.movePredicate pd pn)
  | name, args => (capitalMnemonic? name).bind fun m => mnemonicCall? m args

/-! ## Statements -/

/-- **A statement**: an instruction with its operands, or a macro. -/
inductive Statement
  | instruction (m : Mnemonic) (ops : List Operand)
  | expansion (call : MacroCall)

/-- The statement of a name and arguments. -/
def Statement.ofName? (name : String) (args : List Argument) : Option Statement :=
  ((macroCall? name args).map .expansion) <|> (instruction? name args).map fun p => .instruction p.1 p.2

/-- **Assembles a statement.** -/
def Assembler.assemble (a : Assembler) : Statement → Assembler
  | .instruction m ops => a.emit m ops
  | .expansion call => a.expand call

end ArmToolkit.A64
