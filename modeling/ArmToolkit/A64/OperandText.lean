import ArmToolkit.A64.Operand
import ArmToolkit.A64.Pattern
import ArmToolkit.Text.Ascii

/-!
# `A64.OperandText` — operands as text

## Contents
- **Assembly.** `generalText` … `labelText` print one operand the way the disassembler shows it. What is printed
  depends on the place of an operand in its instruction, so each of these takes any operand.
- **Messages.** `describe` prints an operand by its kind alone, and `describeAll` a list of them.
-/

namespace ArmToolkit.A64

open Text

/-- What code 31 stands for where a general register is expected. -/
inductive Code31
  | zero | stack
  deriving DecidableEq

/-- The letter of a lane size; a register without one has a question mark in its place. -/
def laneLetter (lane : Option LaneSize) : String :=
  match lane with
  | some l => l.name
  | none => "?"

/-- The lane size behind a register name, if there is one. -/
def laneSuffix (lane : Option LaneSize) : String :=
  match lane with
  | some l => "." ++ l.name
  | none => ""

/-- The qualifier behind a predicate, if there is one. -/
def qualifierSuffix (q : Option Qualifier) : String :=
  match q with
  | none => ""
  | some .zeroing => "/z"
  | some .merging => "/m"

namespace Operand

/-- The immediate as a signed number. -/
def value (o : Operand) : Int := o.imm.toInt

/-! ## Assembly -/

/-- The name of a general register; code 31 has a name of its own. -/
def generalName (is64 : Bool) (c : Code31) (code : Nat) : String :=
  if code = 31 then
    match c, is64 with
    | .stack, true => "sp"
    | .stack, false => "wsp"
    | .zero, true => "xzr"
    | .zero, false => "wzr"
  else (if is64 then "x" else "w") ++ dec code

/-- A general register with its shift. -/
def generalText (c : Code31) (o : Operand) : String :=
  let shift := if o.shift ≠ 0 ∨ o.shiftType ≠ .lsl then ", " ++ o.shiftType.name ++ " #" ++ dec o.shift else ""
  generalName (o.kind == .x) c o.reg ++ shift

/-- A scalar register. -/
def scalarText (o : Operand) : String := laneLetter o.lane ++ dec o.reg

/-- A vector register. -/
def vectorText (o : Operand) : String := "z" ++ dec o.reg ++ laneSuffix o.lane

/-- A predicate register. -/
def predicateText (o : Operand) : String := "p" ++ dec o.reg ++ laneSuffix o.lane ++ qualifierSuffix o.qualifier

/-- The left shift of an immediate, if it is not zero. -/
def shiftText (o : Operand) : String := if o.shift ≠ 0 then ", lsl #" ++ dec o.shift else ""

/-- An immediate in decimal. -/
def decimalText (o : Operand) : String := "#" ++ decInt o.value ++ o.shiftText

/-- An immediate in hexadecimal, as an unsigned number. -/
def hexText (o : Operand) : String := "#0x" ++ hex o.imm.toNat ++ o.shiftText

/-- A memory operand. A zero offset is left out. -/
def memoryText (o : Operand) : String :=
  let offset := if o.imm ≠ 0 then ", #" ++ decInt o.value else ""
  let scale := if o.imm ≠ 0 ∧ o.kind = .memMulVl then ", mul vl" else ""
  "[" ++ generalName true .stack o.reg ++ offset ++ scale ++ "]"

/-- A branch offset, with its sign. -/
def labelText (o : Operand) : String :=
  (if o.value < 0 then "#-0x" else "#+0x") ++ hex o.value.natAbs

/-! ## Messages -/

/-- **An operand as messages quote it**, by its kind. -/
def describe (o : Operand) : String :=
  match o.kind with
  | .x => "x" ++ dec o.reg
  | .w => "w" ++ dec o.reg
  | .v => o.scalarText
  | .z => o.vectorText
  | .p => o.predicateText
  | .imm => o.decimalText
  | .pattern => Pattern.name o.patternBits
  | .mem => "[x" ++ dec o.reg ++ ", #" ++ decInt o.value ++ "]"
  | .memMulVl => "[x" ++ dec o.reg ++ ", #" ++ decInt o.value ++ ", mul vl]"
  | .label => "label(" ++ decSigned o.value ++ ")"
  | .none => o.kind.name

end Operand

/-- Operands as messages quote them. -/
def describeAll (ops : List Operand) : String := join ", " (ops.map Operand.describe)

end ArmToolkit.A64
