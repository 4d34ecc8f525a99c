import ArmToolkit.A64.Format
import ArmToolkit.Condition

/-!
# `A64.Instruction` — instructions, and their words

## Contents
- **Instructions.** `Instruction` is a form with operands and a condition. `Form.accepts` tells whether operands have
  the kinds that a form takes, and `Instruction.make` finds the form of a mnemonic and operands.
- **Encoding.** `Instruction.encode` gives the word of an instruction, or the reason why there is none.
- **Decoding.** `Instruction.decode` gives the instruction of a word, or the reason why there is none.
- **Errors.** `EncodeError` and `DecodeError`, with their wording.
-/

namespace ArmToolkit.A64

open Text

/-! ## Instructions -/

/-- **An instruction.** One that was not found a form has none, and cannot be encoded. -/
structure Instruction where
  form : Option Form := none
  cond : Condition := .al
  ops : List Operand := []
  deriving DecidableEq

/-- The greatest number of operands. -/
def maxOperands : Nat := 4

/-- **Whether a form takes operands of these kinds**: as many as it has slots, each accepted by its slot. -/
def Form.accepts (f : Form) (ops : List Operand) : Bool :=
  f.slots.length == ops.length && (f.slots.zip ops).all fun p => p.1.accepts p.2

/-- The first form of a mnemonic that takes the operands. -/
def Form.resolve? (m : Mnemonic) (ops : List Operand) : Option Form :=
  Form.all.find? fun f => f.mnemonic == m && f.accepts ops

/-! ## Errors -/

/-- **Why an instruction has no word.** -/
inductive EncodeError
  | tooManyOperands (mnemonic : Mnemonic) (count : Nat)
  | noMatchingForm (mnemonic : Mnemonic) (ops : List Operand)
  | noForm
  | mismatch (form : Form) (ops : List Operand)
  | notConditional (form : Form)
  | operand (form : Form) (place : Nat) (op : Operand) (fault : OperandFault)

/-- The wording of an encoding error. -/
def EncodeError.message : EncodeError → String
  | tooManyOperands m n => m.name ++ ": too many operands (" ++ dec n ++ ")"
  | noMatchingForm m ops => m.name ++ ": no form accepts operands (" ++ describeAll ops ++ ")"
  | noForm => "Instruction has no form"
  | mismatch f ops => f.mnemonic.name ++ ": operands (" ++ describeAll ops ++ ") do not match form " ++ f.name
  | notConditional f => f.mnemonic.name ++ ": instruction is not conditional"
  | operand f i op fault =>
    f.mnemonic.name ++ ": operand " ++ dec (i + 1) ++ " (" ++ op.describe ++ "): " ++ fault.message

/-- **Why a word has no instruction**: no form has its fixed bits, or a field holds a reserved value. -/
inductive DecodeError
  | unallocated (word : Word)
  | reserved (word : Word) (form : Form)

/-- The wording of a decoding error. -/
def DecodeError.message : DecodeError → String
  | unallocated w => "Unallocated encoding 0x" ++ hexPadded 8 w.toNat
  | reserved w f =>
    "Reserved encoding 0x" ++ hexPadded 8 w.toNat ++ " for " ++ f.mnemonic.name ++ " (" ++ f.name ++ ")"

/-- The name of the kind of a decoding error. -/
def DecodeError.kind : DecodeError → String
  | unallocated _ => "UnallocatedEncoding"
  | reserved _ _ => "ReservedEncoding"

namespace Instruction

/-! ## Encoding -/

/-- **The instruction of a mnemonic and operands.** -/
def make (m : Mnemonic) (ops : List Operand) (cond : Condition := .al) : Except EncodeError Instruction :=
  if maxOperands < ops.length then .error (.tooManyOperands m ops.length)
  else
    match Form.resolve? m ops with
    | some f => .ok { form := some f, cond, ops }
    | none => .error (.noMatchingForm m ops)

/-- What the fields of a form hold that no operand owns. -/
def ownValues (f : Form) (cond : Condition) (ops : List Operand) : List Nat :=
  match f with
  | .branchCond => [cond.code]
  | f => f.sizing.values (f.lane ops)

/-- What the fields of a form hold for its operands. -/
def operandValues (f : Form) (ops : List Operand) : List Nat :=
  (f.slots.zip ops).flatMap fun p => p.1.values (f.lane ops) p.2

/-- The word of an instruction that has passed all checks. -/
def word (f : Form) (cond : Condition) (ops : List Operand) : Word :=
  f.opcode ||| putAll f.fields (ownValues f cond ops ++ operandValues f ops)

/-- **The word of an instruction.** -/
def encode (inst : Instruction) : Except EncodeError Word :=
  match inst.form with
  | none => .error .noForm
  | some f =>
    if f.accepts inst.ops = false then .error (.mismatch f inst.ops)
    else if f ≠ .branchCond ∧ inst.cond ≠ .al then .error (.notConditional f)
    else
      match f.fault? inst.ops with
      | some (i, fault) => .error (.operand f i (arg inst.ops i) fault)
      | none => .ok (word f inst.cond inst.ops)

/-! ## Decoding -/

/-- The operands that a word holds in the slots of a form; nothing if a field holds a reserved value. -/
def operands? (f : Form) (w : Word) : Option (List Operand) := do
  let lane ← f.sizing.read? w
  let allowed :=
    match lane with
    | some l => f.lanes.isEmpty || f.lanes.contains l
    | none => true
  if allowed then f.slots.mapM fun s => s.read? lane w else none

/-- The condition that a word holds; a form without a condition field has the one that always passes. -/
def conditionOf (f : Form) (w : Word) : Condition :=
  match f with
  | .branchCond => .ofCode (Form.condition.get w)
  | _ => .al

/-- All forms with their fixed bits. -/
def decodeTable : List (Word × Word × Form) := Form.all.map fun f => (f.mask, f.opcode, f)

/-- The form whose fixed bits a word has. No word has those of two forms. -/
def formOf? (w : Word) : Option Form := (decodeTable.find? fun e => w &&& e.1 == e.2.1).map (·.2.2)

/-- **The instruction of a word.** -/
def decode (w : Word) : Except DecodeError Instruction :=
  match formOf? w with
  | none => .error (.unallocated w)
  | some f =>
    match operands? f w with
    | none => .error (.reserved w f)
    | some ops => .ok { form := some f, cond := conditionOf f w, ops }

end Instruction

end ArmToolkit.A64
