import ArmToolkit.A64.Instruction

/-!
# `A64.Disassembly` — instructions as text

The text of an instruction is its mnemonic, a space, and its operands between commas. A few forms have a preferred
alias, write an index in brackets, or leave out an operand that has its usual value.
-/

namespace ArmToolkit.A64

open Text

/-- A text in braces. -/
def braced (s : String) : String := "\x7b" ++ s ++ "\x7d"

/-- An element of a scalar register. -/
def elementText (register index : Operand) : String :=
  "v" ++ dec register.reg ++ "." ++ laneLetter register.lane ++ "[" ++ decInt index.value ++ "]"

/-- A pattern, left out if it is the one that selects all lanes. -/
def patternText (pattern : Operand) : List String :=
  if pattern.value = Pattern.all then [] else [Pattern.name pattern.patternBits]

/-- A pattern and a multiplier. A multiplier of one is left out, and with it a pattern that selects all lanes. -/
def multipleText (pattern multiplier : Operand) : List String :=
  if multiplier.value = 1 then patternText pattern
  else [Pattern.name pattern.patternBits, "mul #" ++ decInt multiplier.value]

/-- The operands of a form as its slots print them. -/
def Form.slotTexts (f : Form) (ops : List Operand) : List String :=
  f.slots.zipIdx.map fun (s, i) => s.text (arg ops i)

/-- **The operands of a form as text**, in the order of assembly. -/
def Form.operandTexts (f : Form) (ops : List Operand) : List String :=
  let a := arg ops 0
  let b := arg ops 1
  let c := arg ops 2
  match f with
  | .ret => if a.reg = 30 then [] else f.slotTexts ops
  | .readFlags => [a.generalText .zero, "nzcv"]
  | .writeFlags => ["nzcv", a.generalText .zero]
  | .moveElement => [a.scalarText, elementText b c]
  | .dupIndex => [a.vectorText, b.vectorText ++ "[" ++ decInt c.value ++ "]"]
  | .permute .tbl => [a.vectorText, braced b.vectorText, c.vectorText]
  | .bitwise .orr => if b.reg = c.reg then [a.vectorText, b.vectorText] else f.slotTexts ops
  | .ptrue _ => a.predicateText :: patternText b
  | .elementCount _ _ => a.generalText .zero :: multipleText b c
  | .ld1 _ | .st1 _ => [braced a.vectorText, b.predicateText, c.memoryText]
  | f => f.slotTexts ops

/-- The mnemonic that an instruction is printed with. -/
def Form.shownMnemonic (f : Form) (cond : Condition) (ops : List Operand) : String :=
  match f with
  | .branchCond => "b." ++ cond.name
  | .moveElement => "mov"
  | .bitwise .orr => if (arg ops 1).reg = (arg ops 2).reg then "mov" else f.mnemonic.name
  | f => f.mnemonic.name

namespace Instruction

/-- **The text of an instruction.** -/
def text (inst : Instruction) : String :=
  match inst.form with
  | none => "<invalid>"
  | some f =>
    let operands := f.operandTexts inst.ops
    let mnemonic := f.shownMnemonic inst.cond inst.ops
    if operands.isEmpty then mnemonic else mnemonic ++ " " ++ join ", " operands

/-- **The text of a word**: that of its instruction, or the word itself. -/
def textOfWord (w : Word) : String :=
  match decode w with
  | .ok inst => inst.text
  | .error _ => ".inst 0x" ++ hexPadded 8 w.toNat

end Instruction

end ArmToolkit.A64
