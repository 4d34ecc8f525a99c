import ArmToolkit.T32.Stream

/-!
# `T32.Assembly` — instructions as text

An instruction is written as its mnemonic, its condition if it has one, and its operands, separated by blanks. In
front of a conditional instruction stands the IT that makes it conditional, with a semicolon after it.

## Contents
- **Writing.** `Instruction.text`, and `textOfBytes`, which writes an error in angle brackets.
- **Reading.** `Instruction.parse`; commas count as blanks.
-/

namespace ArmToolkit.T32

open Text

/-! ## Writing -/

/-- The text of an operand. -/
def Operand.text : Operand → String
  | none => "#0"
  | register code => registerName code
  | immediate v => "#" ++ dec v

/-- **The text of an instruction.** -/
def Instruction.text (inst : Instruction) : String :=
  let name := (inst.form.map fun f => f.mnemonic.name).getD ""
  (if inst.isConditional then "It " ++ inst.cond.name ++ "; " ++ name ++ " " ++ inst.cond.name else name) ++
    String.join (inst.ops.map fun op => " " ++ op.text)

/-- The text of bytes that hold one instruction, or the error in angle brackets. -/
def textOfBytes (bytes : List Byte) : String :=
  match decodeSingle bytes with
  | .ok inst => inst.text
  | .error e => "<" ++ e.message ++ ">"

/-! ## Reading -/

/-- **Why a text is no instruction.** -/
inductive ParseError
  | noSemicolon
  | blockCondition (name : String)
  | empty
  | mnemonic (name : String)
  | needlessBlock
  | missingBlock
  | otherCondition (block inst : Condition)
  | immediate (token : String)
  | register (token : String)
  | instruction (why : EncodeError)
  deriving DecidableEq

/-- The wording of a parse error. -/
def ParseError.message : ParseError → String
  | noSemicolon => "IT prefix is not followed by ';'"
  | blockCondition s => "Invalid IT condition '" ++ s ++ "'"
  | empty => "Empty instruction"
  | mnemonic s => "Unknown mnemonic '" ++ s ++ "'"
  | needlessBlock => "IT prefix on an unconditional instruction"
  | missingBlock => "Conditional instruction requires an IT prefix"
  | otherCondition c d => "IT condition " ++ c.name ++ " does not match instruction condition " ++ d.name
  | immediate s => "Invalid immediate '" ++ s ++ "'"
  | register s => "Invalid register '" ++ s ++ "'"
  | instruction e => e.message

/-- The operand that a token stands for: an immediate behind a number sign, or a register. -/
def parseOperand (token : String) : Except ParseError Operand :=
  match token.toList with
  | '#' :: cs =>
    match (IntKind.u32.scanMarked cs).value with
    | some v => .ok (.immediate v.toNat)
    | none => .error (.immediate token)
  | _ =>
    match registerOfName? token with
    | some code => .ok (.register code)
    | none => .error (.register token)

/-- Takes the IT in front of an instruction, if there is one. -/
def takeBlock (cs : List Char) : Except ParseError (Option Condition × List Char) :=
  if startsNoCase (String.ofList cs) "it " then
    match cs.span (· != ';') with
    | (_, []) => .error .noSemicolon
    | (front, _ :: rest) =>
      let name := String.ofList (stripChars (front.drop 3))
      match Condition.ofName? name with
      | some c => if c = .nv ∨ c = .al then .error (.blockCondition name) else .ok (some c, stripChars rest)
      | none => .error (.blockCondition name)
  else .ok (none, cs)

/-- Takes the condition behind a mnemonic, if there is one. -/
def takeCondition (tokens : List String) : Condition × List String :=
  match tokens with
  | t :: rest =>
    match Condition.ofName? t with
    | some c => (c, rest)
    | none => (.al, tokens)
  | [] => (.al, [])

/-- Whether the IT in front of an instruction is the one that its condition needs. -/
def checkBlock (block : Option Condition) (cond : Condition) : Except ParseError Unit :=
  match block with
  | none => if cond = .al then .ok () else .error .missingBlock
  | some c => if cond = .al then .error .needlessBlock else if c = cond then .ok () else .error (.otherCondition c cond)

/-- **Reads an instruction.** -/
def Instruction.parse (text : String) : Except ParseError Instruction := do
  let (block, body) ← takeBlock (stripChars text.toList)
  match split ' ' true (String.ofList (body.map fun c => if c = ',' then ' ' else c)) with
  | [] => .error .empty
  | name :: tokens =>
    match Mnemonic.ofName? name with
    | none => .error (.mnemonic name)
    | some m =>
      let (cond, tokens) := takeCondition tokens
      checkBlock block cond
      let ops ← tokens.mapM parseOperand
      match Instruction.make m ops cond with
      | .ok inst => .ok inst
      | .error e => .error (.instruction e)

end ArmToolkit.T32
