import ArmToolkit.A64.Instruction
import ArmToolkit.A64.Scratch
import ArmToolkit.Log.Message

/-!
# `A64.Assembler` — words emitted one after the other

## Contents
- **The assembler.** `Assembler` holds the words so far, the errors so far, the labels and the scratch pools. An
  operand that cannot be encoded is an error, and nothing is emitted for it.
- **Emitting.** `emit`, `emitInstruction`, `dc32`.
- **Labels.** `branch` emits a branch to a label, bound or not; `bind` fixes the place of a label and patches the
  branches that wait for it.
- **Scratch registers.** `acquire` takes one, and scopes put back what was taken.
-/

namespace ArmToolkit.A64

open Text Log

/-! ## The assembler -/

/-- **What can go wrong in assembling.** -/
inductive AssemblyError
  | encode (why : EncodeError)
  | outOfRange (branch : Nat) (why : EncodeError)
  | exhausted (pool : ScratchClass)

/-- The wording of an assembly error. -/
def AssemblyError.message : AssemblyError → String
  | encode e => e.message
  | outOfRange i e => "Branch at " ++ dec i ++ " is out of range: " ++ e.message
  | exhausted c => "No " ++ c.name ++ " scratch registers available"

/-- A label: the index it is bound to, if it is bound, and the branches that wait for it. -/
structure Label where
  location : Option Nat := none
  links : List Nat := []
  deriving DecidableEq

/-- An error and the number of words before it. -/
structure RecordedError where
  index : Nat
  error : AssemblyError

/-- **An assembler.** Errors are kept in the order in which they were recorded. -/
structure Assembler where
  code : Array Word := #[]
  errors : List RecordedError := []
  labels : List (String × Label) := []
  pools : ScratchPools := .initial
  scopes : List ScratchPools := []

namespace Assembler

/-- The size of the code in bytes. -/
def size (a : Assembler) : Nat := 4 * a.code.size

/-- The first error. -/
def firstError? (a : Assembler) : Option AssemblyError := a.errors.head?.map (·.error)

/-- The message of a recorded error. -/
def errorMessage (e : RecordedError) : Message :=
  .by .a64Asm .error "RecordError" ("Instruction " ++ dec e.index ++ ": " ++ e.error.message)

/-- The messages of the errors after the first `n`. -/
def messagesSince (a : Assembler) (n : Nat) : List Message := (a.errors.drop n).map errorMessage

/-- The assembler without code and errors. The labels and the pools are kept: a label that is bound stays bound. -/
def reset (a : Assembler) : Assembler := { a with code := #[], errors := [] }

/-! ## Emitting -/

/-- Records an error. -/
def record (a : Assembler) (e : AssemblyError) : Assembler := { a with errors := a.errors ++ [⟨a.code.size, e⟩] }

/-- Emits a word. -/
def dc32 (a : Assembler) (w : Word) : Assembler := { a with code := a.code.push w }

/-- Emits a word several times. -/
def dc32s (a : Assembler) (w : Word) : Nat → Assembler
  | 0 => a
  | n + 1 => (a.dc32 w).dc32s w n

/-- Emits a word, or records why there is none. -/
def emitResult (a : Assembler) : Except EncodeError Word → Assembler
  | .ok w => a.dc32 w
  | .error e => a.record (.encode e)

/-- The word of a mnemonic and operands. -/
def encode (m : Mnemonic) (ops : List Operand) (cond : Condition := .al) : Except EncodeError Word :=
  (Instruction.make m ops cond).bind Instruction.encode

/-- **Emits the instruction of a mnemonic and operands.** -/
def emit (a : Assembler) (m : Mnemonic) (ops : List Operand) (cond : Condition := .al) : Assembler :=
  a.emitResult (encode m ops cond)

/-- Emits an instruction. -/
def emitInstruction (a : Assembler) (inst : Instruction) : Assembler := a.emitResult inst.encode

/-- The word of a mnemonic and operands, for trying an encoding out. -/
def tryEncode? (m : Mnemonic) (ops : List Operand) : Option Word := (encode m ops).toOption

/-! ## Labels -/

/-- The label of a name; one that was not used yet is neither bound nor linked. -/
def label (a : Assembler) (name : String) : Label := (a.labels.lookup name).getD {}

/-- Replaces the label of a name. -/
def setLabel (a : Assembler) (name : String) (l : Label) : Assembler :=
  { a with labels := (name, l) :: a.labels.filter fun p => p.1 != name }

/-- The offset in bytes from one index to another. -/
def offsetBetween (source target : Nat) : BitVec 64 := BitVec.ofInt 64 (4 * ((target : Int) - source))

/-- **Emits a branch to a label.** A branch to a label that is not bound yet has offset zero until it is. -/
def branch (a : Assembler) (m : Mnemonic) (ops : List Operand) (name : String) (cond : Condition := .al) :
    Assembler :=
  let l := a.label name
  let position := a.code.size
  match l.location with
  | some target => a.emit m (ops ++ [.label (offsetBetween position target)]) cond
  | none =>
    match encode m (ops ++ [.label 0]) cond with
    | .error e => a.record (.encode e)
    | .ok w => (a.dc32 w).setLabel name { l with links := l.links ++ [position] }

/-- An instruction with its branch offset replaced. -/
def retarget (inst : Instruction) (offset : BitVec 64) : Instruction :=
  { inst with ops := inst.ops.map fun o => if o.kind = .label then { o with imm := offset } else o }

/-- Patches a branch that waited for a label. A branch that does not reach it is an error and is left as it is. -/
def patch (target : Nat) (a : Assembler) (link : Nat) : Assembler :=
  match Instruction.decode (a.code.getD link 0) with
  | .error _ => a
  | .ok inst =>
    match (retarget inst (offsetBetween link target)).encode with
    | .ok w => { a with code := a.code.setIfInBounds link w }
    | .error e => a.record (.outOfRange link e)

/-- **Binds a label** to the end of the code and patches the branches that wait for it. -/
def bind (a : Assembler) (name : String) : Assembler :=
  let l := a.label name
  let target := a.code.size
  (l.links.foldl (patch target) a).setLabel name { location := some target, links := [] }

/-! ## Scratch registers -/

/-- Takes a scratch register. An empty pool is an error. -/
def acquire (a : Assembler) (c : ScratchClass) : Option Nat × Assembler :=
  match a.pools.lowest? c with
  | some code => (some code, { a with pools := a.pools.remove c code })
  | none => (none, a.record (.exhausted c))

/-- Works with a scratch register, if there is one. -/
def withScratch (a : Assembler) (c : ScratchClass) (body : Nat → Assembler → Assembler) : Assembler :=
  match a.acquire c with
  | (some code, a) => body code a
  | (none, a) => a

/-- **Runs a part of a macro in a scope of its own**: the pools are afterwards as they were before. -/
def inScope (a : Assembler) (body : Assembler → Assembler) : Assembler := { body a with pools := a.pools }

/-- Opens a scope. -/
def openScope (a : Assembler) : Assembler := { a with scopes := a.pools :: a.scopes }

/-- Closes the innermost scope. -/
def closeScope (a : Assembler) : Assembler :=
  match a.scopes with
  | pools :: scopes => { a with pools, scopes }
  | [] => a

/-- Makes a register available. -/
def includeScratch (a : Assembler) (c : ScratchClass) (code : Nat) : Assembler :=
  { a with pools := a.pools.add c code }

/-- Makes a register unavailable. -/
def excludeScratch (a : Assembler) (c : ScratchClass) (code : Nat) : Assembler :=
  { a with pools := a.pools.remove c code }

end Assembler

end ArmToolkit.A64
