import ArmToolkit.Log.Message
import ArmToolkit.PowerOfTwo
import ArmToolkit.T32.Instruction

/-!
# `T32.Stream` — byte streams of instructions and IT blocks

A stream is a sequence of halfwords, low byte first. An IT halfword opens a block: it gives conditions to the one to
four instructions after it, and is no instruction of its own.

## Contents
- **Blocks.** `blockConditions` gives the conditions of the instructions in a block.
- **Streams.** `decodeStream` gives the instructions of a stream, up to the first error.
- **Single instructions.** `decodeSingle` takes a stream of one instruction in its one written form.
-/

namespace ArmToolkit.T32

open Text Log

/-! ## Blocks -/

/-- **Why a stream cannot be decoded.** -/
inductive StreamError
  | oddLength (size : Nat)
  | nestedBlock (offset : Nat)
  | neverBlock (offset : Nat)
  | invertedAlways (offset mask : Nat)
  | wide (offset : Nat)
  | hint (offset : Nat) (bits : Halfword)
  | halfword (offset : Nat) (why : HalfwordError)
  | openBlock (position length : Nat)
  | notOne (count : Nat)
  | noBlock
  deriving DecidableEq

namespace StreamError

/-- The wording of a stream error. -/
def message : StreamError → String
  | oddLength n => "Stream length " ++ dec n ++ " is not a multiple of the halfword size"
  | nestedBlock o => "IT at offset " ++ dec o ++ " is inside another IT block"
  | neverBlock o => "Offset " ++ dec o ++ ": IT with condition nv"
  | invertedAlways o m =>
    "Offset " ++ dec o ++ ": IT al with mask 0x" ++ hex m ++ " requires an inverted condition"
  | wide o => "Offset " ++ dec o ++ ": 32-bit encodings are not supported"
  | hint o bits => "Offset " ++ dec o ++ ": halfword " ++ halfwordText bits ++ " is a hint, not an IT"
  | halfword o e => "Offset " ++ dec o ++ ": " ++ e.message
  | openBlock p n => "IT block ends after " ++ dec p ++ " of " ++ dec n ++ " instructions"
  | notOne n => "Expected one instruction, decoded " ++ dec n
  | noBlock => "Conditional instruction without its IT"

/-- Whether the stream holds a reserved encoding; otherwise something in it has no meaning. -/
def isReserved : StreamError → Bool
  | nestedBlock _ | neverBlock _ | invertedAlways _ _ | hint _ _ => true
  | halfword _ e => e.isReserved
  | oddLength _ | wide _ | openBlock _ _ | notOne _ | noBlock => false

/-- The name of the kind of a stream error. -/
def kind (e : StreamError) : String := decodeErrorKind e.isReserved

end StreamError

/-- The number of instructions that a mask of four bits, not all zero, gives conditions to: its lowest one ends the
    block. -/
def blockLength (mask : Nat) : Nat :=
  if mask % 2 = 1 then 4 else if mask % 4 = 2 then 3 else if mask % 8 = 4 then 2 else 1

/-- The condition of instruction `i` of a block: the mask gives the lowest bit of its code. -/
def blockCondition (first mask i : Nat) : Condition :=
  .ofCode (if i = 0 then first else first / 2 * 2 + mask / twoPow (4 - i) % 2)

/-- **The conditions of the instructions in a block.** -/
def blockConditions (first mask : Nat) : List Condition :=
  (List.range (blockLength mask)).map (blockCondition first mask)

/-- A block that was opened: its length, and the conditions of the instructions that are still to come. -/
structure Block where
  length : Nat := 0
  pending : List Condition := []
  deriving DecidableEq

/-- Whether a halfword is in the space of IT halfwords and hints. -/
def inBlockSpace (bits : Halfword) : Bool := bits >>> 8 == 0xbf

/-- Whether a halfword is the first one of a 32-bit instruction. -/
def isWide (bits : Halfword) : Bool := decide (0x1d ≤ (bits >>> 11).toNat)

/-- The block that an IT halfword opens. -/
def openBlock (offset : Nat) (bits : Halfword) : Except StreamError Block :=
  let first := bits.toNat / 16 % 16
  let mask := bits.toNat % 16
  let conds := blockConditions first mask
  if Condition.ofCode first = .nv then .error (.neverBlock offset)
  else if conds.contains .nv then .error (.invertedAlways offset mask)
  else .ok { length := conds.length, pending := conds }

/-! ## Streams -/

/-- What one halfword does: it opens a block, is an instruction, or is refused. -/
inductive StreamStep
  | opened (block : Block)
  | decoded (inst : Instruction) (block : Block)
  | refused (why : StreamError)

/-- **Reads one halfword** of a stream. -/
def streamStep (offset : Nat) (block : Block) (bits : Halfword) : StreamStep :=
  if inBlockSpace bits ∧ bits.toNat % 16 ≠ 0 then
    if block.pending ≠ [] then .refused (.nestedBlock offset)
    else
      match openBlock offset bits with
      | .ok block => .opened block
      | .error e => .refused e
  else if isWide bits then .refused (.wide offset)
  else if inBlockSpace bits then .refused (.hint offset bits)
  else
    match decodeHalfword bits (block.pending.headD .al) (block.pending ≠ []) with
    | .ok inst => .decoded inst { block with pending := block.pending.tail }
    | .error e => .refused (.halfword offset e)

/-- **What decoding a stream gives**: the instructions before the first error, what was reported, and the error. -/
structure Stream where
  insts : List Instruction := []
  messages : List Message := []
  error : Option StreamError := none

/-- The report of a block that was opened. -/
def blockMessage (offset : Nat) (block : Block) : Message :=
  .by .t32 .dev "Decode" ("IT block of " ++ dec block.length ++ " at offset " ++ dec offset ++ ", first condition " ++
    (block.pending.headD .al).name)

/-- Decodes the rest of a stream, from an offset on. -/
def decodeFrom (offset : Nat) (block : Block) : List Byte → Stream
  | low :: high :: rest =>
    match streamStep offset block (high ++ low) with
    | .opened b =>
      let s := decodeFrom (offset + 2) b rest
      { s with messages := blockMessage offset b :: s.messages }
    | .decoded inst b =>
      let s := decodeFrom (offset + 2) b rest
      { s with insts := inst :: s.insts }
    | .refused e => { error := some e }
  | _ =>
    match block.pending with
    | [] => {}
    | pending => { error := some (.openBlock (block.length - pending.length) block.length) }

/-- **Decodes a stream.** -/
def decodeStream (bytes : List Byte) : Stream :=
  if bytes.length % 2 ≠ 0 then { error := some (.oddLength bytes.length) } else decodeFrom 0 {} bytes

/-! ## Single instructions -/

/-- The one instruction of a decoded stream of `size` bytes. -/
def Stream.single (s : Stream) (size : Nat) : Except StreamError Instruction :=
  match s.error with
  | some e => .error e
  | none =>
    match s.insts with
    | [inst] => if inst.isConditional ∧ size ≠ 4 then .error .noBlock else .ok inst
    | insts => .error (.notOne insts.length)

/-- **Decodes a stream of one instruction**, which a block in front may make conditional. -/
def decodeSingle (bytes : List Byte) : Except StreamError Instruction := (decodeStream bytes).single bytes.length

end ArmToolkit.T32
