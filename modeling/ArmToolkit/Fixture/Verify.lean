import ArmToolkit.A64.Disassembly
import ArmToolkit.A64.Memory
import ArmToolkit.Fixture.Entry
import ArmToolkit.T32.Assembly

/-!
# `Fixture.Verify` — entries checked in both directions

An entry agrees with the toolkit if its bytes are written as its text, and if the instruction is encoded as its bytes.
For T32 the instruction that is encoded is read from the text; for A64, whose text is not read, it is the decoded one.

## Contents
- `Mismatch`, with the cause in `Reason`.
- `verifyEntry` checks one entry, and `verifyEntries` all of them, with a report of every mismatch.
-/

namespace ArmToolkit.Fixture

open Text Log

/-! ## Mismatches -/

/-- **Why an entry does not agree.** -/
inductive Reason
  | size (count : Nat)
  | decodeA64 (why : A64.DecodeError)
  | decodeT32 (why : T32.StreamError)
  | text
  | parse (why : T32.ParseError)
  | encodeA64 (why : A64.EncodeError)
  | encodeT32 (why : T32.EncodeError)
  | bytes

/-- The wording of a reason. -/
def Reason.message : Reason → String
  | size n => "A64 instructions are 4 bytes, entry has " ++ dec n
  | decodeA64 e => "Decode failed (" ++ e.kind ++ "): " ++ e.message
  | decodeT32 e => "Decode failed (" ++ e.kind ++ "): " ++ e.message
  | text => "Disassembly differs"
  | parse e => "Parse failed: " ++ e.message
  | encodeA64 e => "Encode failed: " ++ e.message
  | encodeT32 e => "Encode failed: " ++ e.message
  | bytes => "Encoding differs"

/-- **An entry that does not agree**, with what the toolkit makes of it as far as it came. -/
structure Mismatch where
  entry : Entry
  reason : Reason
  bytes : List Byte := []
  text : String := ""

/-- What checking one entry gives. -/
structure Verdict where
  mismatch : Option Mismatch := none
  messages : List Message := []

/-! ## Checking -/

/-- Checks an A64 entry. -/
def checkA64 (e : Entry) : Option Mismatch :=
  let word : A64.Word := A64.ofBytes 32 e.bytes
  if e.bytes.length ≠ 4 then some { entry := e, reason := .size e.bytes.length }
  else
    match A64.Instruction.decode word with
    | .error why => some { entry := e, reason := .decodeA64 why }
    | .ok inst =>
      if inst.text ≠ e.text then some { entry := e, reason := .text, text := inst.text }
      else
        match inst.encode with
        | .error why => some { entry := e, reason := .encodeA64 why, text := inst.text }
        | .ok w =>
          if w = word then none
          else some { entry := e, reason := .bytes, bytes := A64.bytesOf 4 w, text := inst.text }

/-- Checks a T32 entry. -/
def checkT32 (e : Entry) : Option Mismatch :=
  match T32.decodeSingle e.bytes with
  | .error why => some { entry := e, reason := .decodeT32 why }
  | .ok inst =>
    if inst.text ≠ e.text then some { entry := e, reason := .text, text := inst.text }
    else
      match T32.Instruction.parse e.text with
      | .error why => some { entry := e, reason := .parse why, text := inst.text }
      | .ok parsed =>
        match parsed.encode with
        | .error why => some { entry := e, reason := .encodeT32 why, text := inst.text }
        | .ok bytes =>
          if bytes ≠ e.bytes then some { entry := e, reason := .bytes, bytes, text := inst.text } else none

/-- **Checks one entry.** -/
def verifyEntry (isa : InstructionSet) (e : Entry) : Verdict :=
  match isa with
  | .a64 => { mismatch := checkA64 e }
  | .t32 => { mismatch := checkT32 e, messages := (T32.decodeStream e.bytes).messages }

/-- A line of a mismatch report. -/
def errorLine (text : String) : Message := .by .fixture .error "Verify" text

/-- The report of a mismatch. -/
def Mismatch.messages (m : Mismatch) : List Message := [
  errorLine ("Line " ++ dec m.entry.line ++ ": " ++ m.reason.message),
  errorLine ("  expected: " ++ encodeBytes m.entry.bytes ++ " | " ++ m.entry.text),
  errorLine ("  actual:   " ++ encodeBytes m.bytes ++ " | " ++ m.text)]

/-- What checking a list of entries gives: the mismatches, what was reported, and the summary if there are any. -/
structure Verification where
  mismatches : List Mismatch
  messages : List Message
  failure : Option String

/-- The summary of mismatches, if there are any. -/
def failureOf (isa : InstructionSet) (count : Nat) : List Mismatch → Option String
  | [] => none
  | m :: ms =>
    some (dec (ms.length + 1) ++ " of " ++ dec count ++ " " ++ isa.name ++ " entries mismatched, first at line " ++
      dec m.entry.line)

/-- **Checks a list of entries.** -/
def verifyEntries (isa : InstructionSet) (entries : List Entry) : Verification :=
  let verdicts := entries.map (verifyEntry isa)
  let mismatches := verdicts.filterMap (·.mismatch)
  let reports := verdicts.flatMap fun v => v.messages ++ (v.mismatch.map Mismatch.messages).getD []
  let done : Message := .by .fixture .dev "Verify" (dec entries.length ++ " " ++ isa.name ++ " entries verified")
  let failure := failureOf isa entries.length mismatches
  { mismatches, messages := if failure.isSome then reports else reports ++ [done], failure }

end ArmToolkit.Fixture
