import ArmToolkit.Text.HexBytes

/-!
# `Fixture.Entry` — reference encodings as lines of text

A fixture holds one entry a line: the bytes in hexadecimal, a bar, and the text of the instruction. A number sign
starts a comment, but not behind the bar, where it is part of an immediate. Lines with nothing but blanks and comments
are skipped.

## Contents
- `Entry`, with the number of its line.
- `loadEntries` gives the entries of a fixture, up to the first line that is wrong.
-/

namespace ArmToolkit.Fixture

open Text

/-- **An entry of a fixture.** -/
structure Entry where
  line : Nat
  bytes : List Byte
  text : String
  deriving DecidableEq

/-- **What is wrong with a line.** -/
inductive LineError
  | noSeparator (line : Nat)
  | bytes (line : Nat) (text : String)
  | noText (line : Nat)
  deriving DecidableEq

/-- The wording of a line error. -/
def LineError.message : LineError → String
  | noSeparator n => "Line " ++ dec n ++ ": missing '|' separator"
  | bytes n s => "Line " ++ dec n ++ ": invalid bytes '" ++ s ++ "'"
  | noText n => "Line " ++ dec n ++ ": missing instruction text"

/-- A line without its comment. -/
def withoutComment (cs : List Char) : List Char :=
  let front := cs.takeWhile (· != '#')
  if front.contains '|' then cs else front

/-- **Reads one line**: nothing if it is skipped. -/
def readLine (number : Nat) (line : List Char) : Except LineError (Option Entry) :=
  let body := stripChars (withoutComment line)
  if body.isEmpty then .ok none
  else
    match body.span (· != '|') with
    | (_, []) => .error (.noSeparator number)
    | (front, _ :: back) =>
      let hex := stripChars front
      let text := stripChars back
      match decodeByteChars hex with
      | none | some [] => .error (.bytes number (String.ofList hex))
      | some bytes =>
        if text.isEmpty then .error (.noText number)
        else .ok (some { line := number, bytes, text := String.ofList text })

/-- What loading a fixture gives: the entries before the first line that is wrong, and what is wrong with it. -/
structure Loaded where
  entries : List Entry := []
  error : Option LineError := none

/-- Reads lines from a number on. -/
def readLines (number : Nat) : List (List Char) → Loaded
  | [] => {}
  | line :: lines =>
    match readLine number line with
    | .error e => { error := some e }
    | .ok none => readLines (number + 1) lines
    | .ok (some entry) =>
      let rest := readLines (number + 1) lines
      { rest with entries := entry :: rest.entries }

/-- **Loads a fixture.** Lines are counted from one. -/
def loadEntries (contents : String) : Loaded := readLines 1 (splitChars '\n' false contents.toList)

end ArmToolkit.Fixture
