import ArmToolkit.Text.Ascii
import ArmToolkit.Text.Numeral

/-!
# `Text.HexBytes` — byte lists as hexadecimal text

A byte is written as two lower-case digits, and bytes are separated by one space. Reading takes digits of either
case and any blanks between bytes, but no blank inside a byte and no third digit after it.
-/

namespace ArmToolkit.Text

/-- An eight-bit byte. -/
abbrev Byte := BitVec 8

/-- Whether the character is a hexadecimal digit, in either case. -/
def isHexDigit (c : Char) : Bool := (digitIn? 16 c).isSome

/-- The value of a hexadecimal digit; any other character counts as zero. -/
def hexDigitValue (c : Char) : Nat := (digitIn? 16 c).getD 0

/-- The two digits of a byte. -/
def byteDigits (b : Byte) : List Char := [digitChar (b.toNat / 16), digitChar (b.toNat % 16)]

/-- **The text of a byte list**: two digits a byte, one space between bytes. -/
def encodeBytes (bs : List Byte) : String := " ".intercalate (bs.map fun b => String.ofList (byteDigits b))

/-- **The bytes that a text denotes**, or nothing if some stretch between blanks is not a two-digit byte. -/
def decodeByteChars : List Char → Option (List Byte)
  | [] => some []
  | [c] => if isBlank c then some [] else none
  | h :: l :: cs =>
    if isBlank h then decodeByteChars (l :: cs)
    else
      match digitIn? 16 h, digitIn? 16 l with
      | some a, some b =>
        match cs with
        | [] => some [BitVec.ofNat 8 (16 * a + b)]
        | c :: cs' =>
          if isBlank c then (decodeByteChars (c :: cs')).map (BitVec.ofNat 8 (16 * a + b) :: ·) else none
      | _, _ => none

/-- `decodeByteChars` on strings. -/
def decodeBytes (s : String) : Option (List Byte) := decodeByteChars s.toList

end ArmToolkit.Text
