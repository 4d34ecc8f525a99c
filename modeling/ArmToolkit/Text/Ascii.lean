/-!
# `Text.Ascii` — letter case, blanks, and cutting texts

## Contents
- **Ends.** `untilNul` is what a reader sees who takes the first NUL for the end of a text.
- **Case.** `lower`, `equalNoCase`, `startsNoCase` fold the ASCII letters and nothing else.
- **Blanks.** `isBlank` is tab, line feed, vertical tab, form feed, carriage return or space; `strip` drops them
  at both ends, and `visible` cuts out what is between them.
- **Cutting and joining.** `split` cuts at a delimiter and strips every part; `join` is its inverse on stripped
  parts.
- **Switches.** `switch?` reads the words for on and off.
-/

namespace ArmToolkit.Text

/-! ## Ends -/

/-- The character that ends a text for readers who are not told its length. -/
def nul : Char := '\x00'

/-- The characters in front of the first NUL. -/
def charsUntilNul (cs : List Char) : List Char := cs.takeWhile (· != nul)

/-- **The text up to its first NUL**, or all of it. -/
def untilNul (s : String) : String := String.ofList (charsUntilNul s.toList)

/-! ## Case -/

/-- The lower-case form of an ASCII letter; any other character is kept. -/
def lower (c : Char) : Char :=
  if 'A' ≤ c ∧ c ≤ 'Z' then Char.ofNat (c.toNat + 32) else c

/-- The characters that a comparison looks at, in lower case: those in front of the first NUL. -/
def folded (s : String) : List Char := (charsUntilNul s.toList).map lower

/-- **Equality of texts up to the case of ASCII letters.** They have to be equally long in bytes; what follows a NUL is
    not compared. -/
def equalNoCase (s t : String) : Bool := s.utf8ByteSize == t.utf8ByteSize && folded s == folded t

/-- **Whether `s` begins with `t`**, up to the case of ASCII letters. It has to be at least as long in bytes; what
    follows a NUL of `t` is not compared, and `s` needs a NUL at the same place. -/
def startsNoCase (s t : String) : Bool :=
  decide (t.utf8ByteSize ≤ s.utf8ByteSize) &&
    if nul ∈ t.toList then folded s == folded t else (folded t).isPrefixOf (folded s)

/-! ## Blanks -/

/-- **A blank**: one of the five control characters from tab to carriage return, or a space. -/
def isBlank (c : Char) : Bool := decide ('\x09' ≤ c ∧ c ≤ '\x0d') || c == ' '

/-- The text without the blanks at its front. -/
def stripFront (cs : List Char) : List Char := cs.dropWhile isBlank

/-- The text without the blanks at its end. -/
def stripBack (cs : List Char) : List Char := (cs.reverse.dropWhile isBlank).reverse

/-- **The text without the blanks at its two ends.** -/
def stripChars (cs : List Char) : List Char := stripBack (stripFront cs)

/-- `stripChars` on strings. -/
def strip (s : String) : String := String.ofList (stripChars s.toList)

/-- Where the first character that is not a blank stands: behind the blanks at the front. -/
def visibleStart (cs : List Char) : Nat := (cs.takeWhile isBlank).length

/-- Where the text behind the last character that is not a blank begins; zero if all are blanks. -/
def visibleEnd (cs : List Char) : Nat := cs.length - (cs.reverse.takeWhile isBlank).length

/-- **The part from the first to the last character that is not a blank.** -/
def visibleChars (cs : List Char) : List Char := (cs.take (visibleEnd cs)).drop (visibleStart cs)

/-- `visibleChars` on strings. -/
def visible (s : String) : String := String.ofList (visibleChars s.toList)

/-! ## Cutting and joining -/

/-- Puts one character in front of pieces: a delimiter opens a new piece, any other joins the first one. -/
def consPiece (d c : Char) (ps : List (List Char)) : List (List Char) :=
  if c = d then [] :: ps
  else
    match ps with
    | [] => [[c]]
    | p :: ps => (c :: p) :: ps

/-- **The pieces between delimiters.** A text that ends at a delimiter has no piece after it, and the empty text
    has none at all. -/
def pieces (d : Char) (cs : List Char) : List (List Char) := cs.foldr (consPiece d) []

/-- The pieces of a text, each stripped; with `skipEmpty` the empty ones are left out. -/
def splitChars (d : Char) (skipEmpty : Bool) (cs : List Char) : List (List Char) :=
  ((pieces d cs).map stripChars).filter fun p => !(skipEmpty && p.isEmpty)

/-- `splitChars` on strings. -/
def split (d : Char) (skipEmpty : Bool) (s : String) : List String :=
  (splitChars d skipEmpty s.toList).map String.ofList

/-- The texts in order, with the delimiter between neighbours. -/
def join (delimiter : String) (ss : List String) : String := delimiter.intercalate ss

/-! ## Switches -/

/-- The words that turn a switch on. -/
def onWords : List String := ["true", "yes", "on", "1", "enabled"]

/-- The words that turn a switch off. -/
def offWords : List String := ["false", "no", "off", "0", "disabled"]

/-- The setting that a word names, in any case; nothing else is read around it. -/
def switch? (s : String) : Option Bool :=
  if onWords.any (equalNoCase s) then some true
  else if offWords.any (equalNoCase s) then some false
  else none

/-- The word a switch is written with. -/
def switchWord (b : Bool) : String := if b then "true" else "false"

end ArmToolkit.Text
