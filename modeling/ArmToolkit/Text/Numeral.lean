import ArmToolkit.PowerOfTwo

/-!
# `Text.Numeral` — integers written in a base

## Contents
- **Printing.** `digits` writes a natural number in a base of 2 to 36 with lower-case letters; `dec`,
  `decInt`, `hex` and `hexPadded` are the spellings the toolkit prints.
- **Reading.** `scanNat` takes the longest run of digits of a base. `IntKind` is a machine integer type, as a
  sign and a width: `IntKind.scan` reads one number of it and returns what follows, and `IntKind.scanMarked`
  first takes a base mark (`0x` or `0b`).

A number that does not fit its type is no number: nothing is clamped and nothing wraps.
-/

namespace ArmToolkit.Text

/-! ## Printing -/

/-- The digit of value `d < 36`, in lower case. -/
def digitChar (d : Nat) : Char :=
  if d < 10 then Char.ofNat (48 + d) else Char.ofNat (87 + d)

/-- **The digits of a number**, most significant first, without leading zeros; zero is one digit. -/
def digits (base n : Nat) : List Char :=
  if _h : base < 2 ∨ n < base then [digitChar n]
  else digits base (n / base) ++ [digitChar (n % base)]
termination_by n
decreasing_by
  exact Nat.div_lt_self (by omega) (by omega)

/-- A natural number in decimal. -/
def dec (n : Nat) : String := String.ofList (digits 10 n)

/-- The digits of an integer, after a minus sign when it is negative. -/
def intDigits (base : Nat) (z : Int) : List Char :=
  if z < 0 then '-' :: digits base z.natAbs else digits base z.natAbs

/-- An integer in decimal. -/
def decInt (z : Int) : String := String.ofList (intDigits 10 z)

/-- An integer in decimal whose sign is always written. -/
def decSigned (z : Int) : String := if z < 0 then decInt z else "+" ++ decInt z

/-- A natural number in hexadecimal, without a mark and without padding. -/
def hex (n : Nat) : String := String.ofList (digits 16 n)

/-- A natural number in hexadecimal, filled up with zeros to `width` digits. -/
def hexPadded (width n : Nat) : String :=
  let ds := digits 16 n
  String.ofList (List.replicate (width - ds.length) '0' ++ ds)

/-- A text filled up with blanks to `width` characters. -/
def padRight (width : Nat) (s : String) : String :=
  s ++ String.ofList (List.replicate (width - s.length) ' ')

/-! ## Reading -/

/-- The value of a digit of the bases up to 36, in either case. -/
def digitValue? (c : Char) : Option Nat :=
  if '0' ≤ c ∧ c ≤ '9' then some (c.toNat - 48)
  else if 'a' ≤ c ∧ c ≤ 'z' then some (c.toNat - 87)
  else if 'A' ≤ c ∧ c ≤ 'Z' then some (c.toNat - 55)
  else none

/-- The value of a digit of `base`. -/
def digitIn? (base : Nat) (c : Char) : Option Nat :=
  match digitValue? c with
  | some d => if d < base then some d else none
  | none => none

/-- The longest run of digits of `base` at the front, as digit values, and what follows it. -/
def takeDigits (base : Nat) : List Char → List Nat × List Char
  | [] => ([], [])
  | c :: cs =>
    match digitIn? base c with
    | some d =>
      let (ds, rest) := takeDigits base cs
      (d :: ds, rest)
    | none => ([], c :: cs)

/-- The number that digit values denote, most significant first. -/
def ofDigits (base : Nat) (ds : List Nat) : Nat := ds.foldl (fun n d => n * base + d) 0

/-- **An unsigned number at the front of a text**: at least one digit, and as many as there are. -/
def scanNat (base : Nat) (cs : List Char) : Option (Nat × List Char) :=
  match takeDigits base cs with
  | ([], _) => none
  | (ds, rest) => some (ofDigits base ds, rest)

/-- A machine integer type: two's complement or unsigned, of a number of bits. -/
structure IntKind where
  signed : Bool
  bits : Nat

namespace IntKind

/-- The types that settings and command lines use. -/
def s32 : IntKind := ⟨true, 32⟩

/-- The unsigned 32-bit type. -/
def u32 : IntKind := ⟨false, 32⟩

/-- The least value of the type. -/
def least (k : IntKind) : Int := if k.signed then -(twoPow (k.bits - 1) : Int) else 0

/-- The greatest value of the type. -/
def greatest (k : IntKind) : Int := twoPow (if k.signed then k.bits - 1 else k.bits) - 1

/-- Whether the type holds `z`. -/
def holds (k : IntKind) (z : Int) : Bool := decide (k.least ≤ z ∧ z ≤ k.greatest)

/-- The type of the same width without a sign. -/
def unsigned (k : IntKind) : IntKind := ⟨false, k.bits⟩

/-- The sign in front of a number: only a signed type takes one. -/
def takeSign (k : IntKind) : List Char → Bool × List Char
  | '-' :: cs => if k.signed then (true, cs) else (false, '-' :: cs)
  | cs => (false, cs)

/-- **One number of the type** at the front of a text, and what follows it; nothing when there are no digits or
    the number does not fit. -/
def scan (k : IntKind) (base : Nat) (cs : List Char) : Option (Int × List Char) :=
  let (negative, body) := k.takeSign cs
  match scanNat base body with
  | none => none
  | some (n, rest) =>
    let z : Int := if negative then -n else n
    if k.holds z then some (z, rest) else none

/-- The number at the front of a text; what follows is ignored. -/
def read? (k : IntKind) (base : Nat) (s : String) : Option Int :=
  (k.scan base s.toList).map (·.1)

end IntKind

/-- A base mark in front of the digits. A mark that is present is always taken. -/
def takeBaseMark : List Char → Nat × List Char
  | '0' :: 'x' :: cs => (16, cs)
  | '0' :: 'X' :: cs => (16, cs)
  | '0' :: 'b' :: cs => (2, cs)
  | '0' :: 'B' :: cs => (2, cs)
  | cs => (10, cs)

/-- What reading a marked number found: the number, if the type holds it, and what follows the digits, if there
    were any that fit the width. -/
structure MarkedScan where
  value : Option Int
  rest : Option (List Char)

/-- **A number with an optional sign and base mark.** The digits are read as an unsigned number of the same width
    first, so that the least value of a signed type can be written. -/
def IntKind.scanMarked (k : IntKind) (cs : List Char) : MarkedScan :=
  let (negative, body) := k.takeSign cs
  let (base, body) := takeBaseMark body
  match k.unsigned.scan base body with
  | none => ⟨none, none⟩
  | some (n, rest) =>
    let z : Int := if negative then -n else n
    ⟨if k.holds z then some z else none, some rest⟩

/-- The marked number that makes up the whole front of a text; what follows is ignored. -/
def IntKind.readMarked? (k : IntKind) (s : String) : Option Int := (k.scanMarked s.toList).value

end ArmToolkit.Text
