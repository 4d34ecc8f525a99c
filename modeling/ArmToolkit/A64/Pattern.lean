import ArmToolkit.PowerOfTwo
import ArmToolkit.Text.Numeral

/-!
# `A64.Pattern` — how many elements a predicate pattern selects

A pattern is a five-bit number. It selects the greatest count of a certain form that does not exceed the number of
lanes: a power of two, a multiple of three or four, all lanes, or one fixed number and otherwise none. The numbers
without a meaning select nothing.
-/

namespace ArmToolkit.A64.Pattern

/-- The pattern that selects all lanes. -/
def all : Nat := 31

/-- The fixed count of a `vl` pattern. -/
def fixedCount? (pattern : Nat) : Option Nat :=
  if 1 ≤ pattern ∧ pattern ≤ 8 then some pattern
  else if 9 ≤ pattern ∧ pattern ≤ 13 then some (16 * twoPow (pattern - 9))
  else none

/-- **The number of lanes that a pattern selects** out of `lanes`. -/
def count (pattern lanes : Nat) : Nat :=
  match fixedCount? pattern with
  | some k => if k ≤ lanes then k else 0
  | none =>
    if pattern = 0 then (if lanes = 0 then 0 else twoPow lanes.log2)
    else if pattern = 29 then lanes - lanes % 4
    else if pattern = 30 then lanes - lanes % 3
    else if pattern = all then lanes
    else 0

/-- The name of a pattern; one without a meaning is printed as a number. -/
def name (pattern : Nat) : String :=
  match fixedCount? pattern with
  | some k => "vl" ++ Text.dec k
  | none =>
    if pattern = 0 then "pow2"
    else if pattern = 29 then "mul4"
    else if pattern = 30 then "mul3"
    else if pattern = all then "all"
    else "#0x" ++ Text.hex pattern

end ArmToolkit.A64.Pattern
