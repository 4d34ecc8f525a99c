import ArmToolkit.Text.HexBytes

/-!
# `A64.SparseBytes` — rows of bytes that are zero almost everywhere

A row of bytes without an end, of which only the bytes that were put take room. A row that is changed shares what did
not change with the row it came from.

## Contents
- **The row.** `SparseBytes` is a tree: its root is the byte at place 0, and its two branches are the bytes at the odd
  and at the even places behind it.
- **One byte.** `get` and `set`, with the law that ties them together (`get_set`).
- **Many bytes.** `slice` and `put` (`get_put`, `slice_put`), and `listed`, which names the bytes that take room.
-/

namespace ArmToolkit.A64

open Text (Byte)

/-- **A row of bytes**, all zero unless they are put. -/
inductive SparseBytes
  | zeros
  | node (root : Byte) (odd even : SparseBytes)
  deriving DecidableEq

namespace SparseBytes

/-! ## One byte -/

/-- **The byte at a place.** Place `i` of the odd branch is place `2 * i + 1` of the row, and place `i` of the even
    branch is place `2 * i + 2`. -/
def get : SparseBytes → Nat → Byte
  | zeros, _ => 0
  | node root odd even, i =>
    if i = 0 then root
    else if i % 2 = 1 then odd.get (i / 2)
    else even.get (i / 2 - 1)

/-- The first byte of a row. -/
def root : SparseBytes → Byte
  | zeros => 0
  | node root _ _ => root

/-- The bytes at odd places. -/
def odd : SparseBytes → SparseBytes
  | zeros => zeros
  | node _ odd _ => odd

/-- The bytes at even places behind the first. -/
def even : SparseBytes → SparseBytes
  | zeros => zeros
  | node _ _ even => even

/-- A byte of a row, from its root and its branches. -/
theorem get_eq (t : SparseBytes) (i : Nat) :
    t.get i = if i = 0 then t.root else if i % 2 = 1 then t.odd.get (i / 2) else t.even.get (i / 2 - 1) := by
  cases t <;> simp [get, root, odd, even]

/-- Puts a byte at a place below a bound. -/
def setBelow : Nat → SparseBytes → Nat → Byte → SparseBytes
  | 0, t, _, _ => t
  | bound + 1, t, i, b =>
    if i = 0 then node b t.odd t.even
    else if i % 2 = 1 then node t.root (setBelow bound t.odd (i / 2) b) t.even
    else node t.root t.odd (setBelow bound t.even (i / 2 - 1) b)

/-- **Puts a byte at a place.** -/
def set (t : SparseBytes) (i : Nat) (b : Byte) : SparseBytes := setBelow (i + 1) t i b

/-- The byte that was put below a bound is there, and the others are kept. -/
theorem get_setBelow {bound : Nat} (t : SparseBytes) {i : Nat} (b : Byte) (h : i < bound) (j : Nat) :
    (setBelow bound t i b).get j = if j = i then b else t.get j := by
  induction bound generalizing t i j with
  | zero => omega
  | succ bound ih =>
    rw [setBelow, t.get_eq j]
    by_cases hi : i = 0
    · subst hi
      by_cases hj : j = 0 <;> simp [get, hj]
    · by_cases hodd : i % 2 = 1
      · by_cases hj : j = 0
        · simp [hi, hodd, get, hj, Ne.symm hi]
        · by_cases hjodd : j % 2 = 1
          · have : j / 2 = i / 2 ↔ j = i := by omega
            simp [hi, hodd, get, hj, hjodd, ih _ (show i / 2 < bound by omega), this]
          · have : j ≠ i := by omega
            simp [hi, hodd, get, hj, hjodd, this]
      · by_cases hj : j = 0
        · simp [hi, hodd, get, hj, Ne.symm hi]
        · by_cases hjodd : j % 2 = 1
          · have : j ≠ i := by omega
            simp [hi, hodd, get, hj, hjodd, this]
          · have : j / 2 - 1 = i / 2 - 1 ↔ j = i := by omega
            simp [hi, hodd, get, hj, hjodd, ih _ (show i / 2 - 1 < bound by omega), this]

/-- **The byte that was put is there**, and the others are kept. -/
theorem get_set (t : SparseBytes) (i : Nat) (b : Byte) (j : Nat) :
    (t.set i b).get j = if j = i then b else t.get j := get_setBelow t b (Nat.lt_succ_self i) j

/-! ## Many bytes -/

/-- **The `n` bytes from a place on.** -/
def slice (t : SparseBytes) (i n : Nat) : List Byte := (List.range n).map fun k => t.get (i + k)

/-- **Puts bytes from a place on.** -/
def put (t : SparseBytes) (i : Nat) : List Byte → SparseBytes
  | [] => t
  | b :: bs => put (t.set i b) (i + 1) bs

/-- The row that begins with the given bytes. -/
def ofList (bs : List Byte) : SparseBytes := zeros.put 0 bs

/-- **The bytes that were put are there**, and the others are kept. -/
theorem get_put (t : SparseBytes) (i : Nat) (bs : List Byte) (j : Nat) :
    (t.put i bs).get j = if i ≤ j ∧ j < i + bs.length then bs.getD (j - i) 0 else t.get j := by
  induction bs generalizing t i with
  | nil => simp [put, show ¬ (i ≤ j ∧ j < i) by omega]
  | cons b bs ih =>
    rw [put, ih, get_set, List.length_cons]
    by_cases hj : j = i
    · simp [hj, show ¬ (i + 1 ≤ i) by omega]
    · by_cases inside : i + 1 ≤ j ∧ j < i + 1 + bs.length
      · rw [if_pos inside, if_pos (by omega), show j - i = j - (i + 1) + 1 by omega, List.getD_cons_succ]
      · rw [if_neg inside, if_neg hj, if_neg (by omega)]

/-- Bytes that were put are read back. -/
theorem slice_put (t : SparseBytes) (i : Nat) (bs : List Byte) : (t.put i bs).slice i bs.length = bs := by
  apply List.ext_getElem
  · simp [slice]
  · intro k _ hk
    simp [slice, get_put, hk]

/-- The bytes that take room, with their places in no order. All others are zero. -/
def listed : SparseBytes → List (Nat × Byte)
  | zeros => []
  | node root odd even =>
    (0, root) :: odd.listed.map (fun p => (2 * p.1 + 1, p.2)) ++ even.listed.map fun p => (2 * p.1 + 2, p.2)

end SparseBytes

end ArmToolkit.A64
