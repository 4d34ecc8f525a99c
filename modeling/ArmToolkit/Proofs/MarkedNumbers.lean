import ArmToolkit.Proofs.HexRuns
import ArmToolkit.Proofs.Numerals
import Mathlib.Data.List.Induction

/-!
# `Proofs.MarkedNumbers` — which texts are numbers with a sign and a base mark

## Contents
- **Digits.** `IsDigit base c v`: the character is the digit of a value in a base. `Numeral base ds n`: digits, at least one,
  and the number that they denote (`numeral_iff`).
- **Marked numbers.** `Marked cs n rest`: a base mark if there is one, and digits of its base up to where there are no more. These
  are the texts whose mark and digits are read (`marked_iff`).
- **Values.** `IntKind.value` is the number that bits of a type stand for. `IntKind.exists_value_iff`: which numbers these are.
- **Spelled numbers.** `IntKind.Spells cs z rest`: a marked number, behind a minus if the type has a sign (`IntKind.spells_iff`).
  With a number that the type has it is read (`IntKind.scanMarked_eq_some_iff`), and every number of a type is spelled by what is
  printed for it (`IntKind.spells_value`).
-/

namespace ArmToolkit.Text

/-! ## Digits -/

/-- **The digit of a value** in a base of at most sixteen. -/
def IsDigit (base : Nat) (c : Char) (v : Nat) : Prop := IsHexDigit c v ∧ v < base

/-- **Digits of a base**, at least one, and the number that they denote. -/
inductive Numeral (base : Nat) : List Char → Nat → Prop where
  | digit {c : Char} {v : Nat} : IsDigit base c v → Numeral base [c] v
  | append {ds : List Char} {n : Nat} {c : Char} {v : Nat} :
      Numeral base ds n → IsDigit base c v → Numeral base (ds ++ [c]) (n * base + v)

/-- **No digit is in front.** -/
def NoDigit (base : Nat) (cs : List Char) : Prop := ∀ c ∈ cs.head?, ∀ v, ¬ IsDigit base c v

section

variable {base : Nat}

/-- What is read as a digit is the digit of its value. -/
theorem isDigit_iff (small : base ≤ 16) {c : Char} {v : Nat} : IsDigit base c v ↔ digitIn? base c = some v := by
  unfold IsDigit
  rw [← digitIn?_eq_some_iff]
  unfold digitIn?
  cases digitValue? c with
  | none => simp
  | some d =>
    dsimp only
    by_cases low : d < base
    · rw [if_pos low, if_pos (Nat.lt_of_lt_of_le low small)]
      exact and_iff_left_of_imp fun same => Option.some.inj same ▸ low
    · -- a digit of a greater value is none of this base
      rw [if_neg low]
      constructor
      · rintro ⟨digit, inside⟩
        obtain ⟨-, rfl⟩ : d < 16 ∧ d = v := by simpa using digit
        exact absurd inside low
      · intro none
        cases none

/-- Where no digit is in front, none is read. -/
theorem noDigit_iff (small : base ≤ 16) {cs : List Char} : NoDigit base cs ↔ ∀ c ∈ cs.head?, digitIn? base c = none := by
  refine forall_congr' fun c => imp_congr_right fun _ => ?_
  rw [Option.eq_none_iff_forall_ne_some]
  exact forall_congr' fun v => not_congr (isDigit_iff small)

/-- One digit is a number. -/
theorem isNumber_digit {c : Char} {v : Nat} (h : digitIn? base c = some v) : IsNumber base [c] v where
  nonempty := List.cons_ne_nil c []
  digits := by simp [h]
  value := by simp [h, ofDigits]

/-- A number with one more digit. -/
theorem isNumber_append {ds : List Char} {n v : Nat} {c : Char} (h : IsNumber base ds n) (digit : digitIn? base c = some v) :
    IsNumber base (ds ++ [c]) (n * base + v) where
  nonempty := by simp
  digits := by
    intro c' hc
    rcases List.mem_append.mp hc with front | last
    · exact h.digits c' front
    · rw [List.mem_singleton.mp last, digit]
      rfl
  value := by
    rw [List.filterMap_append, List.filterMap_cons_some digit, List.filterMap_nil, ofDigits_append, ← h.value]

/-- **Digits denote their number.** -/
theorem numeral_iff (small : base ≤ 16) {ds : List Char} {n : Nat} : Numeral base ds n ↔ IsNumber base ds n := by
  constructor
  · intro h
    induction h with
    | digit h => exact isNumber_digit ((isDigit_iff small).mp h)
    | append _ h ih => exact isNumber_append ih ((isDigit_iff small).mp h)
  · intro h
    induction ds using List.reverseRecOn generalizing n with
    | nil => exact absurd rfl h.nonempty
    | append_singleton ds c ih =>
      obtain ⟨v, digit⟩ := Option.isSome_iff_exists.mp (h.digits c (by simp))
      have last := (isDigit_iff small).mpr digit
      by_cases first : ds = []
      · subst first
        have value : n = v := by simpa [digit, ofDigits] using h.value
        rw [value]
        exact .digit last
      · have front : IsNumber base ds (ofDigits base (ds.filterMap (digitIn? base))) :=
          ⟨first, fun c hc => h.digits c (List.mem_append_left _ hc), rfl⟩
        have value := h.value
        rw [List.filterMap_append, List.filterMap_cons_some digit, List.filterMap_nil, ofDigits_append] at value
        rw [value]
        exact .append (ih front) last

/-- **A number is read where digits stand in front**, up to where there is none. -/
theorem scanNat_eq_some_iff_numeral (small : base ≤ 16) {cs rest : List Char} {n : Nat} :
    scanNat base cs = some (n, rest) ↔ ∃ ds, cs = ds ++ rest ∧ Numeral base ds n ∧ NoDigit base rest := by
  simp only [scanNat_eq_some_iff, numeral_iff small, noDigit_iff small]

/-- Digits begin with a digit. -/
theorem Numeral.head {ds : List Char} {n : Nat} (h : Numeral base ds n) : ∃ c v tail, ds = c :: tail ∧ IsDigit base c v := by
  induction h with
  | @digit c v h => exact ⟨c, v, [], rfl, h⟩
  | append _ _ ih =>
    obtain ⟨c, v, tail, rfl, h⟩ := ih
    exact ⟨c, v, _, rfl, h⟩

/-- A minus is no digit. -/
theorem not_isDigit_minus {v : Nat} : ¬ IsDigit base '-' v := by
  rintro ⟨digit, -⟩
  have none : digitIn? 16 '-' = none := by decide
  rw [digitIn?_eq_some_iff.mpr digit] at none
  cases none

end

/-! ## Marked numbers -/

/-- **A number with a base mark at the front of a text**, and what is behind it. Without a mark it is decimal, and what could
    be read as a mark is one. -/
inductive Marked : List Char → Nat → List Char → Prop where
  | decimal {ds rest : List Char} {n : Nat} :
      (∀ mark ∈ baseMarks, ¬ mark.1 <+: ds ++ rest) → Numeral 10 ds n → NoDigit 10 rest → Marked (ds ++ rest) n rest
  | marked {mark ds rest : List Char} {base n : Nat} :
      (mark, base) ∈ baseMarks → Numeral base ds n → NoDigit base rest → Marked (mark ++ (ds ++ rest)) n rest

/-- A base that has a mark. -/
theorem base_le_of_mem {mark : List Char} {base : Nat} (h : (mark, base) ∈ baseMarks) : base ≤ 16 := by
  have table : ∀ m ∈ baseMarks, m.2 ≤ 16 := by decide
  exact table (mark, base) h

section

variable {cs rest : List Char} {n : Nat}

/-- **A marked number is read** in the base of its mark. -/
theorem marked_iff :
    Marked cs n rest ↔ ∃ base body, takeBaseMark cs = (base, body) ∧ scanNat base body = some (n, rest) := by
  constructor
  · rintro (⟨unmarked, number, stop⟩ | ⟨mark, number, stop⟩)
    · exact ⟨10, _, takeBaseMark_eq_iff.mpr (.inr ⟨rfl, rfl, unmarked⟩),
        (scanNat_eq_some_iff_numeral (by decide)).mpr ⟨_, rfl, number, stop⟩⟩
    · exact ⟨_, _, takeBaseMark_eq_iff.mpr (.inl ⟨_, mark, rfl⟩),
        (scanNat_eq_some_iff_numeral (base_le_of_mem mark)).mpr ⟨_, rfl, number, stop⟩⟩
  · rintro ⟨base, body, taken, scanned⟩
    rcases takeBaseMark_eq_iff.mp taken with ⟨mark, marked, rfl⟩ | ⟨rfl, rfl, unmarked⟩
    · obtain ⟨ds, rfl, number, stop⟩ := (scanNat_eq_some_iff_numeral (base_le_of_mem marked)).mp scanned
      exact .marked marked number stop
    · obtain ⟨ds, rfl, number, stop⟩ := (scanNat_eq_some_iff_numeral (by decide)).mp scanned
      exact .decimal unmarked number stop

/-- An unsigned number does not begin with a minus. -/
theorem Marked.unsigned (h : Marked cs n rest) : ∀ c ∈ cs.head?, c ≠ '-' := by
  rintro c first rfl
  cases h with
  | decimal _ number _ =>
    obtain ⟨c, v, tail, rfl, digit⟩ := number.head
    obtain rfl : c = '-' := by simpa using first
    exact not_isDigit_minus digit
  | @marked mark ds rest base n marked number stop =>
    have table : ∀ m ∈ baseMarks, ∀ more : List Char, (m.1 ++ more).head? = some '0' := by simp [baseMarks]
    rw [table _ marked] at first
    cases first

/-- What is printed for a number is one. -/
theorem marked_digits (n : Nat) : Marked (digits 10 n) n [] :=
  marked_iff.mpr ⟨10, digits 10 n, takeBaseMark_digits n, scanNat_digits (by decide) (by decide) n⟩

end

namespace IntKind

variable (k : IntKind)

/-! ## Values -/

/-- **The number that bits stand for**: in two's complement if the type has a sign. -/
def value (v : BitVec k.bits) : Int := if k.signed then v.toInt else v.toNat

/-- **The numbers of a type** are those that it holds and that fit its width. -/
theorem exists_value_iff {z : Int} : (∃ v, k.value v = z) ↔ k.holds z = true ∧ z.natAbs < twoPow k.bits := by
  obtain ⟨signed, bits⟩ := k
  unfold holds
  rw [decide_eq_true_iff]
  cases signed with
  | false =>
    show (∃ v : BitVec bits, (v.toNat : Int) = z) ↔ ((0 : Int) ≤ z ∧ z ≤ (twoPow bits : Int) - 1) ∧ z.natAbs < twoPow bits
    constructor
    · rintro ⟨v, rfl⟩
      have small : v.toNat < twoPow bits := v.isLt
      omega
    · rintro ⟨⟨positive, -⟩, small⟩
      refine ⟨BitVec.ofNat bits z.natAbs, ?_⟩
      have same : (BitVec.ofNat bits z.natAbs).toNat = z.natAbs := Nat.mod_eq_of_lt small
      rw [same, Int.natAbs_of_nonneg positive]
  | true =>
    show (∃ v : BitVec bits, v.toInt = z) ↔
      (-(twoPow (bits - 1) : Int) ≤ z ∧ z ≤ (twoPow (bits - 1) : Int) - 1) ∧ z.natAbs < twoPow bits
    rcases Nat.eq_zero_or_pos bits with rfl | positive
    · -- without bits there is nothing but zero
      simp only [BitVec.toInt_zero_length, exists_const, Nat.zero_sub, twoPow_zero]
      omega
    · have double := twoPow_pred positive
      constructor
      · rintro ⟨v, rfl⟩
        have range := toInt_bounds v
        omega
      · rintro ⟨⟨low, high⟩, -⟩
        exact ⟨BitVec.ofInt bits z, toInt_ofInt_of_range positive low (by omega)⟩

/-! ## Spelled numbers -/

/-- **A number of a type at the front of a text**, and what is behind it. Only a type with a sign has a minus. -/
inductive Spells : List Char → Int → List Char → Prop where
  | plain {cs rest : List Char} {n : Nat} : Marked cs n rest → Spells cs n rest
  | minus {cs rest : List Char} {n : Nat} : k.signed = true → Marked cs n rest → Spells ('-' :: cs) (-n) rest

/-- **The sign that is taken**: a minus, if the type has one; nothing otherwise. -/
theorem takeSign_eq_iff {negative : Bool} {cs body : List Char} :
    k.takeSign cs = (negative, body) ↔
      (negative = true ∧ k.signed = true ∧ cs = '-' :: body) ∨
        (negative = false ∧ cs = body ∧ (k.signed = true → ∀ c ∈ cs.head?, c ≠ '-')) := by
  unfold takeSign
  split
  · rename_i cs
    cases k.signed <;> simp [eq_comm]
  · rename_i plain
    constructor
    · intro same
      cases same
      refine .inr ⟨rfl, rfl, ?_⟩
      rintro - c first rfl
      obtain ⟨rest, rfl⟩ := List.head?_eq_some_iff.mp first
      exact plain rest rfl
    · rintro (⟨-, -, rfl⟩ | ⟨rfl, rfl, -⟩)
      · exact absurd rfl (plain body)
      · rfl

/-- **A spelled number** is a sign and a marked number behind it. -/
theorem spells_iff {cs rest : List Char} {z : Int} :
    k.Spells cs z rest ↔
      ∃ negative body n, k.takeSign cs = (negative, body) ∧ Marked body n rest ∧ z = if negative then -(n : Int) else n := by
  constructor
  · rintro (@⟨cs, rest, n, marked⟩ | @⟨cs, rest, n, signed, marked⟩)
    · exact ⟨false, cs, n, k.takeSign_eq_iff.mpr (.inr ⟨rfl, rfl, fun _ => marked.unsigned⟩), marked, rfl⟩
    · exact ⟨true, cs, n, k.takeSign_eq_iff.mpr (.inl ⟨rfl, signed, rfl⟩), marked, rfl⟩
  · rintro ⟨negative, body, n, taken, marked, rfl⟩
    rcases k.takeSign_eq_iff.mp taken with ⟨rfl, signed, rfl⟩ | ⟨rfl, rfl, -⟩
    · exact .minus signed marked
    · exact .plain marked

/-- **A text is read in parts**: the sign, and the number behind it. The type has to have the number that they make. -/
theorem scanMarked_eq_some_iff {cs rest : List Char} {z : Int} :
    k.scanMarked cs = ⟨some z, some rest⟩ ↔
      (∃ negative body n, k.takeSign cs = (negative, body) ∧ Marked body n rest ∧ z = if negative then -(n : Int) else n) ∧
        ∃ v, k.value v = z := by
  rw [k.exists_value_iff]
  have size : ∀ (negative : Bool) (n : Nat), (if negative then -(n : Int) else n).natAbs = n := by
    intro negative n
    split <;> omega
  unfold scanMarked
  constructor
  · intro read
    dsimp only at read
    split at read
    · cases read
    · rename_i z' rest' scanned
      obtain ⟨n, rfl, small, number⟩ := k.scan_unsigned_eq_some_iff.mp scanned
      simp only [MarkedScan.mk.injEq, Option.ite_none_right_eq_some, Option.some.injEq] at read
      obtain ⟨⟨held, rfl⟩, rfl⟩ := read
      refine ⟨⟨_, _, n, rfl, marked_iff.mpr ⟨_, _, rfl, number⟩, rfl⟩, held, ?_⟩
      rw [size]
      exact small
  · rintro ⟨⟨negative, body, n, sign, marked, rfl⟩, held, small⟩
    rw [size] at small
    obtain ⟨base, body', mark, number⟩ := marked_iff.mp marked
    have scanned := k.scan_unsigned_eq_some_iff.mpr ⟨n, rfl, small, number⟩
    simp only [sign, mark, scanned, held, if_true]

/-- Where there is a number, what is behind it is known. -/
theorem value_scanMarked_eq_some_iff {cs : List Char} {z : Int} :
    (k.scanMarked cs).value = some z ↔ ∃ rest, k.scanMarked cs = ⟨some z, some rest⟩ := by
  constructor
  · intro value
    unfold scanMarked at value ⊢
    dsimp only at value ⊢
    split at value
    · cases value
    · exact ⟨_, congrArg (MarkedScan.mk · _) value⟩
  · rintro ⟨rest, read⟩
    rw [read]

/-- A type without a sign has no negative number. -/
theorem signed_of_negative {v : BitVec k.bits} (negative : k.value v < 0) : k.signed = true := by
  unfold value at negative
  split at negative
  · assumption
  · omega

/-- **What is printed for a number spells it**, with nothing behind it. -/
theorem spells_value (v : BitVec k.bits) : k.Spells (intDigits 10 (k.value v)) (k.value v) [] := by
  have marked := marked_digits (k.value v).natAbs
  unfold intDigits
  split
  · rename_i negative
    have spelled := Spells.minus (k.signed_of_negative negative) marked
    rwa [show -((k.value v).natAbs : Int) = k.value v by omega] at spelled
  · rename_i positive
    have spelled : k.Spells _ _ _ := .plain marked
    rwa [Int.natAbs_of_nonneg (Int.not_lt.mp positive)] at spelled

/-- **Reading a number with a sign and a base mark.** It is found exactly where a text spells, at its front, a number that the
    type has; what is behind that is left. Numbers that are printed are read back. -/
theorem readMarked_spelled (s : String) :
    (∀ z, k.readMarked? s = some z ↔ ∃ rest, k.Spells s.toList z rest ∧ ∃ v, k.value v = z) ∧
    (∀ z rest, k.scanMarked s.toList = ⟨some z, some rest⟩ ↔ k.Spells s.toList z rest ∧ ∃ v, k.value v = z) ∧
    ∀ v, k.readMarked? (decInt (k.value v)) = some (k.value v) := by
  have scanned : ∀ cs z rest, k.scanMarked cs = ⟨some z, some rest⟩ ↔ k.Spells cs z rest ∧ ∃ v, k.value v = z := by
    intro cs z rest
    rw [k.scanMarked_eq_some_iff, k.spells_iff]
  have read : ∀ s z, k.readMarked? s = some z ↔ ∃ rest, k.Spells s.toList z rest ∧ ∃ v, k.value v = z := by
    intro s z
    unfold readMarked?
    rw [k.value_scanMarked_eq_some_iff]
    exact exists_congr fun rest => scanned s.toList z rest
  refine ⟨read s, scanned s.toList, ?_⟩
  intro v
  have printed : (decInt (k.value v)).toList = intDigits 10 (k.value v) := String.toList_ofList
  rw [read, printed]
  exact ⟨[], k.spells_value v, v, rfl⟩

/-- The least number has no counterpart. -/
example : s32.readMarked? "-0x80000000;" = some (-2147483648) ∧ s32.readMarked? "0x80000000" = none := by decide

end IntKind

end ArmToolkit.Text
