import ArmToolkit.Text.Numeral

/-!
# `Proofs.Numerals` — numbers that are written are read back

## Contents
- **Digits.** The character of a digit has its value (`digitIn?_digitChar`), and digits denote the number that they were
  taken from (`takeDigits_digits`).
- **Numbers.** What `digits` writes, `scanNat` reads, up to the first character that is no digit
  (`scanNat_digits_append`). A decimal number begins with neither a sign nor a base mark, so reading a number that may
  have one gives it too (`scanMarked_digits`).
- **Numbers in front of other characters.** A number is read exactly where digits stand in front, and it goes as far as
  there are digits (`scanNat_eq_some_iff`, `takeBaseMark_eq_iff`).
-/

namespace ArmToolkit.Text

/-! ## Digits -/

/-- **The character of a digit has its value.** -/
theorem digitIn?_digitChar {base d : Nat} (small : base ≤ 36) (h : d < base) : digitIn? base (digitChar d) = some d := by
  have table : ∀ d < 36, digitValue? (digitChar d) = some d := by decide
  unfold digitIn?
  rw [table d (by omega)]
  exact if_pos h

/-- The character of a decimal digit, by its place among the characters. -/
theorem toNat_digitChar {d : Nat} (h : d < 10) : (digitChar d).toNat = 48 + d := by
  have table : ∀ d < 10, (digitChar d).toNat = 48 + d := by decide
  exact table d h

/-- The digits of a number are characters of digits. -/
theorem mem_digits {base n : Nat} (h : 2 ≤ base) {c : Char} (hc : c ∈ digits base n) : ∃ d < base, c = digitChar d := by
  induction n using Nat.strongRecOn with
  | ind n ih =>
    unfold digits at hc
    split at hc
    · rename_i last
      exact ⟨n, by omega, List.mem_singleton.mp hc⟩
    · rename_i more
      rcases List.mem_append.mp hc with front | last
      · exact ih (n / base) (Nat.div_lt_self (by omega) (by omega)) front
      · exact ⟨n % base, Nat.mod_lt n (by omega), List.mem_singleton.mp last⟩

/-- The digits of a number are digits of its base. -/
theorem digitIn?_of_mem {base n : Nat} (low : 2 ≤ base) (small : base ≤ 36) {c : Char} (hc : c ∈ digits base n) :
    (digitIn? base c).isSome = true := by
  obtain ⟨d, hd, rfl⟩ := mem_digits low hc
  rw [digitIn?_digitChar small hd]
  rfl

/-- A number has digits. -/
theorem digits_ne_nil (base n : Nat) : digits base n ≠ [] := by
  unfold digits
  split <;> simp

/-- Digit values with one more behind them. -/
theorem ofDigits_append (base : Nat) (ds : List Nat) (d : Nat) : ofDigits base (ds ++ [d]) = ofDigits base ds * base + d := by
  unfold ofDigits
  rw [List.foldl_append]
  rfl

/-- A run of characters of digits, and what follows it. -/
theorem takeDigits_append {base : Nat} {cs rest : List Char} (h : ∀ c ∈ cs, (digitIn? base c).isSome = true) :
    takeDigits base (cs ++ rest) =
      ((takeDigits base cs).1 ++ (takeDigits base rest).1, (takeDigits base rest).2) := by
  induction cs with
  | nil => rfl
  | cons c cs ih =>
    obtain ⟨d, value⟩ := Option.isSome_iff_exists.mp (h c List.mem_cons_self)
    have later := ih fun c hc => h c (List.mem_cons_of_mem _ hc)
    simp only [List.cons_append, takeDigits, value, later]

/-- Digits are taken up to the first character that is none. -/
theorem takeDigits_of_head {base : Nat} {rest : List Char} (stop : ∀ c ∈ rest.head?, digitIn? base c = none) :
    takeDigits base rest = ([], rest) := by
  cases rest with
  | nil => rfl
  | cons c cs => simp only [takeDigits, stop c rfl]

/-- **The digits of a number denote it.** -/
theorem takeDigits_digits {base : Nat} (low : 2 ≤ base) (small : base ≤ 36) (n : Nat) :
    ofDigits base (takeDigits base (digits base n)).1 = n := by
  induction n using Nat.strongRecOn with
  | ind n ih =>
    have one : ∀ d < base, takeDigits base [digitChar d] = ([d], []) := by
      intro d hd
      simp only [takeDigits, digitIn?_digitChar small hd]
    unfold digits
    split
    · rename_i last
      rw [one n (by omega)]
      simp [ofDigits]
    · rename_i more
      have value := ih (n / base) (Nat.div_lt_self (by omega) (by omega))
      rw [takeDigits_append fun c hc => digitIn?_of_mem low small hc, one _ (Nat.mod_lt n (by omega)), ofDigits_append, value]
      exact Nat.div_add_mod' n base

/-! ## Numbers -/

/-- **A number that is written is read back**, where no digit follows it. -/
theorem scanNat_digits_append {base : Nat} (low : 2 ≤ base) (small : base ≤ 36) (n : Nat) (rest : List Char)
    (stop : ∀ c ∈ rest.head?, digitIn? base c = none) : scanNat base (digits base n ++ rest) = some (n, rest) := by
  have value := takeDigits_digits low small n
  unfold scanNat
  rw [takeDigits_append fun c hc => digitIn?_of_mem low small hc, takeDigits_of_head stop, List.append_nil]
  cases taken : (takeDigits base (digits base n)).1 with
  | nil =>
    -- the first character is a digit
    cases written : digits base n with
    | nil => exact absurd written (digits_ne_nil base n)
    | cons c cs =>
      obtain ⟨d, hd⟩ := Option.isSome_iff_exists.mp (digitIn?_of_mem low small (written ▸ List.mem_cons_self))
      rw [written] at taken
      simp [takeDigits, hd] at taken
  | cons d ds =>
    rw [taken] at value
    simp only [value]

/-- `scanNat_digits_append` where nothing follows. -/
theorem scanNat_digits {base : Nat} (low : 2 ≤ base) (small : base ≤ 36) (n : Nat) :
    scanNat base (digits base n) = some (n, []) := by
  simpa using scanNat_digits_append low small n [] (by simp)

/-- The characters of a decimal number are none of those that mark a sign or a base. -/
theorem digits_unmarked {n : Nat} {c : Char} (hc : c ∈ digits 10 n) : 48 ≤ c.toNat ∧ c.toNat ≤ 57 := by
  obtain ⟨d, hd, rfl⟩ := mem_digits (by decide) hc
  rw [toNat_digitChar hd]
  omega

/-- A decimal number has no sign in front. -/
theorem takeSign_digits (k : IntKind) (n : Nat) : k.takeSign (digits 10 n) = (false, digits 10 n) := by
  unfold IntKind.takeSign
  split
  · rename_i cs written
    have := digits_unmarked (n := n) (c := '-') (by simp [written])
    exact absurd this (by decide)
  · rfl

/-- A decimal number has no base mark in front. -/
theorem takeBaseMark_digits (n : Nat) : takeBaseMark (digits 10 n) = (10, digits 10 n) := by
  have plain : ∀ c ∈ ['x', 'X', 'b', 'B'], c ∉ digits 10 n := by
    intro c marks hc
    have := digits_unmarked hc
    simp only [List.mem_cons, List.not_mem_nil, or_false] at marks
    rcases marks with rfl | rfl | rfl | rfl <;> exact absurd this (by decide)
  unfold takeBaseMark
  split
  all_goals first
    | rfl
    | (rename_i written
       exact absurd (written ▸ List.mem_cons_of_mem _ List.mem_cons_self) (plain _ (by simp)))

/-- An unsigned type has no sign. -/
theorem IntKind.takeSign_unsigned (k : IntKind) (cs : List Char) : k.unsigned.takeSign cs = (false, cs) := by
  unfold takeSign
  split <;> rfl

/-- The numbers of an unsigned type. -/
theorem IntKind.holds_unsigned (k : IntKind) (n : Nat) : k.unsigned.holds n = true ↔ n < twoPow k.bits := by
  unfold holds
  rw [decide_eq_true_eq]
  show (0 : Int) ≤ n ∧ (n : Int) ≤ (twoPow k.bits : Int) - 1 ↔ _
  omega

/-- **A number that is written in decimal is read back** where a sign or a base mark could be, if the type holds it. -/
theorem scanMarked_digits {k : IntKind} {n : Nat} (fits : k.holds n = true) (wide : n < twoPow k.bits) :
    k.scanMarked (digits 10 n) = ⟨some n, some []⟩ := by
  have unsigned : k.unsigned.scan 10 (digits 10 n) = some ((n : Int), []) := by
    unfold IntKind.scan
    simp only [takeSign_digits, @scanNat_digits 10 (by decide) (by decide)]
    exact if_pos ((k.holds_unsigned n).mpr wide)
  unfold IntKind.scanMarked
  simp only [takeSign_digits, takeBaseMark_digits, unsigned]
  simp [fits]

/-! ## Numbers in front of other characters -/

/-- **A number as it is written**: digits of a base, at least one, and the number that they denote. -/
structure IsNumber (base : Nat) (ds : List Char) (n : Nat) : Prop where
  nonempty : ds ≠ []
  digits : ∀ c ∈ ds, (digitIn? base c).isSome = true
  value : n = ofDigits base (ds.filterMap (digitIn? base))

/-- All digits are taken. -/
theorem takeDigits_of_digits {base : Nat} {ds : List Char} (h : ∀ c ∈ ds, (digitIn? base c).isSome = true) :
    takeDigits base ds = (ds.filterMap (digitIn? base), []) := by
  induction ds with
  | nil => rfl
  | cons c ds ih =>
    obtain ⟨d, value⟩ := Option.isSome_iff_exists.mp (h c List.mem_cons_self)
    rw [List.filterMap_cons_some value]
    simp only [takeDigits, value, ih fun c hc => h c (List.mem_cons_of_mem _ hc)]

/-- **What is taken are digits**, up to the first character that is none. -/
theorem exists_takeDigits (base : Nat) (cs : List Char) :
    ∃ ds, cs = ds ++ (takeDigits base cs).2 ∧ (∀ c ∈ ds, (digitIn? base c).isSome = true) ∧
      (takeDigits base cs).1 = ds.filterMap (digitIn? base) ∧ ∀ c ∈ (takeDigits base cs).2.head?, digitIn? base c = none := by
  induction cs with
  | nil => exact ⟨[], rfl, by simp, rfl, by simp [takeDigits]⟩
  | cons c cs ih =>
    obtain ⟨ds, cut, digits, values, stop⟩ := ih
    cases value : digitIn? base c with
    | none =>
      refine ⟨[], ?_, by simp, ?_, ?_⟩ <;> simp [takeDigits, value]
    | some d =>
      simp only [takeDigits, value]
      refine ⟨c :: ds, congrArg (c :: ·) cut, ?_, ?_, stop⟩
      · intro c' hc
        rcases List.mem_cons.mp hc with rfl | later
        · rw [value]
          rfl
        · exact digits c' later
      · rw [List.filterMap_cons_some value, values]

/-- **A number is read where digits stand in front**, and all of them are read. -/
theorem scanNat_eq_some_iff {base n : Nat} {cs rest : List Char} :
    scanNat base cs = some (n, rest) ↔
      ∃ ds, cs = ds ++ rest ∧ IsNumber base ds n ∧ ∀ c ∈ rest.head?, digitIn? base c = none := by
  constructor
  · intro scanned
    obtain ⟨ds, cut, digits, values, stop⟩ := exists_takeDigits base cs
    unfold scanNat at scanned
    -- nothing is read where no digit stands in front
    split at scanned
    · cases scanned
    · rename_i vs rest' some taken
      cases scanned
      rw [taken] at cut values stop
      refine ⟨ds, cut, ⟨?_, digits, congrArg (ofDigits base) values⟩, stop⟩
      rintro rfl
      exact some values
  · rintro ⟨ds, rfl, number, stop⟩
    have taken : takeDigits base (ds ++ rest) = (ds.filterMap (digitIn? base), rest) := by
      rw [takeDigits_append number.digits, takeDigits_of_digits number.digits, takeDigits_of_head stop, List.append_nil]
    unfold scanNat
    rw [taken]
    split
    · rename_i none
      cases ds with
      | nil => exact absurd rfl number.nonempty
      | cons c ds =>
        obtain ⟨d, value⟩ := Option.isSome_iff_exists.mp (number.digits c List.mem_cons_self)
        have first := congrArg Prod.fst none
        rw [List.filterMap_cons_some value] at first
        cases first
    · rename_i taken'
      cases taken'
      rw [← number.value]

/-- The marks of bases. -/
def baseMarks : List (List Char × Nat) := [(['0', 'x'], 16), (['0', 'X'], 16), (['0', 'b'], 2), (['0', 'B'], 2)]

/-- **A mark that is there is taken**; without one a number is decimal. -/
theorem takeBaseMark_eq_iff {base : Nat} {cs rest : List Char} :
    takeBaseMark cs = (base, rest) ↔
      (∃ mark, (mark, base) ∈ baseMarks ∧ cs = mark ++ rest) ∨
        (base = 10 ∧ cs = rest ∧ ∀ mark ∈ baseMarks, ¬ mark.1 <+: cs) := by
  -- both sides go through the four marks in their order
  constructor
  · intro taken
    unfold takeBaseMark at taken
    split at taken
    · cases taken
      exact .inl ⟨['0', 'x'], by simp [baseMarks], rfl⟩
    · cases taken
      exact .inl ⟨['0', 'X'], by simp [baseMarks], rfl⟩
    · cases taken
      exact .inl ⟨['0', 'b'], by simp [baseMarks], rfl⟩
    · cases taken
      exact .inl ⟨['0', 'B'], by simp [baseMarks], rfl⟩
    · rename_i x X b B
      cases taken
      refine .inr ⟨rfl, rfl, ?_⟩
      rintro mark marked ⟨rest, rfl⟩
      simp only [baseMarks, List.mem_cons, List.not_mem_nil, or_false] at marked
      rcases marked with rfl | rfl | rfl | rfl
      · exact x _ rfl
      · exact X _ rfl
      · exact b _ rfl
      · exact B _ rfl
  · rintro (⟨mark, marked, rfl⟩ | ⟨rfl, rfl, unmarked⟩)
    · simp only [baseMarks, List.mem_cons, Prod.mk.injEq, List.not_mem_nil, or_false] at marked
      rcases marked with ⟨rfl, rfl⟩ | ⟨rfl, rfl⟩ | ⟨rfl, rfl⟩ | ⟨rfl, rfl⟩ <;> rfl
    · unfold takeBaseMark
      split
      · exact absurd ⟨_, rfl⟩ (unmarked (['0', 'x'], 16) (by simp [baseMarks]))
      · exact absurd ⟨_, rfl⟩ (unmarked (['0', 'X'], 16) (by simp [baseMarks]))
      · exact absurd ⟨_, rfl⟩ (unmarked (['0', 'b'], 2) (by simp [baseMarks]))
      · exact absurd ⟨_, rfl⟩ (unmarked (['0', 'B'], 2) (by simp [baseMarks]))
      · rfl

namespace IntKind

/-- **An unsigned number** is read if it fits. -/
theorem scan_unsigned_eq_some_iff (k : IntKind) {base : Nat} {cs rest : List Char} {z : Int} :
    k.unsigned.scan base cs = some (z, rest) ↔
      ∃ n : Nat, z = n ∧ n < twoPow k.bits ∧ scanNat base cs = some (n, rest) := by
  unfold scan
  rw [takeSign_unsigned]
  dsimp only
  cases scanned : scanNat base cs with
  | none => simp
  | some found =>
    obtain ⟨n, rest'⟩ := found
    dsimp only
    rw [if_neg Bool.false_ne_true]
    -- a number that does not fit is no number of the type, so nothing is read
    by_cases small : n < twoPow k.bits
    · rw [if_pos ((holds_unsigned k n).mpr small)]
      constructor
      · intro same
        cases same
        exact ⟨n, rfl, small, rfl⟩
      · rintro ⟨m, rfl, -, same⟩
        cases same
        rfl
    · rw [if_neg (mt (holds_unsigned k n).mp small)]
      constructor
      · intro none
        cases none
      · rintro ⟨m, -, fits, same⟩
        cases same
        exact absurd fits small

/-- The numbers of 32 bits. -/
theorem holds_u32 (n : Nat) : u32.holds n = true ↔ n < twoPow 32 := holds_unsigned u32 n

/-- **An unsigned number of 32 bits** is read if it fits. -/
theorem scan_u32_eq_some_iff {base : Nat} {cs rest : List Char} {z : Int} :
    u32.scan base cs = some (z, rest) ↔ ∃ n : Nat, z = n ∧ n < twoPow 32 ∧ scanNat base cs = some (n, rest) :=
  scan_unsigned_eq_some_iff u32

/-- **A marked unsigned number** is the number behind the mark. -/
theorem scanMarked_u32 (cs : List Char) :
    (u32.scanMarked cs).value = (u32.scan (takeBaseMark cs).1 (takeBaseMark cs).2).map Prod.fst := by
  have same : u32.unsigned = u32 := rfl
  have unsigned : u32.takeSign cs = (false, cs) := takeSign_unsigned u32 cs
  unfold scanMarked
  rw [unsigned, same]
  dsimp only
  cases scanned : u32.scan (takeBaseMark cs).1 (takeBaseMark cs).2 with
  | none => rfl
  | some found =>
    obtain ⟨z, rest⟩ := found
    obtain ⟨n, rfl, fits, -⟩ := scan_u32_eq_some_iff.mp scanned
    dsimp only
    rw [if_neg Bool.false_ne_true, if_pos ((holds_u32 n).mpr fits)]
    rfl

end IntKind

end ArmToolkit.Text
