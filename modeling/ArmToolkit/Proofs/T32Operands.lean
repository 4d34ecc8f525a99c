import ArmToolkit.Proofs.Numerals
import ArmToolkit.T32.Assembly
import Mathlib.Data.List.Forall2
import Mathlib.Data.List.TakeWhile

/-!
# `Proofs.T32Operands` — how much of a token an operand is

A number ends where its digits end. What stands behind the digits of an immediate, or of a register that is given by its
number, is not looked at; a name has to be all of the token.

## Contents
- **Case.** Where a name has neither capitals nor a NUL, being equal to it in any case is being equal to it when all
  letters are small (`equalNoCase_iff`).
- **Tokens.** `Reads` is what an operand is read from, and what of the token is left. `parseOperand_ok_iff` says that a
  token is an operand exactly if there is such a reading, and readings are unique (`Reads.unique`). Without what is left,
  the token is read as the same operand (`Reads.front`).
- **Instructions.** `Instruction.Parts` is what stands in front of operands. A text that has it is an instruction exactly if
  every token behind it has a reading, and there is an instruction with what was read (`Instruction.parse_ok_iff`).
-/

namespace ArmToolkit.Text

/-! ## Case -/

/-- A small letter is as long as its capital. -/
theorem utf8Size_lower (c : Char) : (lower c).utf8Size = c.utf8Size := by
  have table : ∀ n < 128, (lower (Char.ofNat n)).utf8Size = (Char.ofNat n).utf8Size := by decide
  by_cases ascii : c.toNat < 128
  · have same := table c.toNat ascii
    rwa [Char.ofNat_toNat] at same
  · have other : ¬ ('A' ≤ c ∧ c ≤ 'Z') := fun capital =>
      ascii (Nat.lt_of_le_of_lt (show c.toNat ≤ 'Z'.toNat from capital.2) (by decide))
    unfold lower
    rw [if_neg other]

/-- A text in small letters is as long as the text. -/
theorem utf8ByteSize_map_lower (cs : List Char) :
    (String.ofList (cs.map lower)).utf8ByteSize = (String.ofList cs).utf8ByteSize := by
  induction cs with
  | nil => rfl
  | cons c cs ih =>
    rw [List.map_cons, String.ofList_cons, String.ofList_cons, String.utf8ByteSize_append, String.utf8ByteSize_append,
      String.utf8ByteSize_singleton, String.utf8ByteSize_singleton, utf8Size_lower, ih]

/-- **A name with neither capitals nor a NUL** is met by the texts that are the name when their letters are made small. -/
theorem equalNoCase_iff {s name : String} (small : ∀ c ∈ name.toList, c ≠ nul ∧ lower c = c) :
    equalNoCase s name = true ↔ s.toList.map lower = name.toList := by
  have plain : charsUntilNul name.toList = name.toList :=
    List.takeWhile_eq_self_iff.mpr fun c hc => bne_iff_ne.mpr (small c hc).1
  have same : ∀ c ∈ name.toList, lower c = id c := fun c hc => (small c hc).2
  have named : folded name = name.toList := by
    rw [folded, plain, List.map_congr_left same, List.map_id]
  have length : name.utf8ByteSize = (String.ofList name.toList).utf8ByteSize := by rw [String.ofList_toList]
  unfold equalNoCase
  rw [named, Bool.and_eq_true, beq_iff_eq, beq_iff_eq]
  constructor
  · rintro ⟨long, front⟩
    -- what is in front of the first NUL has all the bytes already
    have cut : s.toList = charsUntilNul s.toList ++ s.toList.dropWhile (· != nul) := List.takeWhile_append_dropWhile.symm
    have bytes : s.utf8ByteSize =
        name.utf8ByteSize + (String.ofList (s.toList.dropWhile (· != nul))).utf8ByteSize := by
      rw [length, ← front, folded, utf8ByteSize_map_lower, ← String.utf8ByteSize_append, ← String.ofList_append, ← cut,
        String.ofList_toList]
    have none : s.toList.dropWhile (· != nul) = [] := by
      have empty : String.ofList (s.toList.dropWhile (· != nul)) = "" := String.utf8ByteSize_eq_zero_iff.mp (by omega)
      have chars := congrArg String.toList empty
      rwa [String.toList_ofList] at chars
    rw [none, List.append_nil] at cut
    rw [cut]
    exact front
  · intro front
    have visible : charsUntilNul s.toList = s.toList := by
      refine List.takeWhile_eq_self_iff.mpr fun c hc => bne_iff_ne.mpr ?_
      rintro rfl
      have inside : lower nul ∈ name.toList := front ▸ List.mem_map_of_mem hc
      exact (small _ inside).1 (by decide)
    refine ⟨?_, ?_⟩
    · rw [length, ← front, utf8ByteSize_map_lower, String.ofList_toList]
    · rw [folded, visible, front]

end ArmToolkit.Text

namespace ArmToolkit.T32

open Text

/-! ## Tokens -/

/-- **What an operand is read from**, and what of the token is left: behind a number sign a number of 32 bits, in decimal or
    in the base of its mark; a name of a register; or the number of a register behind an `r`. A number goes as far as there
    are digits, and only behind a number something is left. -/
inductive Reads : List Char → Operand → List Char → Prop
  | decimal {ds rest : List Char} {v : Nat} (unmarked : ∀ mark ∈ baseMarks, ¬ mark.1 <+: ds ++ rest)
    (number : IsNumber 10 ds v) (stop : ∀ c ∈ rest.head?, digitIn? 10 c = none) (fits : v < twoPow 32) :
    Reads ('#' :: (ds ++ rest)) (.immediate v) rest
  | marked {mark ds rest : List Char} {base v : Nat} (marked : (mark, base) ∈ baseMarks)
    (number : IsNumber base ds v) (stop : ∀ c ∈ rest.head?, digitIn? base c = none) (fits : v < twoPow 32) :
    Reads ('#' :: (mark ++ (ds ++ rest))) (.immediate v) rest
  | named {name : List Char} {code : Nat} (file : code < 16) (same : name.map lower = (registerName code).toList) :
    Reads name (.register code) []
  | numbered {r : Char} {ds rest : List Char} {code : Nat} (letter : lower r = 'r') (number : IsNumber 10 ds code)
    (stop : ∀ c ∈ rest.head?, digitIn? 10 c = none) (file : code < 16)
    (unnamed : ∀ code < 16, (r :: (ds ++ rest)).map lower ≠ (registerName code).toList) :
    Reads (r :: (ds ++ rest)) (.register code) rest

/-- Names of registers are made of small letters and digits. -/
theorem small_registerName {code : Nat} (file : code < 16) :
    ∀ c ∈ (registerName code).toList, c ≠ nul ∧ lower c = c := by
  -- the check goes through the characters of the names, not through those that there are
  have table : ∀ code < 16, ((registerName code).toList.all fun c => c != nul && lower c == c) = true := by decide
  intro c hc
  have small := List.all_eq_true.mp (table code file) c hc
  rwa [Bool.and_eq_true, bne_iff_ne, beq_iff_eq] at small

/-- The name of a register does not begin with a number sign. -/
theorem head_registerName {code : Nat} (file : code < 16) :
    ∃ c cs, (registerName code).toList = c :: cs ∧ c ≠ '#' := by
  have table : ∀ code < 16, (registerName code).toList.head?.any (· != '#') = true := by decide
  have first := table code file
  cases name : (registerName code).toList with
  | nil =>
    rw [name] at first
    cases first
  | cons c cs =>
    rw [name] at first
    exact ⟨c, cs, rfl, bne_iff_ne.mp first⟩

/-- The names of registers differ. -/
theorem registerName_inj {code code' : Nat} (file : code < 16) (file' : code' < 16)
    (same : (registerName code).toList = (registerName code').toList) : code = code' := by
  have table : ∀ code < 16, ∀ code' < 16, (registerName code).toList = (registerName code').toList → code = code' := by
    decide
  exact table code file code' file' same

/-- There is nothing to read in nothing. -/
theorem Reads.ne_nil {op : Operand} {rest : List Char} : ¬ Reads [] op rest := by
  intro h
  cases h with
  | named file same =>
    obtain ⟨c, cs, name, -⟩ := head_registerName file
    rw [name] at same
    cases same

/-- **Behind a number sign** the digits that follow the mark are read. -/
theorem reads_immediate_iff {cs rest : List Char} {op : Operand} :
    Reads ('#' :: cs) op rest ↔ ∃ v < twoPow 32, op = .immediate v ∧
      scanNat (takeBaseMark cs).1 (takeBaseMark cs).2 = some (v, rest) := by
  constructor
  · intro h
    cases h with
    | @decimal ds rest v unmarked number stop fits =>
      have mark : takeBaseMark (ds ++ rest) = (10, ds ++ rest) := takeBaseMark_eq_iff.mpr (.inr ⟨rfl, rfl, unmarked⟩)
      rw [mark]
      exact ⟨v, fits, rfl, scanNat_eq_some_iff.mpr ⟨ds, rfl, number, stop⟩⟩
    | @marked mark ds rest base v marked number stop fits =>
      have mark : takeBaseMark (mark ++ (ds ++ rest)) = (base, ds ++ rest) :=
        takeBaseMark_eq_iff.mpr (.inl ⟨mark, marked, rfl⟩)
      rw [mark]
      exact ⟨v, fits, rfl, scanNat_eq_some_iff.mpr ⟨ds, rfl, number, stop⟩⟩
    -- no name begins with a number sign, and a letter is none
    | named file same =>
      obtain ⟨c, name, first, other⟩ := head_registerName file
      rw [first] at same
      exact absurd (List.cons.inj same).1.symm other
    | numbered letter => exact absurd letter (by decide)
  · rintro ⟨v, fits, rfl, scanned⟩
    rcases taken : takeBaseMark cs with ⟨base, body⟩
    rw [taken] at scanned
    obtain ⟨ds, rfl, number, stop⟩ := scanNat_eq_some_iff.mp scanned
    rcases takeBaseMark_eq_iff.mp taken with ⟨mark, marked, rfl⟩ | ⟨rfl, rfl, unmarked⟩
    · exact .marked marked number stop fits
    · exact .decimal unmarked number stop fits

/-- **Any other token** is a name, or a letter with a number behind it. -/
theorem reads_register_iff {c : Char} (plain : c ≠ '#') {cs rest : List Char} {op : Operand} :
    Reads (c :: cs) op rest ↔ ∃ code < 16, op = .register code ∧
      (((c :: cs).map lower = (registerName code).toList ∧ rest = []) ∨
        ((∀ code < 16, (c :: cs).map lower ≠ (registerName code).toList) ∧ lower c = 'r' ∧
          scanNat 10 cs = some (code, rest))) := by
  constructor
  · intro h
    cases h with
    | decimal | marked => exact absurd rfl plain
    | named file same => exact ⟨_, file, rfl, .inl ⟨same, rfl⟩⟩
    | numbered letter number stop file unnamed =>
      exact ⟨_, file, rfl, .inr ⟨unnamed, letter, scanNat_eq_some_iff.mpr ⟨_, rfl, number, stop⟩⟩⟩
  · rintro ⟨code, file, rfl, ⟨same, rfl⟩ | ⟨unnamed, letter, scanned⟩⟩
    · exact .named file same
    · obtain ⟨ds, rfl, number, stop⟩ := scanNat_eq_some_iff.mp scanned
      exact .numbered letter number stop file unnamed

/-- **Readings are unique**, so that what is left of a token is up to the token. -/
theorem Reads.unique {token rest rest' : List Char} {op op' : Operand} (h : Reads token op rest)
    (h' : Reads token op' rest') : op = op' ∧ rest = rest' := by
  cases token with
  | nil => exact absurd h Reads.ne_nil
  | cons c cs =>
    by_cases number : c = '#'
    · subst number
      obtain ⟨v, -, rfl, scanned⟩ := reads_immediate_iff.mp h
      obtain ⟨v', -, rfl, scanned'⟩ := reads_immediate_iff.mp h'
      rw [scanned] at scanned'
      cases scanned'
      exact ⟨rfl, rfl⟩
    · obtain ⟨code, file, rfl, how⟩ := (reads_register_iff number).mp h
      obtain ⟨code', file', rfl, how'⟩ := (reads_register_iff number).mp h'
      rcases how with ⟨same, rfl⟩ | ⟨unnamed, -, scanned⟩ <;> rcases how' with ⟨same', rfl⟩ | ⟨unnamed', -, scanned'⟩
      · exact ⟨congrArg _ (registerName_inj file file' (same.symm.trans same')), rfl⟩
      · exact absurd same (unnamed' code file)
      · exact absurd same' (unnamed code' file')
      · rw [scanned] at scanned'
        cases scanned'
        exact ⟨rfl, rfl⟩

/-- Decimal digits are no letters. -/
theorem lower_of_digit {c : Char} (digit : (digitIn? 10 c).isSome = true) : lower c = c := by
  refine if_neg fun capital => ?_
  have low : 'A'.toNat ≤ c.toNat := capital.1
  have high : c.toNat ≤ 'Z'.toNat := capital.2
  have noDigit : ¬ ('0' ≤ c ∧ c ≤ '9') := fun h =>
    absurd (Nat.le_trans low (show c.toNat ≤ '9'.toNat from h.2)) (by decide)
  have noSmall : ¬ ('a' ≤ c ∧ c ≤ 'z') := fun h =>
    absurd (Nat.le_trans (show 'a'.toNat ≤ c.toNat from h.1) high) (by decide)
  have large : ¬ c.toNat - 55 < 10 := by
    have first : 'A'.toNat = 65 := rfl
    omega
  unfold digitIn? digitValue? at digit
  rw [if_neg noDigit, if_neg noSmall, if_pos capital] at digit
  dsimp only at digit
  rw [if_neg large] at digit
  cases digit

/-- A name with a number in it is the name of that register. -/
theorem numbered_eq_named {r : Char} {ds : List Char} {code code' : Nat} (letter : lower r = 'r')
    (number : IsNumber 10 ds code) (file : code' < 16) (same : (r :: ds).map lower = (registerName code').toList) :
    code = code' := by
  have table : ∀ code < 16, (registerName code).toList.head? = some 'r' →
      scanNat 10 (registerName code).toList.tail = some (code, []) := by decide
  have digits : ds.map lower = ds := by
    have fixed : ∀ c ∈ ds, lower c = id c := fun c hc => lower_of_digit (number.digits c hc)
    rw [List.map_congr_left fixed, List.map_id]
  rw [List.map_cons, letter, digits] at same
  have named := table code' file (by rw [← same]; rfl)
  rw [← same, List.tail_cons, scanNat_eq_some_iff.mpr ⟨ds, (List.append_nil ds).symm, number, by simp⟩] at named
  exact congrArg Prod.fst (Option.some.inj named)

/-- **What is left is the end of the token**, and without it the same operand is read. -/
theorem Reads.front {token rest : List Char} {op : Operand} (h : Reads token op rest) :
    ∃ front, token = front ++ rest ∧ Reads front op [] := by
  have none : ∀ base, ∀ c ∈ ([] : List Char).head?, digitIn? base c = .none := by simp
  cases h with
  | @decimal ds rest v unmarked number stop fits =>
    refine ⟨'#' :: ds, rfl, ?_⟩
    rw [← List.append_nil ds]
    refine .decimal (fun mark marked front => ?_) number (none 10) fits
    rw [List.append_nil] at front
    exact unmarked mark marked (front.trans (List.prefix_append ds rest))
  | @marked mark ds rest base v marked number stop fits =>
    refine ⟨'#' :: (mark ++ ds), by simp, ?_⟩
    rw [← List.append_nil ds]
    exact .marked marked number (none base) fits
  | named file same => exact ⟨token, (List.append_nil token).symm, .named file same⟩
  | @numbered r ds rest code letter number stop file unnamed =>
    refine ⟨r :: ds, rfl, ?_⟩
    -- the letter and the digits may be a name, where the whole token is none: `r5` of `r5x`
    by_cases named : ∃ code' < 16, (r :: ds).map lower = (registerName code').toList
    · obtain ⟨code', file', same⟩ := named
      obtain rfl := numbered_eq_named letter number file' same
      exact .named file' same
    · rw [← List.append_nil ds] at named ⊢
      exact .numbered letter number (none 10) file fun code' file' same => named ⟨code', file', same⟩

/-- A name in any case is found in the file. -/
theorem find_registerName_eq_some_iff {name : String} {code : Nat} :
    ((List.range 16).find? fun i => equalNoCase name (registerName i)) = some code ↔
      code < 16 ∧ name.toList.map lower = (registerName code).toList := by
  have sound : ∀ code, ((List.range 16).find? fun i => equalNoCase name (registerName i)) = some code →
      code < 16 ∧ name.toList.map lower = (registerName code).toList := by
    intro code found
    have file : code < 16 := List.mem_range.mp (List.mem_of_find?_eq_some found)
    have met := List.find?_some (p := fun i => equalNoCase name (registerName i)) found
    exact ⟨file, (equalNoCase_iff (small_registerName file)).mp met⟩
  refine ⟨sound code, fun ⟨file, same⟩ => ?_⟩
  cases found : (List.range 16).find? fun i => equalNoCase name (registerName i) with
  | none =>
    have other := List.find?_eq_none.mp found code (List.mem_range.mpr file)
    exact absurd ((equalNoCase_iff (small_registerName file)).mpr same) other
  | some code' =>
    obtain ⟨file', same'⟩ := sound code' found
    exact congrArg some (registerName_inj file' file (same'.symm.trans same))

/-- A number behind an `r` is read as far as it goes. -/
theorem numberedRegister?_eq_some_iff {name : String} {r : Char} {cs : List Char} (chars : name.toList = r :: cs)
    {code : Nat} :
    numberedRegister? name = some code ↔ lower r = 'r' ∧ code < 16 ∧ ∃ rest, scanNat 10 cs = some (code, rest) := by
  unfold numberedRegister?
  rw [chars]
  dsimp only
  -- only a number below sixteen is a register, and it is far from the end of its type
  by_cases letter : lower r = 'r'
  · rw [if_pos letter]
    cases scanned : IntKind.u32.scan 10 cs with
    | none =>
      refine ⟨nofun, fun ⟨_, file, rest, read⟩ => ?_⟩
      have fits : code < twoPow 32 := Nat.lt_trans file (by decide)
      rw [IntKind.scan_u32_eq_some_iff.mpr ⟨code, rfl, fits, read⟩] at scanned
      cases scanned
    | some found =>
      obtain ⟨z, rest⟩ := found
      obtain ⟨n, rfl, -, read⟩ := IntKind.scan_u32_eq_some_iff.mp scanned
      dsimp only
      rw [read]
      by_cases file : n < 16
      · rw [if_pos (by omega), Int.toNat_natCast]
        constructor
        · rintro ⟨⟩
          exact ⟨letter, file, rest, rfl⟩
        · rintro ⟨-, -, rest', ⟨⟩⟩
          rfl
      · rw [if_neg (by omega)]
        constructor
        · rintro ⟨⟩
        · rintro ⟨-, file', rest', ⟨⟩⟩
          exact absurd file' file
  · rw [if_neg letter]
    exact ⟨nofun, fun ⟨same, _⟩ => absurd same letter⟩

/-- **The value of an immediate** is that of a reading. -/
theorem value_scanMarked_eq_some_iff {cs : List Char} {z : Int} :
    (IntKind.u32.scanMarked cs).value = some z ↔ ∃ v : Nat, z = v ∧ ∃ rest, Reads ('#' :: cs) (.immediate v) rest := by
  simp only [IntKind.scanMarked_u32, Option.map_eq_some_iff, Prod.exists, IntKind.scan_u32_eq_some_iff,
    reads_immediate_iff]
  constructor
  · rintro ⟨_, rest, ⟨v, rfl, fits, read⟩, rfl⟩
    exact ⟨v, rfl, rest, v, fits, rfl, read⟩
  · rintro ⟨w, rfl, rest, v, fits, same, read⟩
    obtain rfl := Operand.immediate.inj same
    exact ⟨w, rest, ⟨w, rfl, fits, read⟩, rfl⟩

/-- **A register is found** exactly if there is a reading of it. -/
theorem registerOfName?_eq_some_iff {name : String} {c : Char} {cs : List Char} (chars : name.toList = c :: cs)
    (plain : c ≠ '#') {code : Nat} :
    registerOfName? name = some code ↔ ∃ rest, Reads name.toList (.register code) rest := by
  simp only [chars, reads_register_iff plain]
  unfold registerOfName?
  -- names come first, so a numbered reading is one that no name has
  cases found : (List.range 16).find? fun i => equalNoCase name (registerName i) with
  | some code' =>
    obtain ⟨file', same'⟩ := find_registerName_eq_some_iff.mp found
    rw [chars] at same'
    constructor
    · intro same
      obtain rfl := Option.some.inj same
      exact ⟨[], code', file', rfl, .inl ⟨same', rfl⟩⟩
    · rintro ⟨rest, _, file, ⟨⟩, ⟨same, -⟩ | ⟨unnamed, -⟩⟩
      · exact congrArg some (registerName_inj file' file (same'.symm.trans same))
      · exact absurd same' (unnamed code' file')
  | none =>
    have unnamed : ∀ code < 16, (c :: cs).map lower ≠ (registerName code).toList := by
      intro code file same
      rw [find_registerName_eq_some_iff.mpr ⟨file, chars ▸ same⟩] at found
      cases found
    show numberedRegister? name = some code ↔ _
    rw [numberedRegister?_eq_some_iff chars]
    constructor
    · rintro ⟨letter, file, rest, read⟩
      exact ⟨rest, code, file, rfl, .inr ⟨unnamed, letter, read⟩⟩
    · rintro ⟨rest, _, file, ⟨⟩, ⟨same, -⟩ | ⟨-, letter, read⟩⟩
      · exact absurd same (unnamed code file)
      · exact ⟨letter, file, rest, read⟩

/-- **A token is an operand** exactly if it has a reading. -/
theorem parseOperand_ok_iff {token : String} {op : Operand} :
    parseOperand token = .ok op ↔ ∃ rest, Reads token.toList op rest := by
  unfold parseOperand
  -- a token with a number sign is an immediate or nothing, and any other a register or nothing
  split
  · rename_i cs chars
    constructor
    · intro parsed
      split at parsed
      · rename_i z value
        obtain ⟨v, rfl, rest, h⟩ := value_scanMarked_eq_some_iff.mp value
        cases parsed
        exact ⟨rest, chars ▸ h⟩
      · cases parsed
    · rintro ⟨rest, h⟩
      rw [chars] at h
      obtain ⟨v, -, rfl, -⟩ := reads_immediate_iff.mp h
      rw [value_scanMarked_eq_some_iff.mpr ⟨v, rfl, rest, h⟩]
      rfl
  · rename_i plain
    cases chars : token.toList with
    | nil =>
      have none : registerOfName? token = none := by
        obtain rfl := String.toList_eq_nil_iff.mp chars
        decide
      rw [none]
      exact ⟨nofun, fun ⟨rest, h⟩ => absurd h Reads.ne_nil⟩
    | cons c cs =>
      have other : c ≠ '#' := by
        rintro rfl
        exact plain cs chars
      rw [← chars]
      constructor
      · intro parsed
        split at parsed
        · rename_i code found
          cases parsed
          exact (registerOfName?_eq_some_iff chars other).mp found
        · cases parsed
      · rintro ⟨rest, h⟩
        obtain ⟨code, -, rfl, -⟩ := (reads_register_iff other).mp (chars ▸ h)
        rw [(registerOfName?_eq_some_iff chars other).mpr ⟨rest, h⟩]

/-- **Tokens are operands** exactly if each has a reading. -/
theorem mapM_parseOperand_ok_iff {tokens : List String} {ops : List Operand} :
    tokens.mapM parseOperand = .ok ops ↔
      List.Forall₂ (fun token op => ∃ rest, Reads token.toList op rest) tokens ops := by
  induction tokens generalizing ops with
  | nil =>
    rw [List.mapM_nil, List.forall₂_nil_left_iff]
    exact ⟨fun same => (Except.ok.inj same).symm, fun same => same ▸ rfl⟩
  | cons token tokens ih =>
    rw [List.mapM_cons, List.forall₂_cons_left_iff]
    constructor
    · intro parsed
      cases first : parseOperand token with
      | error e =>
        rw [first] at parsed
        cases parsed
      | ok op =>
        cases rest : tokens.mapM parseOperand with
        | error e =>
          rw [first, rest] at parsed
          cases parsed
        | ok ops' =>
          rw [first, rest] at parsed
          exact ⟨op, ops', parseOperand_ok_iff.mp first, ih.mp rest, (Except.ok.inj parsed).symm⟩
    · rintro ⟨op, ops', first, rest, rfl⟩
      rw [parseOperand_ok_iff.mpr first, ih.mpr rest]
      rfl

/-- Tokens that are operands have readings. -/
theorem exists_reads {tokens : List String} {ops : List Operand}
    (h : List.Forall₂ (fun token op => ∃ rest, Reads token.toList op rest) tokens ops) :
    ∀ token ∈ tokens, ∃ op rest, Reads token.toList op rest := by
  induction h with
  | nil => nofun
  | @cons token op tokens ops first _ ih =>
    intro token' ht
    rcases List.mem_cons.mp ht with rfl | later
    · exact ⟨op, first⟩
    · exact ih token' later

/-! ## Instructions -/

/-- **What stands in front of operands**: the text has tokens behind its mnemonic and its condition, and the IT that the
    condition needs. Commas count as blanks. -/
def Instruction.Parts (text : String) (m : Mnemonic) (cond : Condition) (tokens : List String) : Prop :=
  ∃ block body name rest, takeBlock (stripChars text.toList) = .ok (block, body) ∧
    split ' ' true (String.ofList (body.map fun c => if c = ',' then ' ' else c)) = name :: rest ∧
    Mnemonic.ofName? name = some m ∧ takeCondition rest = (cond, tokens) ∧ checkBlock block cond = .ok ()

namespace Instruction

/-- An instruction has the operands that it is made of. -/
theorem ops_of_make {m : Mnemonic} {ops : List Operand} {cond : Condition} {inst : Instruction}
    (made : make m ops cond = .ok inst) : inst.ops = ops := by
  unfold make at made
  split at made
  · cases made
  · split at made
    · cases made
      rfl
    · split at made <;> cases made

/-- **A text is an instruction** exactly if its parts are in order, every token behind them has a reading, and there is an
    instruction with what was read. -/
theorem parse_ok_iff {text : String} {inst : Instruction} :
    parse text = .ok inst ↔ ∃ m cond tokens, Parts text m cond tokens ∧
      List.Forall₂ (fun token op => ∃ rest, Reads token.toList op rest) tokens inst.ops ∧
      make m inst.ops cond = .ok inst := by
  constructor
  · intro parsed
    unfold parse at parsed
    cases taken : takeBlock (stripChars text.toList) with
    | error e =>
      rw [taken] at parsed
      cases parsed
    | ok front =>
      obtain ⟨block, body⟩ := front
      -- the steps of reading one after the other; all but the last case of each are errors
      simp only [taken, bind, Except.bind] at parsed
      split at parsed
      · cases parsed
      · rename_i name rest cut
        split at parsed
        · cases parsed
        · rename_i m named
          rcases condition : takeCondition rest with ⟨cond, tokens⟩
          simp only [condition] at parsed
          cases checked : checkBlock block cond with
          | error e => simp only [checked, reduceCtorEq] at parsed
          | ok _ =>
            simp only [checked] at parsed
            cases read : tokens.mapM parseOperand with
            | error e => simp only [read, reduceCtorEq] at parsed
            | ok ops =>
              simp only [read] at parsed
              split at parsed
              · rename_i made
                cases parsed
                obtain rfl := ops_of_make made
                exact ⟨m, cond, tokens, ⟨block, body, name, rest, taken, cut, named, condition, checked⟩,
                  mapM_parseOperand_ok_iff.mp read, made⟩
              · cases parsed
  · rintro ⟨m, cond, tokens, ⟨block, body, name, rest, taken, cut, named, condition, checked⟩, reads, made⟩
    unfold parse
    simp only [taken, cut, named, condition, checked, mapM_parseOperand_ok_iff.mpr reads, made, bind, Except.bind]

/-- The parts of a text are up to the text. -/
theorem Parts.unique {text : String} {m m' : Mnemonic} {cond cond' : Condition} {tokens tokens' : List String}
    (h : Parts text m cond tokens) (h' : Parts text m' cond' tokens') : m = m' ∧ cond = cond' ∧ tokens = tokens' := by
  obtain ⟨block, body, name, rest, taken, cut, named, condition, -⟩ := h
  obtain ⟨block', body', name', rest', taken', cut', named', condition', -⟩ := h'
  rw [taken] at taken'
  cases taken'
  rw [cut] at cut'
  cases cut'
  rw [named] at named'
  cases named'
  rw [condition] at condition'
  cases condition'
  exact ⟨rfl, rfl, rfl⟩

/-- **An instruction is read token by token, and the tokens need not be read to their ends.** A text is accepted exactly if
    each of its tokens has a reading, and there is an instruction with what was read; a token that has none is refused. What
    is left of a token is its end, and without it the same operand is read. So the tokens of a text that is accepted are
    operands with nothing behind them exactly if nothing is left of any of them. -/
theorem parse_reads (text : String) :
    (∀ inst, parse text = .ok inst ↔ ∃ m cond tokens, Parts text m cond tokens ∧
      List.Forall₂ (fun token op => ∃ rest, Reads token.toList op rest) tokens inst.ops ∧
      make m inst.ops cond = .ok inst) ∧
    ∀ m cond tokens, Parts text m cond tokens →
      (∀ token ∈ tokens, (∀ op rest, ¬ Reads token.toList op rest) → ∃ e, parse text = .error e) ∧
      (∀ token ∈ tokens, ∀ op rest, Reads token.toList op rest →
        ∃ front, token.toList = front ++ rest ∧ Reads front op []) ∧
      ∀ inst, parse text = .ok inst → ((∀ token ∈ tokens, ∃ op, Reads token.toList op []) ↔
        ∀ token ∈ tokens, ∀ op rest, Reads token.toList op rest → rest = []) := by
  -- every token of a text that is accepted has a reading
  have readable : ∀ m cond tokens, Parts text m cond tokens → ∀ inst, parse text = .ok inst →
      ∀ token ∈ tokens, ∃ op rest, Reads token.toList op rest := by
    intro m cond tokens parts inst parsed
    obtain ⟨m', cond', tokens', parts', reads, -⟩ := parse_ok_iff.mp parsed
    obtain ⟨-, -, rfl⟩ := parts.unique parts'
    exact exists_reads reads
  refine ⟨fun inst => parse_ok_iff, fun m cond tokens parts => ⟨?_, fun token _ op rest h => h.front, ?_⟩⟩
  · intro token ht none
    cases parsed : parse text with
    | error e => exact ⟨e, rfl⟩
    | ok inst =>
      obtain ⟨op, rest, h⟩ := readable m cond tokens parts inst parsed token ht
      exact absurd h (none op rest)
  · intro inst parsed
    constructor
    · intro whole token ht op rest h
      obtain ⟨op', h'⟩ := whole token ht
      exact (h.unique h').2
    · intro nothing token ht
      obtain ⟨op, rest, h⟩ := readable m cond tokens parts inst parsed token ht
      obtain rfl := nothing token ht op rest h
      exact ⟨op, h⟩

/-- A letter is left behind the digits of an immediate, and behind those of a register. -/
theorem reads_left : Reads ['#', '3', 'x'] (.immediate 3) ['x'] ∧ Reads ['r', '1', 'x'] (.register 1) ['x'] := by
  refine ⟨reads_immediate_iff.mpr ⟨3, by decide, rfl, rfl⟩, (reads_register_iff (by decide)).mpr ⟨1, by decide, rfl, ?_⟩⟩
  exact .inr ⟨by decide, rfl, rfl⟩

/-- A register without a number is refused; an immediate is read with the letter behind it left, and without the letter. -/
theorem parse_reads_refused :
    (Parts "Add r0 rx" .add .al ["r0", "rx"] ∧ (∀ op rest, ¬ Reads "rx".toList op rest) ∧
      ∃ e, parse "Add r0 rx" = .error e) ∧
    (Parts "Add r0 r1 #3x" .add .al ["r0", "r1", "#3x"] ∧ Reads "#3x".toList (.immediate 3) ['x'] ∧
      ∃ front, "#3x".toList = front ++ ['x'] ∧ Reads front (.immediate 3) []) := by
  have refused : Parts "Add r0 rx" .add .al ["r0", "rx"] := ⟨_, _, _, _, rfl, rfl, rfl, rfl, rfl⟩
  have accepted : Parts "Add r0 r1 #3x" .add .al ["r0", "r1", "#3x"] := ⟨_, _, _, _, rfl, rfl, rfl, rfl, rfl⟩
  have none : ∀ op rest, ¬ Reads "rx".toList op rest := by
    intro op rest h
    obtain ⟨code, file, -, ⟨same, -⟩ | ⟨-, -, read⟩⟩ :=
      (reads_register_iff (by decide)).mp (show Reads ['r', 'x'] op rest from h)
    · exact absurd same ((by decide : ∀ code < 16, ['r', 'x'].map lower ≠ (registerName code).toList) code file)
    · cases read
  exact ⟨⟨refused, none, ((parse_reads _).2 _ _ _ refused).1 "rx" (by decide) none⟩, accepted, reads_left.1,
    ((parse_reads _).2 _ _ _ accepted).2.1 "#3x" (by decide) _ _ reads_left.1⟩

/-- **Tokens that go on behind their numbers are accepted**: an immediate, and a register. Neither is a number, or a
    register, with nothing behind it. -/
theorem parse_unread_ends :
    (parse "Add r0 r1 #3x" = .ok ⟨some (.addSubImmediate .add), .al, [.register 0, .register 1, .immediate 3]⟩ ∧
      Parts "Add r0 r1 #3x" .add .al ["r0", "r1", "#3x"] ∧ ∀ op, ¬ Reads "#3x".toList op []) ∧
    (parse "Add r0 r1x #3" = .ok ⟨some (.addSubImmediate .add), .al, [.register 0, .register 1, .immediate 3]⟩ ∧
      Parts "Add r0 r1x #3" .add .al ["r0", "r1x", "#3"] ∧ ∀ op, ¬ Reads "r1x".toList op []) := by
  refine ⟨⟨by decide, ⟨_, _, _, _, rfl, rfl, rfl, rfl, rfl⟩, fun op h => ?_⟩,
    ⟨by decide, ⟨_, _, _, _, rfl, rfl, rfl, rfl, rfl⟩, fun op h => ?_⟩⟩
  · cases (h.unique reads_left.1).2
  · cases (h.unique reads_left.2).2

end Instruction

end ArmToolkit.T32
