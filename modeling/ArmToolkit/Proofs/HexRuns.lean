import ArmToolkit.Proofs.HexWords
import Mathlib.Data.List.Forall2

/-!
# `Proofs.HexRuns` — which texts are byte lists

## Contents
- **Digits.** `IsHexDigit c v`: the character is the hexadecimal digit of a value, in either case. These are the characters
  that are read as digits (`digitIn?_eq_some_iff`).
- **Runs.** `IsRun cs run`: visible characters with nothing visible next to them. `Runs cs runs` cuts a text into all its
  runs, in order; every text is cut so (`exists_runs`), into its words (`Runs.eq_words`), and these are all runs that it has
  (`Runs.mem_iff`).
- **Bytes.** `Denotes run b`: the run is the two digits of a byte. A text is read exactly if all its runs are bytes, and then
  as these bytes (`Runs.decodes`, `decodeBytes_runs`).
-/

namespace ArmToolkit.Text

/-! ## Digits -/

/-- **The hexadecimal digit of a value**, in lower case or in upper case. -/
def IsHexDigit (c : Char) (v : Nat) : Prop :=
  "0123456789abcdef".toList[v]? = some c ∨ "0123456789ABCDEF".toList[v]? = some c

/-- No digit is beyond the letters. -/
theorem digitValue?_of_large {c : Char} (large : 128 ≤ c.toNat) : digitValue? c = none := by
  have beyond : ∀ f : Char, f.toNat < 128 → ¬ c ≤ f := fun f low le => by
    have := Nat.le_trans large (show c.toNat ≤ f.toNat from le)
    omega
  unfold digitValue?
  rw [if_neg fun h => beyond '9' (by decide) h.2, if_neg fun h => beyond 'z' (by decide) h.2,
    if_neg fun h => beyond 'Z' (by decide) h.2]

/-- **What is read as a digit** is the digit of its value. -/
theorem digitIn?_eq_some_iff {c : Char} {v : Nat} : digitIn? 16 c = some v ↔ IsHexDigit c v := by
  constructor
  · intro read
    have table : ∀ n < 128, ∀ v ∈ digitIn? 16 (Char.ofNat n), "0123456789abcdef".toList[v]? = some (Char.ofNat n) ∨
        "0123456789ABCDEF".toList[v]? = some (Char.ofNat n) := by decide
    have small : c.toNat < 128 := by
      refine Nat.lt_of_not_le fun large => ?_
      rw [digitIn?, digitValue?_of_large large] at read
      cases read
    have here := table c.toNat small v
    rw [Char.ofNat_toNat] at here
    exact here read
  · have lower : ∀ d ∈ "0123456789abcdef".toList.zipIdx, digitIn? 16 d.1 = some d.2 := by decide
    have upper : ∀ d ∈ "0123456789ABCDEF".toList.zipIdx, digitIn? 16 d.1 = some d.2 := by decide
    rintro (digit | digit)
    · exact lower (c, v) (List.mem_zipIdx_iff_getElem?.mpr digit)
    · exact upper (c, v) (List.mem_zipIdx_iff_getElem?.mpr digit)

/-! ## Runs -/

/-- **A run of a text**: visible characters, with blanks or the ends of the text around them. -/
def IsRun (cs run : List Char) : Prop :=
  ∃ front back, cs = front ++ run ++ back ∧ IsWord run ∧ (∀ c ∈ front.getLast?, isBlank c = true) ∧
    ∀ c ∈ back.head?, isBlank c = true

/-- **A text cut into its runs**: blanks, a run up to the next blank or to the end, and so on. -/
inductive Runs : List Char → List (List Char) → Prop
  | blanks {as : List Char} (gap : AllBlank as) : Runs as []
  | next {as w rest : List Char} {ws : List (List Char)} (gap : AllBlank as) (word : IsWord w)
      (stop : ∀ c ∈ rest.head?, isBlank c = true) (later : Runs rest ws) : Runs (as ++ w ++ rest) (w :: ws)

/-- **Every text is cut into runs.** -/
theorem exists_runs (cs : List Char) : ∃ runs, Runs cs runs := by
  -- what is behind the first run is shorter
  induction len : cs.length using Nat.strongRecOn generalizing cs with
  | ind n ih =>
    obtain ⟨as, gap, whole⟩ := exists_stripFront cs
    cases visible : stripFront cs with
    | nil =>
      rw [visible, List.append_nil] at whole
      exact ⟨[], whole ▸ .blanks gap⟩
    | cons c ds =>
      have first := visible_stripFront visible
      have cut : cs = as ++ (c :: ds.takeWhile fun d => !isBlank d) ++ ds.dropWhile fun d => !isBlank d := by
        rw [List.append_assoc, List.cons_append, List.takeWhile_append_dropWhile, ← visible]
        exact whole
      have shorter : (ds.dropWhile fun d => !isBlank d).length < n := by
        rw [← len, cut]
        simp only [List.length_append, List.length_cons]
        omega
      obtain ⟨runs, later⟩ := ih _ shorter _ rfl
      rw [cut]
      exact ⟨_, .next gap (isWord_takeWhile first ds) (blank_of_dropWhile ds) later⟩

section

variable {cs : List Char} {runs : List (List Char)}

/-- **The runs of a text are its words.** -/
theorem Runs.eq_words (h : Runs cs runs) : runs = words cs := by
  induction h with
  | blanks gap => exact (words_blanks gap).symm
  | next gap word stop later ih =>
    rw [List.append_assoc, words_blanks_append gap, words_append_of_head word stop, ← ih]

/-- A run is a word of the text. -/
theorem IsRun.mem_words {run : List Char} (h : IsRun cs run) : run ∈ words cs := by
  obtain ⟨front, back, rfl, word, before, behind⟩ := h
  have here : run ∈ words (run ++ back) := by
    rw [words_append_of_head word behind]
    exact List.mem_cons_self
  rcases List.eq_nil_or_concat front with rfl | ⟨front, c, rfl⟩
  · exact here
  · have blank : isBlank c = true := before c (by simp)
    rw [List.concat_eq_append, List.append_assoc, List.append_assoc, List.singleton_append, words_append blank]
    exact List.mem_append_right _ here

/-- **The runs that a text is cut into** are those that it has. -/
theorem Runs.mem_iff (h : Runs cs runs) {run : List Char} : run ∈ runs ↔ IsRun cs run := by
  constructor
  · induction h with
    | blanks => simp
    | @next as w rest ws gap word stop later ih =>
      intro mem
      rcases List.mem_cons.mp mem with rfl | mem
      · exact ⟨as, rest, rfl, word, fun c hc => gap c (List.mem_of_mem_getLast? hc), stop⟩
      · obtain ⟨front, back, cut, word', before, behind⟩ := ih mem
        refine ⟨as ++ w ++ front, back, by simp [cut], word', fun c hc => ?_, behind⟩
        -- a run of the rest is not at its very front, where there is a blank
        cases front with
        | cons d front =>
          rw [List.getLast?_append_of_ne_nil _ (List.cons_ne_nil d front)] at hc
          exact before c hc
        | nil =>
          cases run with
          | nil => exact absurd rfl word'.nonempty
          | cons d run =>
            have blank := stop d (by simp [cut])
            rw [word'.visible d List.mem_cons_self] at blank
            cases blank
  · intro run
    rw [h.eq_words]
    exact run.mem_words

end

/-! ## Bytes -/

/-- **The two digits of a byte.** -/
def Denotes (run : List Char) (b : Byte) : Prop :=
  ∃ h l x y, run = [h, l] ∧ IsHexDigit h x ∧ IsHexDigit l y ∧ b.toNat = 16 * x + y

/-- A hexadecimal digit is less than sixteen. -/
theorem IsHexDigit.lt {c : Char} {v : Nat} (h : IsHexDigit c v) : v < 16 := by
  rcases h with digit | digit <;> exact (List.getElem?_eq_some_iff.mp digit).1

/-- **A word is read as the byte that it denotes.** -/
theorem byteOf?_eq_some_iff {run : List Char} {b : Byte} : byteOf? run = some b ↔ Denotes run b := by
  constructor
  · intro read
    unfold byteOf? at read
    split at read
    · rename_i h l
      split at read
      · rename_i x y high low
        cases read
        have hx := digitIn?_eq_some_iff.mp high
        have hy := digitIn?_eq_some_iff.mp low
        refine ⟨h, l, x, y, rfl, hx, hy, ?_⟩
        have := hx.lt
        have := hy.lt
        rw [BitVec.toNat_ofNat]
        omega
      · cases read
    · cases read
  · rintro ⟨h, l, x, y, rfl, high, low, value⟩
    simp only [byteOf?, digitIn?_eq_some_iff.mpr high, digitIn?_eq_some_iff.mpr low, Option.some.injEq]
    rw [← value, BitVec.ofNat_toNat, BitVec.setWidth_eq]

/-- **A text is read run by run.** -/
theorem Runs.decodes {cs : List Char} {runs : List (List Char)} (h : Runs cs runs) {bytes : List Byte} :
    decodeByteChars cs = some bytes ↔ List.Forall₂ Denotes runs bytes := by
  rw [decodeByteChars_eq, ← h.eq_words]
  clear h
  induction runs generalizing bytes with
  | nil => simp [eq_comm]
  | cons run runs ih =>
    rw [List.mapM_cons, List.forall₂_cons_left_iff]
    constructor
    · intro read
      obtain ⟨b, first, read⟩ := Option.bind_eq_some_iff.mp read
      obtain ⟨bs, rest, same⟩ := Option.bind_eq_some_iff.mp read
      exact ⟨b, bs, byteOf?_eq_some_iff.mp first, ih.mp rest, (Option.some.inj same).symm⟩
    · rintro ⟨b, bs, first, rest, rfl⟩
      rw [byteOf?_eq_some_iff.mpr first, ih.mpr rest]
      rfl

/-- Runs that are bytes are a byte list. -/
theorem exists_row {runs : List (List Char)} (each : ∀ run ∈ runs, ∃ b, Denotes run b) :
    ∃ bytes, List.Forall₂ Denotes runs bytes := by
  induction runs with
  | nil => exact ⟨[], .nil⟩
  | cons run runs ih =>
    obtain ⟨b, first⟩ := each run List.mem_cons_self
    obtain ⟨bytes, rest⟩ := ih fun w hw => each w (List.mem_cons_of_mem run hw)
    exact ⟨b :: bytes, .cons first rest⟩

/-- Each run of a byte list is a byte. -/
theorem exists_of_row {runs : List (List Char)} {bytes : List Byte} (row : List.Forall₂ Denotes runs bytes) :
    ∀ run ∈ runs, ∃ b, Denotes run b := by
  induction row with
  | nil => simp
  | cons first _ ih =>
    intro run mem
    rcases List.mem_cons.mp mem with rfl | mem
    · exact ⟨_, first⟩
    · exact ih run mem

/-- **Reading byte lists.** A text is read exactly if each of its runs is the two digits of a byte, in either case, and then
    these bytes are read, in order. What is written for a byte list is read as that list. -/
theorem decodeBytes_runs (s : String) :
    ((decodeBytes s).isSome = true ↔ ∀ run, IsRun s.toList run → ∃ b, Denotes run b) ∧
      (∀ bytes, decodeBytes s = some bytes ↔ ∃ runs, Runs s.toList runs ∧ List.Forall₂ Denotes runs bytes) ∧
      ∀ bytes, decodeBytes (encodeBytes bytes) = some bytes := by
  obtain ⟨runs, cut⟩ := exists_runs s.toList
  refine ⟨?_, ?_, ?_⟩
  · unfold decodeBytes
    rw [Option.isSome_iff_exists]
    constructor
    · rintro ⟨bytes, read⟩ run isRun
      exact exists_of_row (cut.decodes.mp read) run (cut.mem_iff.mpr isRun)
    · intro each
      obtain ⟨bytes, row⟩ := exists_row fun run mem => each run (cut.mem_iff.mp mem)
      exact ⟨bytes, cut.decodes.mpr row⟩
  · intro bytes
    constructor
    · intro read
      exact ⟨runs, cut, cut.decodes.mp read⟩
    · rintro ⟨runs', cut', row⟩
      exact cut'.decodes.mpr row
  · intro bytes
    unfold decodeBytes
    rw [decodeByteChars_eq, words_encodeBytes, mapM_byteDigits]

end ArmToolkit.Text
