import ArmToolkit.Proofs.Numerals
import ArmToolkit.Settings
import Mathlib.Order.Bounds.Basic

/-!
# `Proofs.LoadedSettings` — settings that are saved are loaded again

## Contents
- **Texts.** A store holds the text that was last set, whatever was set for other settings before or after it
  (`Store.get?_setAll_of_mem`, `Store.get?_setAll_of_not_mem`).
- **Numbers.** `Store.Asks`: the number at the front of the text for a setting, or else the default. It is what
  `Store.nat?` reads (`Store.asks_iff`).
- **Values.** What is written for a number, a switch or a level is read back (`Store.nat?_of_get?`, `switch?_switchWord`,
  `Level.ofName?_name`). A vector length is the nearest one below (`A64.VectorLength.isGreatest_clamp`).
- **Settings.** `Settings.Valid` are those that can be loaded (`Settings.valid_load`), and all of them are loaded from where
  they are saved (`Settings.load_save`).
-/

namespace ArmToolkit

open Text Log

/-! ## Texts -/

namespace Store

variable (s : Store) {j k : SettingKey} {text : String}

/-- A setting has the text that is set for it. -/
theorem get?_set_self (k : SettingKey) (text : String) : (s.set k text).get? k = some text := by
  unfold get? set
  rw [List.lookup_cons, beq_self_eq_true]

/-- A setting keeps its text when another one is set. -/
theorem get?_set_of_ne (apart : j ≠ k) : (s.set k text).get? j = s.get? j := by
  have different : (j == k) = false := beq_eq_false_iff_ne.mpr apart
  unfold get? set erase
  rw [List.lookup_cons, different]
  induction s.entries with
  | nil => rfl
  | cons e es ih =>
    obtain ⟨key, old⟩ := e
    by_cases own : key = k
    · subst own
      simpa [List.lookup_cons, different] using ih
    · simp only [List.filter_cons, bne_iff_ne, ne_eq, own, not_false_eq_true, if_true, List.lookup_cons]
      cases j == key
      · exact ih
      · rfl

/-- The store with texts set one after the other. -/
def setAll (es : List (SettingKey × String)) : Store := es.foldl (fun s e => s.set e.1 e.2) s

/-- Settings that are not among those that are set keep their texts. -/
theorem get?_setAll_of_not_mem {es : List (SettingKey × String)} (other : k ∉ es.map Prod.fst) :
    (s.setAll es).get? k = s.get? k := by
  unfold setAll
  induction es generalizing s with
  | nil => rfl
  | cons e es ih =>
    simp only [List.map_cons, List.mem_cons, not_or] at other
    rw [List.foldl_cons, ih _ other.2, get?_set_of_ne s other.1]

/-- **Settings that are set once each** have their texts. -/
theorem get?_setAll_of_mem {es : List (SettingKey × String)} (once : (es.map Prod.fst).Nodup) (mem : (k, text) ∈ es) :
    (s.setAll es).get? k = some text := by
  -- a setting that is set keeps its text, since no later one has its name
  induction es generalizing s with
  | nil => cases mem
  | cons e es ih =>
    obtain ⟨later, once⟩ := List.nodup_cons.mp once
    rcases List.mem_cons.mp mem with rfl | mem
    · exact (get?_setAll_of_not_mem (s.set k text) later).trans (get?_set_self s k text)
    · exact ih (s.set e.1 e.2) once mem

/-! ## Numbers -/

/-- **The number at the front of a text**: its digits, as many as there are, denote a number of 32 bits. -/
def Leads (text : String) (n : Nat) : Prop :=
  ∃ ds rest, text.toList = ds ++ rest ∧ IsNumber 10 ds n ∧ (∀ c ∈ rest.head?, digitIn? 10 c = none) ∧ n < twoPow 32

/-- **A store holds a number for a setting.** -/
def HoldsNumber (k : SettingKey) (n : Nat) : Prop := ∃ text, s.get? k = some text ∧ Leads text n

/-- **The number that a store asks for**: the one that it holds, or else the default. -/
def Asks (k : SettingKey) (default n : Nat) : Prop :=
  s.HoldsNumber k n ∨ (∀ m, ¬ s.HoldsNumber k m) ∧ n = default

/-- Numbers are read from the front of a text. -/
theorem leads_iff {n : Nat} : (IntKind.u32.read? 10 text).map Int.toNat = some n ↔ Leads text n := by
  unfold IntKind.read?
  simp only [Option.map_map, Option.map_eq_some_iff, Prod.exists, Function.comp_apply]
  constructor
  · rintro ⟨z, rest, scanned, rfl⟩
    obtain ⟨m, rfl, fits, digits⟩ := IntKind.scan_u32_eq_some_iff.mp scanned
    obtain ⟨ds, cut, number, stop⟩ := scanNat_eq_some_iff.mp digits
    exact ⟨ds, rest, cut, number, stop, fits⟩
  · rintro ⟨ds, rest, cut, number, stop, fits⟩
    have digits : scanNat 10 text.toList = some (n, rest) := scanNat_eq_some_iff.mpr ⟨ds, cut, number, stop⟩
    exact ⟨n, rest, IntKind.scan_u32_eq_some_iff.mpr ⟨n, rfl, fits, digits⟩, rfl⟩

/-- **The numbers of a store** are those that are read. -/
theorem nat?_eq_some_iff {n : Nat} : s.nat? k = some n ↔ s.HoldsNumber k n := by
  unfold nat? HoldsNumber
  cases s.get? k with
  | none => simp
  | some text =>
    constructor
    · intro read
      exact ⟨text, rfl, leads_iff.mp read⟩
    · rintro ⟨text', same, leads⟩
      cases same
      exact leads_iff.mpr leads

/-- **What a store asks for** is what is read, or the default. -/
theorem asks_iff {default n : Nat} : s.Asks k default n ↔ (s.nat? k).getD default = n := by
  unfold Asks
  simp only [← nat?_eq_some_iff]
  cases s.nat? k with
  | none => simp [eq_comm]
  | some m => simp

/-- A number that is read has 32 bits. -/
theorem nat?_lt {n : Nat} (read : s.nat? k = some n) : n < twoPow 32 := by
  obtain ⟨_, _, _, _, _, _, _, fits⟩ := s.nat?_eq_some_iff.mp read
  exact fits

/-- **A number that is written is read back.** -/
theorem nat?_of_get? {n : Nat} (written : s.get? k = some (dec n)) (fits : n < twoPow 32) : s.nat? k = some n := by
  obtain ⟨ds, cut, number, stop⟩ := scanNat_eq_some_iff.mp (@scanNat_digits 10 (by decide) (by decide) n)
  refine s.nat?_eq_some_iff.mpr ⟨dec n, written, ds, [], ?_, number, stop, fits⟩
  rw [dec, String.toList_ofList, cut]

end Store

/-! ## Values -/

/-- **The word of a switch** is read back. -/
theorem Text.switch?_switchWord (b : Bool) : Text.switch? (switchWord b) = some b := by
  cases b <;> decide

/-- **The name of a level** stands for it. -/
theorem Log.Level.ofName?_name (l : Level) : Level.ofName? l.name = some l := by
  cases l <;> decide

namespace A64.VectorLength

/-- A number of bits is brought to a vector length. -/
theorem isVectorLength_clamp (bits : Nat) : isVectorLength (clamp bits) = true := by
  unfold isVectorLength clamp
  rw [decide_eq_true_eq]
  omega

/-- A vector length stays as it is. -/
theorem clamp_of_isVectorLength {bits : Nat} (h : isVectorLength bits = true) : clamp bits = bits := by
  unfold isVectorLength at h
  rw [decide_eq_true_eq] at h
  unfold clamp
  omega

/-- **A number of bits is brought to the greatest vector length that is not above it**, or to the least one of all. -/
theorem isGreatest_clamp (bits : Nat) :
    IsGreatest {v | isVectorLength v = true ∧ (v ≤ bits ∨ v = 128)} (clamp bits) := by
  constructor
  · refine ⟨isVectorLength_clamp bits, ?_⟩
    unfold clamp
    omega
  · rintro v ⟨valid, below⟩
    unfold isVectorLength at valid
    rw [decide_eq_true_eq] at valid
    unfold clamp
    omega

end A64.VectorLength

/-! ## Settings -/

namespace Settings

variable (c : Settings) (s : Store)

/-- The settings in a store that are read and written here. -/
def ownKeys : List SettingKey :=
  [vectorLengthKey, maxInstructionsKey, traceKey, memorySizeKey, logLevelKey, consoleKey, timestampsKey]

/-- The settings with their texts. -/
def texts : List (SettingKey × String) :=
  [(vectorLengthKey, dec c.vectorLength), (maxInstructionsKey, dec c.maxInstructions), (traceKey, switchWord c.trace),
    (memorySizeKey, dec c.memorySize), (logLevelKey, c.logLevel.name), (consoleKey, switchWord c.console),
    (timestampsKey, switchWord c.timestamps)]

/-- Saving sets these texts. -/
theorem save_eq_setAll : c.save s = s.setAll c.texts := rfl

/-- **What is saved is in the store.** -/
theorem get?_save {k : SettingKey} {text : String} (mem : (k, text) ∈ c.texts) : (c.save s).get? k = some text := by
  have once : ownKeys.Nodup := by decide
  rw [save_eq_setAll]
  exact s.get?_setAll_of_mem once mem

/-- **Saving touches its own settings alone.** -/
theorem get?_save_of_not_mem {k : SettingKey} (other : k ∉ ownKeys) : (c.save s).get? k = s.get? k := by
  rw [save_eq_setAll]
  exact s.get?_setAll_of_not_mem other

/-- **The settings that can be in use**: the vector length is one, there is some memory, and the numbers have 32 bits. -/
structure Valid : Prop where
  vectorLength : A64.isVectorLength c.vectorLength = true
  maxInstructions : c.maxInstructions < twoPow 32
  memorySize : 1 ≤ c.memorySize ∧ c.memorySize < twoPow 32

/-- A number that is asked for has 32 bits, if the default has. -/
theorem getD_nat?_lt {k : SettingKey} {default : Nat} (fits : default < twoPow 32) : (s.nat? k).getD default < twoPow 32 := by
  cases read : s.nat? k with
  | none => exact fits
  | some n => exact s.nat?_lt read

/-- **What is loaded is valid**, whatever a store holds. -/
theorem valid_load : (load s).Valid where
  vectorLength := A64.VectorLength.isVectorLength_clamp _
  maxInstructions := getD_nat?_lt s (by decide)
  memorySize := by
    have fits : (s.nat? memorySizeKey).getD 1048576 < twoPow 32 := getD_nat?_lt s (by decide)
    have some_number : 1 < twoPow 32 := by decide
    exact ⟨Nat.le_max_right _ _, Nat.max_lt.mpr ⟨fits, some_number⟩⟩

/-- **Valid settings are loaded from where they are saved.** -/
theorem load_save (valid : c.Valid) : load (c.save s) = c := by
  obtain ⟨length, budget, memory⟩ := valid
  have narrow : c.vectorLength < twoPow 32 := by
    unfold A64.isVectorLength at length
    rw [decide_eq_true_eq] at length
    have : 2048 < twoPow 32 := by decide
    omega
  have vectorLength : (c.save s).nat? vectorLengthKey = some c.vectorLength :=
    Store.nat?_of_get? _ (c.get?_save s (by simp [texts])) narrow
  have maxInstructions : (c.save s).nat? maxInstructionsKey = some c.maxInstructions :=
    Store.nat?_of_get? _ (c.get?_save s (by simp [texts])) budget
  have memorySize : (c.save s).nat? memorySizeKey = some c.memorySize :=
    Store.nat?_of_get? _ (c.get?_save s (by simp [texts])) memory.2
  have switch : ∀ k b, (k, switchWord b) ∈ c.texts → (c.save s).switch? k = some b := by
    intro k b mem
    unfold Store.switch?
    rw [c.get?_save s mem, Option.bind_some, switch?_switchWord]
  have level : (c.save s).get? logLevelKey = some c.logLevel.name := c.get?_save s (by simp [texts])
  unfold load requestedVectorLength requestedLevel
  rw [vectorLength, maxInstructions, memorySize, level, switch traceKey c.trace (by simp [texts]),
    switch consoleKey c.console (by simp [texts]), switch timestampsKey c.timestamps (by simp [texts])]
  simp only [Option.getD_some, Option.bind_some, Level.ofName?_name, A64.VectorLength.clamp_of_isVectorLength length,
    Nat.max_eq_left memory.1]

/-- **Loading and saving.** Whatever a store holds, what is loaded from it has a vector length, which is the greatest one that
    is not above what the store asks for or else the least of all, and has some memory. Saved into any store it is loaded
    again, and the store keeps all other settings that it had. -/
theorem load_save_load (prior : Store) :
    (∃ bits, s.Asks vectorLengthKey 512 bits ∧
        IsGreatest {v | A64.isVectorLength v = true ∧ (v ≤ bits ∨ v = 128)} (load s).vectorLength) ∧
      1 ≤ (load s).memorySize ∧ load ((load s).save prior) = load s ∧
      ∀ k ∉ ownKeys, ((load s).save prior).get? k = prior.get? k := by
  have valid := valid_load s
  refine ⟨⟨requestedVectorLength s, s.asks_iff.mpr rfl, A64.VectorLength.isGreatest_clamp _⟩, valid.memorySize.1, ?_, ?_⟩
  · exact (load s).load_save prior valid
  · intro k other
    exact (load s).get?_save_of_not_mem prior other

/-- A store that asks for a length between two vector lengths and for no memory, saved into one that has another setting. -/
theorem load_save_load_between :
    let s : Store := ⟨[(vectorLengthKey, "300 bits"), (memorySizeKey, "0"), (logLevelKey, "loud")]⟩
    let prior : Store := ⟨[(⟨"Simulator", "Region"⟩, "data"), (vectorLengthKey, "1024")]⟩
    (⟨"Simulator", "Region"⟩ ∉ ownKeys ∧ (load s).vectorLength = 256) ∧
      load ((load s).save prior) = load s ∧ ((load s).save prior).get? ⟨"Simulator", "Region"⟩ = some "data" := by
  intro s prior
  have other : ⟨"Simulator", "Region"⟩ ∉ ownKeys := by decide
  obtain ⟨-, -, again, kept⟩ := load_save_load s prior
  exact ⟨⟨other, by decide⟩, again, (kept _ other).trans rfl⟩

end Settings

end ArmToolkit
