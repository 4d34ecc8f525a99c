import ArmToolkit.A64.BitmaskImmediate

/-!
# `Proofs.RotatedRuns` — the theory of bitmask immediates

A bitmask immediate is the pattern of a run of `k` ones in an element of `e` bits, rotated right by `r` and repeated.
Bit `i` of the pattern is set where `(i + r) % e < k`, and everything follows from that.

## Contents
- **Bits.** `getLsbD_onesBelow`, `getLsbD_replicate`, `getLsbD_rotateRight`: the three building blocks bit by bit.
- **Runs.** `IsRun e k r`, `pattern e k r`, and that a pattern determines its run: the element size is the smallest
  period (`IsRun.size_le`), the length is the number of ones (`IsRun.ones_element`), and the rotation is the place of
  the run (`IsRun.rotation_unique`).
- **Codes.** `code e k q` puts a run together with a rotation field. `encode?_eq_some_iff` and `decode?_eq_some_iff` say
  which values have an encoding and what an encoding stands for.
- **Round trips.** `decode?_of_encode?` and `encode?_of_decode?`, for registers of 32 and of 64 bits.
-/

namespace ArmToolkit.A64.BitmaskImmediate

/-! ## Bits -/

theorem getLsbD_onesBelow (n : Nat) {i : Nat} (hi : i < 64) : (onesBelow n).getLsbD i = decide (i < n) := by
  unfold onesBelow
  split
  · rename_i h
    rw [BitVec.getLsbD_allOnes, decide_eq_true hi, decide_eq_true (Nat.lt_of_lt_of_le hi h)]
  · have low : (twoPow n - 1).testBit i = decide (i < n) := Nat.testBit_two_pow_sub_one n i
    rw [BitVec.getLsbD_ofNat, low]
    simp [hi]

/-- Doubling keeps a value periodic: the invariant is that the lowest `size` bits are those of `p`. -/
theorem getLsbD_doublings (p : Nat → Bool) (k : Nat) :
    ∀ (size : Nat) (v : BitVec 64), (∀ i, p (i + size) = p i) →
      (∀ i < 64, v.getLsbD i = (decide (i < size) && p i)) →
      ∀ i < 64, (doublings k size v).getLsbD i = (decide (i < size * twoPow k) && p i) := by
  induction k with
  | zero =>
    intro size v _ hv i hi
    rw [doublings, hv i hi, twoPow_zero, Nat.mul_one]
  | succ k ih =>
    intro size v period hv i hi
    rw [doublings]
    split
    · rename_i stop
      -- no doubling is left to make, or the value is periodic over all of its bits
      rw [hv i hi]
      rcases stop with rfl | wide
      · simp
      · have := Nat.le_mul_of_pos_right size (twoPow_pos (k + 1))
        simp [show i < size by omega, show i < size * twoPow (k + 1) by omega]
    · rename_i going
      -- below `2 * size` one of the two copies has the bit, and the invariant holds of the doubled size
      have twice : ∀ i, p (i + 2 * size) = p i := by
        intro i
        rw [Nat.two_mul, ← Nat.add_assoc, period, period]
      have step : ∀ i < 64, (v ||| v <<< size).getLsbD i = (decide (i < 2 * size) && p i) := by
        intro i hi
        rw [BitVec.getLsbD_or, BitVec.getLsbD_shiftLeft, hv i hi, hv (i - size) (by omega)]
        by_cases low : i < size
        · simp [low, show i < 2 * size by omega]
        · have back : p (i - size) = p i := by rw [← period (i - size), Nat.sub_add_cancel (by omega)]
          have : i - size < size ↔ i < 2 * size := by omega
          simp [hi, low, back, this]
      rw [ih (2 * size) _ twice step i hi, twoPow_succ, Nat.mul_comm 2 size, Nat.mul_assoc, Nat.mul_comm 2]

/-- **Bit by bit, repetition reads the element again and again.** -/
theorem getLsbD_replicate (v : BitVec 64) {size : Nat} (hs : 0 < size) {i : Nat} (hi : i < 64) :
    (replicate v size).getLsbD i = v.getLsbD (i % size) := by
  have start : ∀ i < 64, (v &&& onesBelow size).getLsbD i = (decide (i < size) && v.getLsbD (i % size)) := by
    intro i hi
    rw [BitVec.getLsbD_and, getLsbD_onesBelow size hi]
    by_cases low : i < size
    · simp [low, Nat.mod_eq_of_lt low]
    · simp [low]
  have reach : i < size * twoPow 6 := by
    show i < size * 64
    omega
  rw [replicate, getLsbD_doublings (fun i => v.getLsbD (i % size)) 6 size _ (fun i => by rw [Nat.add_mod_right]) start i hi]
  simp [reach]

/-- The lowest bits of a repeated value are those of the value. -/
theorem replicate_low (v : BitVec 64) {narrow wide : Nat} (le : narrow ≤ wide) (pos : 0 < wide) :
    replicate v wide &&& onesBelow narrow = v &&& onesBelow narrow := by
  apply BitVec.eq_of_getLsbD_eq
  intro i hi
  rw [BitVec.getLsbD_and, BitVec.getLsbD_and, getLsbD_onesBelow narrow hi, getLsbD_replicate v pos hi]
  by_cases low : i < narrow
  · rw [Nat.mod_eq_of_lt (Nat.lt_of_lt_of_le low le)]
  · simp [low]

theorem replicate_replicate (v : BitVec 64) {size : Nat} (pos : 0 < size) (le : size ≤ 64) :
    replicate (replicate v size) size = replicate v size := by
  apply BitVec.eq_of_getLsbD_eq
  intro i hi
  have := Nat.mod_lt i pos
  rw [getLsbD_replicate _ pos hi, getLsbD_replicate v pos (by omega), getLsbD_replicate v pos hi, Nat.mod_mod]

/-- A value of 32 bits has no others. -/
theorem getLsbD_of_narrow {v : BitVec 64} (narrow : v >>> 32 = 0) {i : Nat} (hi : 32 ≤ i) : v.getLsbD i = false := by
  have zero : (v >>> 32).getLsbD (i - 32) = false := by
    rw [narrow]
    exact BitVec.getLsbD_zero
  rwa [BitVec.getLsbD_ushiftRight, Nat.add_sub_cancel' hi] at zero

theorem and_onesBelow_of_narrow {v : BitVec 64} (narrow : v >>> 32 = 0) : v &&& onesBelow 32 = v := by
  apply BitVec.eq_of_getLsbD_eq
  intro i hi
  rw [BitVec.getLsbD_and, getLsbD_onesBelow 32 hi]
  by_cases low : i < 32
  · simp [low]
  · rw [getLsbD_of_narrow narrow (Nat.le_of_not_lt low), Bool.false_and]

theorem narrow_and_onesBelow (v : BitVec 64) : (v &&& onesBelow 32) >>> 32 = 0 := by
  apply BitVec.eq_of_getLsbD_eq
  intro i hi
  rw [BitVec.getLsbD_ushiftRight, BitVec.getLsbD_and]
  by_cases inside : 32 + i < 64
  · rw [getLsbD_onesBelow 32 inside]
    simp
  · rw [BitVec.getLsbD_of_ge _ _ (by omega)]
    simp

/-- Bit by bit, a rotation reads the element from another place on. -/
theorem getLsbD_rotateRight (v : BitVec 64) {r e : Nat} (hr : r < e) (he : e ≤ 64) {i : Nat} (hi : i < 64) :
    (rotateRight v r e).getLsbD i = (decide (i < e) && v.getLsbD ((i + r) % e)) := by
  have element : ∀ j, (v &&& onesBelow e).getLsbD j = (decide (j < e) && v.getLsbD j) := by
    intro j
    by_cases hj : j < 64
    · rw [BitVec.getLsbD_and, getLsbD_onesBelow e hj, Bool.and_comm]
    · rw [BitVec.getLsbD_of_ge _ _ (by omega), BitVec.getLsbD_of_ge v _ (by omega), Bool.and_false]
  unfold rotateRight
  by_cases zero : r = 0
  · subst zero
    rw [if_pos rfl, element, Nat.add_zero]
    by_cases low : i < e
    · simp [low, Nat.mod_eq_of_lt low]
    · simp [low]
  · rw [if_neg zero, BitVec.getLsbD_and, BitVec.getLsbD_or, BitVec.getLsbD_ushiftRight, BitVec.getLsbD_shiftLeft, element,
      element, getLsbD_onesBelow e hi]
    by_cases low : i < e
    -- the highest `r` bits are those that went round
    · by_cases carry : i + r < e
      · have : i < e - r := by omega
        simp [low, Nat.mod_eq_of_lt carry, carry, this, Nat.add_comm r i]
      · have place : (i + r) % e = i - (e - r) := by
          rw [Nat.mod_eq_sub_mod (by omega), Nat.mod_eq_of_lt (by omega)]
          omega
        have : ¬ i < e - r := by omega
        have : ¬ r + i < e := by omega
        have : i - (e - r) < e := by omega
        simp [*]
    · simp [low]

/-! ## Runs -/

/-- **A run of `k` ones in an element of `e` bits, rotated right by `r`.** It is not empty and does not fill the
    element. -/
structure IsRun (e k r : Nat) : Prop where
  size : e ∈ sizes
  nonempty : 0 < k
  proper : k < e
  rotation : r < e

/-- The run repeated over all 64 bits. -/
def pattern (e k r : Nat) : BitVec 64 := replicate (rotateRight (onesBelow k) r e) e

theorem size_pos {e : Nat} (h : e ∈ sizes) : 0 < e := by
  have : ∀ e ∈ sizes, 0 < e := by decide
  exact this e h

theorem size_le {e : Nat} (h : e ∈ sizes) : e ≤ 64 := by
  have : ∀ e ∈ sizes, e ≤ 64 := by decide
  exact this e h

theorem size_dvd {e d : Nat} (he : e ∈ sizes) (hd : d ∈ sizes) (h : d ≤ e) : d ∣ e := by
  have : ∀ e ∈ sizes, ∀ d ∈ sizes, d ≤ e → d ∣ e := by decide
  exact this e he d hd h

/-- **Bit `i` of a pattern** is set where the run, counted from its start, has not ended. -/
theorem getLsbD_pattern {e k r : Nat} (size : e ∈ sizes) (rotation : r < e) {i : Nat} (hi : i < 64) :
    (pattern e k r).getLsbD i = decide ((i + r) % e < k) := by
  have pos := size_pos size
  have bound := size_le size
  have low := Nat.mod_lt i pos
  have inside := Nat.mod_lt (i + r) pos
  rw [pattern, getLsbD_replicate _ pos hi, getLsbD_rotateRight _ rotation bound (by omega), Nat.mod_add_mod,
    getLsbD_onesBelow k (by omega)]
  simp [low]

/-- The bit of an element that is `j` places into the run. -/
def placeOf (e r j : Nat) : Nat := (j + (e - r)) % e

theorem placeOf_lt {e : Nat} (pos : 0 < e) (r j : Nat) : placeOf e r j < e := Nat.mod_lt _ pos

theorem placeOf_add {e r j : Nat} (hr : r < e) (hj : j < e) : (placeOf e r j + r) % e = j := by
  rw [placeOf, Nat.mod_add_mod, Nat.add_assoc, Nat.sub_add_cancel (Nat.le_of_lt hr), Nat.add_mod_right,
    Nat.mod_eq_of_lt hj]

/-- Places that differ by a multiple of `d` in the run do so in the element, where `d` divides its size. -/
theorem placeOf_mod {e d : Nat} (h : d ∣ e) (r : Nat) {i j : Nat} (hij : i % d = j % d) :
    placeOf e r i % d = placeOf e r j % d := by
  rw [placeOf, placeOf, Nat.mod_mod_of_dvd _ h, Nat.mod_mod_of_dvd _ h, Nat.add_mod i, Nat.add_mod j, hij]

namespace IsRun

variable {e k r : Nat}

theorem getLsbD_placeOf (h : IsRun e k r) {j : Nat} (hj : j < e) :
    (pattern e k r).getLsbD (placeOf e r j) = decide (j < k) := by
  have := placeOf_lt (size_pos h.size) r j
  have := size_le h.size
  rw [getLsbD_pattern h.size h.rotation (by omega), placeOf_add h.rotation hj]

/-- A pattern has a bit that is set. -/
theorem pattern_ne_zero (h : IsRun e k r) : pattern e k r ≠ 0 := by
  intro zero
  have first := h.getLsbD_placeOf (size_pos h.size)
  rw [zero] at first
  simp [h.nonempty] at first

/-- A pattern has a bit that is clear. -/
theorem pattern_ne_allOnes (h : IsRun e k r) : pattern e k r ≠ BitVec.allOnes 64 := by
  intro full
  have after := h.getLsbD_placeOf h.proper
  have := placeOf_lt (size_pos h.size) r k
  have := size_le h.size
  rw [full, BitVec.getLsbD_allOnes] at after
  simp at after
  omega

/-- A pattern repeats its element, and every wider one. -/
theorem replicate_pattern (h : IsRun e k r) {d : Nat} (hd : d ∈ sizes) (le : e ≤ d) :
    replicate (pattern e k r) d = pattern e k r := by
  apply BitVec.eq_of_getLsbD_eq
  intro i hi
  have := Nat.mod_lt i (size_pos hd)
  have := size_le hd
  rw [getLsbD_replicate _ (size_pos hd) hi, getLsbD_pattern h.size h.rotation (by omega),
    getLsbD_pattern h.size h.rotation hi, Nat.add_mod, Nat.mod_mod_of_dvd _ (size_dvd hd h.size le), ← Nat.add_mod]

/-- **The element size is the smallest period.** With a smaller period `d` the start of the run would be seen again at
    `e - d`, so that the bit in front of the element's end, and with it the end itself, were in the run. -/
theorem size_le (h : IsRun e k r) {d : Nat} (hd : d ∈ sizes) (period : replicate (pattern e k r) d = pattern e k r) :
    e ≤ d := by
  have bound := BitmaskImmediate.size_le h.size
  have pos := size_pos hd
  apply Nat.le_of_not_lt
  intro small
  have divides := size_dvd h.size hd (Nat.le_of_lt small)
  -- in the run or not, two places of the element that differ by a multiple of `d` are alike
  have same : ∀ i j, i < e → j < e → i % d = j % d → (i < k ↔ j < k) := by
    intro i j hi hj hij
    have read : ∀ j, j < e →
        decide (j < k) = (pattern e k r).getLsbD (placeOf e r j % d) := by
      intro j hj
      have := placeOf_lt (size_pos h.size) r j
      rw [← h.getLsbD_placeOf hj]
      conv => lhs; rw [← period]
      exact getLsbD_replicate _ pos (by omega)
    have := (read i hi).trans ((congrArg _ (placeOf_mod divides r hij)).trans (read j hj).symm)
    simpa using this
  obtain ⟨c, rfl⟩ := divides
  have more : 2 ≤ c := by
    rcases c with _ | _ | c
    · omega
    · omega
    · omega
  have start : d * c - d < k := by
    refine (same 0 (d * c - d) (by omega) (by omega) ?_).mp h.nonempty
    rw [show d * c - d = d * (c - 1) by rw [Nat.mul_sub, Nat.mul_one], Nat.mul_mod_right, Nat.zero_mod]
  have last : d * c - 1 < k := by
    refine (same (d * c - 1 - d) (d * c - 1) (by omega) (by omega) ?_).mp (by omega)
    have wide : 2 * d ≤ d * c := by rw [Nat.mul_comm 2]; exact Nat.mul_le_mul_left d more
    conv => rhs; rw [show d * c - 1 = d * c - 1 - d + d by omega, Nat.add_mod_right]
  have := h.proper
  omega

/-- **The rotation is the place of the run.** -/
theorem rotation_unique (h : IsRun e k r) {s : Nat} (hs : s < e) (same : pattern e k s = pattern e k r) : s = r := by
  have other : IsRun e k s := ⟨h.size, h.nonempty, h.proper, hs⟩
  have bound := BitmaskImmediate.size_le h.size
  have read : ∀ j, j < e → decide (j < k) = decide ((placeOf e r j + s) % e < k) := by
    intro j hj
    have := placeOf_lt (size_pos h.size) r j
    rw [← h.getLsbD_placeOf hj, ← same, getLsbD_pattern h.size hs (by omega)]
  have shift : ∀ j, (placeOf e r j + s) % e = (j + (e - r + s) % e) % e := by
    intro j
    rw [placeOf, Nat.mod_add_mod, Nat.add_assoc, Nat.add_mod_mod]
  have near := Nat.mod_lt (e - r + s) (size_pos h.size)
  -- the run of `r` begins `(e - r + s) % e` places into the run of `s`
  have begins : (e - r + s) % e < k := by
    have := read 0 (size_pos h.size)
    rw [shift, Nat.zero_add, Nat.mod_mod] at this
    simpa [h.nonempty] using this
  have none : (e - r + s) % e = 0 := by
    apply Nat.eq_zero_of_not_pos
    intro some
    -- the run of `s` would end before that of `r` does
    have ends := read (k - (e - r + s) % e) (by have := h.proper; omega)
    rw [shift, Nat.sub_add_cancel (Nat.le_of_lt begins), Nat.mod_eq_of_lt h.proper] at ends
    have : k - (e - r + s) % e < k := by omega
    simp [this] at ends
  have lt := h.rotation
  by_cases le : s < r
  · rw [Nat.mod_eq_of_lt (by omega)] at none
    omega
  · rw [Nat.mod_eq_sub_mod (by omega), Nat.mod_eq_of_lt (by omega)] at none
    omega

end IsRun

/-! ## Counting -/

/-- A window of `e` places sees as many places of a set of period `e`, wherever it starts. -/
theorem countP_shift {p : Nat → Bool} {e : Nat} (period : ∀ i, p (i + e) = p i) (r : Nat) :
    (List.range e).countP (fun i => p (i + r)) = (List.range e).countP p := by
  induction r with
  | zero => rfl
  | succ r ih =>
    rw [← ih]
    -- both windows are cut out of one that is longer by a place
    have front : (List.range (e + 1)).countP (fun i => p (i + r)) =
        (List.range e).countP (fun i => p (i + (r + 1))) + if p r = true then 1 else 0 := by
      rw [List.range_succ_eq_map, List.countP_cons, List.countP_map, Nat.zero_add]
      congr 2
      funext i
      rw [Function.comp_apply, Nat.succ_add, Nat.add_succ]
    have back : (List.range (e + 1)).countP (fun i => p (i + r)) =
        (List.range e).countP (fun i => p (i + r)) + if p r = true then 1 else 0 := by
      rw [List.range_succ, List.countP_append, List.countP_singleton, Nat.add_comm e r, period]
    omega

/-- Below `e` there are `k` numbers less than `k`, where `k` is not greater. -/
theorem countP_lt {k e : Nat} (h : k ≤ e) : (List.range e).countP (fun i => decide (i < k)) = k := by
  obtain ⟨d, rfl⟩ := Nat.exists_eq_add_of_le h
  have low : (List.range k).countP (fun i => decide (i < k)) = k := by
    rw [List.countP_eq_length.mpr fun i hi => by simpa using hi, List.length_range]
  rw [List.range_add, List.countP_append, low, List.countP_map, List.countP_eq_zero.mpr fun i _ => by simp, Nat.add_zero]

/-- Bits above the element do not count. -/
theorem ones_eq_countP {v : BitVec 64} {e : Nat} (he : e ≤ 64) {p : Nat → Bool}
    (bits : ∀ i < 64, v.getLsbD i = (decide (i < e) && p i)) : Bits.ones v = (List.range e).countP p := by
  obtain ⟨d, split⟩ := Nat.exists_eq_add_of_le he
  have low : (List.range e).countP (fun i => v.getLsbD i) = (List.range e).countP p := by
    apply List.countP_congr
    intro i hi
    have := List.mem_range.mp hi
    rw [bits i (by omega)]
    simp [this]
  have high : (List.range d).countP ((fun i => v.getLsbD i) ∘ (e + ·)) = 0 := by
    apply List.countP_eq_zero.mpr
    intro i hi
    have := List.mem_range.mp hi
    rw [Function.comp_apply, bits (e + i) (by omega)]
    simp [show ¬ e + i < e by omega]
  rw [Bits.ones, show List.range 64 = List.range (e + d) by rw [split], List.range_add, List.countP_append,
    List.countP_map, low, high, Nat.add_zero]

/-- **The ones of the element are the length of the run.** -/
theorem IsRun.ones_element {e k r : Nat} (h : IsRun e k r) : Bits.ones (pattern e k r &&& onesBelow e) = k := by
  have bits : ∀ i < 64, (pattern e k r &&& onesBelow e).getLsbD i = (decide (i < e) && decide ((i + r) % e < k)) := by
    intro i hi
    rw [BitVec.getLsbD_and, getLsbD_pattern h.size h.rotation hi, getLsbD_onesBelow e hi, Bool.and_comm]
  have window := countP_shift (p := fun i => decide (i % e < k)) (fun i => by rw [Nat.add_mod_right]) r
  rw [ones_eq_countP (BitmaskImmediate.size_le h.size) bits, window, ← countP_lt (Nat.le_of_lt h.proper)]
  apply List.countP_congr
  intro i hi
  rw [Nat.mod_eq_of_lt (List.mem_range.mp hi), countP_lt (Nat.le_of_lt h.proper)]

/-! ## Codes -/

/-- The lowest six bits of an encoding: the element size in front of the length of the run. -/
def lengthField (e k : Nat) : Nat := (64 - 2 * e) % 64 + (k - 1)

/-- The highest bit of an encoding, set where the element has all 64 bits. -/
def wideField (e : Nat) : Nat := if e = 64 then 1 else 0

/-- **The encoding of a run** with `q` in the rotation field. Only `q % e` matters to the pattern. -/
def code (e k q : Nat) : Nat := wideField e * 4096 + q * 64 + lengthField e k

theorem lengthField_lt {e k : Nat} (he : e ∈ sizes) (hk : k < e) : lengthField e k < 64 := by
  have : ∀ e ∈ sizes, (64 - 2 * e) % 64 + e ≤ 65 := by decide
  have := this e he
  unfold lengthField
  omega

theorem wideField_le (e : Nat) : wideField e ≤ 1 := by
  unfold wideField
  split <;> omega

/-- The fields of an encoding are read back from it. -/
theorem code_fields {e k q : Nat} (he : e ∈ sizes) (hk : k < e) (hq : q < 64) :
    code e k q / 4096 % 2 = wideField e ∧ code e k q / 64 % 64 = q ∧ code e k q % 64 = lengthField e k := by
  have := lengthField_lt he hk
  have := wideField_le e
  unfold code
  omega

theorem code_lt {e k q : Nat} (he : e ∈ sizes) (hk : k < e) (hq : q < 64) : code e k q < 8192 := by
  have := lengthField_lt he hk
  have := wideField_le e
  unfold code
  omega

/-- The element size of the fields of an encoding. -/
def fieldSize (n imms : Nat) : Nat := twoPow (n * 64 + (63 - imms)).log2

theorem fieldSize_code {e k : Nat} (he : e ∈ sizes) (hk : k < e) (pos : 0 < k) :
    1 < wideField e * 64 + (63 - lengthField e k) ∧ fieldSize (wideField e) (lengthField e k) = e ∧
      lengthField e k % e = k - 1 := by
  have all : ∀ e ∈ sizes, ∀ k < e, 0 < k → 1 < wideField e * 64 + (63 - lengthField e k) ∧
      fieldSize (wideField e) (lengthField e k) = e ∧ lengthField e k % e = k - 1 := by decide +kernel
  exact all e he k hk pos

/-- Fields that stand for a size are those of a run, unless the run would fill the element. -/
theorem fields_eq_code {n imms : Nat} (hn : n < 2) (hi : imms < 64) (some : 1 < n * 64 + (63 - imms))
    (proper : imms % fieldSize n imms ≠ fieldSize n imms - 1) :
    fieldSize n imms ∈ sizes ∧ n = wideField (fieldSize n imms) ∧
      imms = lengthField (fieldSize n imms) (imms % fieldSize n imms + 1) := by
  have all : ∀ n : Fin 2, ∀ imms : Fin 64, 1 < n.val * 64 + (63 - imms.val) →
      imms.val % fieldSize n imms ≠ fieldSize n imms - 1 → fieldSize n imms ∈ sizes ∧
        n.val = wideField (fieldSize n imms) ∧
        imms.val = lengthField (fieldSize n imms) (imms % fieldSize n imms + 1) := by decide +kernel
  exact all ⟨n, hn⟩ ⟨imms, hi⟩ some proper

/-! ## What is encoded -/

/-- The element size is one of six, and repeats the value. -/
theorem elementSize_spec (v : BitVec 64) : elementSize v ∈ sizes ∧ replicate v (elementSize v) = v := by
  unfold elementSize
  cases found : sizes.find? fun e => replicate v e == v with
  | some e => exact ⟨List.mem_of_find?_eq_some found, by simpa using List.find?_some found⟩
  | none =>
    refine ⟨by decide, ?_⟩
    apply BitVec.eq_of_getLsbD_eq
    intro i hi
    rw [Option.getD_none, getLsbD_replicate v (by decide) hi, Nat.mod_eq_of_lt hi]

/-- The element size is not greater than any other that repeats the value. -/
theorem elementSize_le {v : BitVec 64} {d : Nat} (hd : d ∈ sizes) (h : replicate v d = v) : elementSize v ≤ d := by
  have ascending : sizes.Pairwise (· ≤ ·) := by decide
  unfold elementSize
  cases found : sizes.find? fun e => replicate v e == v with
  | none => exact absurd (by simp [h]) (List.find?_eq_none.mp found d hd)
  | some e =>
    obtain ⟨_, before, after, split, first⟩ := List.find?_eq_some_iff_append.mp found
    rw [split] at hd ascending
    rcases List.mem_append.mp hd with early | late
    · have := first d early
      simp [h] at this
    · rcases List.mem_cons.mp late with rfl | late
      · exact Nat.le_refl d
      · exact List.rel_of_pairwise_cons (List.pairwise_append.mp ascending).2.1 late

theorem IsRun.elementSize_eq {e k r : Nat} (h : IsRun e k r) : elementSize (pattern e k r) = e :=
  Nat.le_antisymm (elementSize_le h.size (h.replicate_pattern h.size (Nat.le_refl e)))
    (h.size_le (elementSize_spec _).1 (elementSize_spec _).2)

/-- The element of a pattern is a rotated run. -/
theorem IsRun.element_eq {e k r : Nat} (h : IsRun e k r) :
    pattern e k r &&& onesBelow e = rotateRight (onesBelow k) r e := by
  apply BitVec.eq_of_getLsbD_eq
  intro i hi
  have := Nat.mod_lt (i + r) (size_pos h.size)
  have := BitmaskImmediate.size_le h.size
  rw [BitVec.getLsbD_and, getLsbD_pattern h.size h.rotation hi, getLsbD_onesBelow e hi,
    getLsbD_rotateRight _ h.rotation (by omega) hi, getLsbD_onesBelow k (by omega), Bool.and_comm]

/-- A value that repeats an element is the repetition of that element. -/
theorem replicate_element {v : BitVec 64} {e : Nat} (pos : 0 < e) (h : replicate v e = v) :
    replicate (v &&& onesBelow e) e = v := by
  apply BitVec.eq_of_getLsbD_eq
  intro i hi
  have := Nat.mod_lt i pos
  conv => rhs; rw [← h]
  rw [getLsbD_replicate _ pos hi, getLsbD_replicate _ pos hi, BitVec.getLsbD_and]
  by_cases hj : i % e < 64
  · rw [getLsbD_onesBelow e hj]
    simp [this]
  · rw [BitVec.getLsbD_of_ge v _ (by omega), Bool.false_and]

/-- The first rotation that gives the element is that of the run. -/
theorem IsRun.find_rotation {e k r : Nat} (h : IsRun e k r) :
    (List.range e).find? (fun s => rotateRight (onesBelow k) s e == pattern e k r &&& onesBelow e) = some r := by
  rw [List.find?_range_eq_some]
  refine ⟨by simp [h.element_eq], List.mem_range.mpr h.rotation, fun s hs => ?_⟩
  have lt := Nat.lt_trans hs h.rotation
  simp only [h.element_eq, Bool.not_eq_true', beq_eq_false_iff_ne]
  intro same
  have := h.rotation_unique lt (congrArg (replicate · e) same)
  omega

/-- **What has an encoding**: the patterns of runs, each with the code of its run. -/
theorem encode?_eq_some_iff {v : BitVec 64} {n : Nat} :
    encode? v 64 = some n ↔ ∃ e k r, IsRun e k r ∧ v = pattern e k r ∧ n = code e k r := by
  constructor
  · intro h
    simp only [encode?, widen?, show ¬ (64 = 32) by decide, if_false, Option.bind_eq_bind, Option.bind_some] at h
    split at h
    · cases h
    · rename_i mixed
      simp only [Option.pure_def, Option.bind_eq_some_iff, Option.some.injEq] at h
      obtain ⟨r, found, rfl⟩ := h
      obtain ⟨size, repeats⟩ := elementSize_spec v
      generalize elementSize v = e at *
      have pos := size_pos size
      have bound := size_le size
      have rotation : r < e := by
        have := List.mem_of_find?_eq_some found
        simpa using this
      have element : rotateRight (onesBelow (Bits.ones (v &&& onesBelow e))) r e = v &&& onesBelow e := by
        simpa using List.find?_some found
      generalize Bits.ones (v &&& onesBelow e) = k at *
      have value : v = pattern e k r := by rw [pattern, element, replicate_element pos repeats]
      -- a run that is empty or fills the element is one of the two values that are refused first
      have bit : ∀ i < 64, v.getLsbD i = decide ((i + r) % e < k) := fun i hi => by
        rw [value, getLsbD_pattern size rotation hi]
      have run : IsRun e k r := by
        refine ⟨size, Nat.pos_of_ne_zero fun none => ?_, Nat.lt_of_not_le fun all => ?_, rotation⟩
        · refine mixed (.inl (BitVec.eq_of_getLsbD_eq fun i hi => ?_))
          simp [bit i hi, none]
        · refine mixed (.inr (BitVec.eq_of_getLsbD_eq fun i hi => ?_))
          have := Nat.mod_lt (i + r) pos
          rw [bit i hi, BitVec.getLsbD_allOnes, decide_eq_true hi, decide_eq_true (by omega)]
      refine ⟨e, k, r, run, value, ?_⟩
      rw [code, wideField, lengthField]
  · rintro ⟨e, k, r, run, rfl, rfl⟩
    simp only [encode?, widen?, show ¬ (64 = 32) by decide, if_false, Option.bind_eq_bind, Option.bind_some,
      run.pattern_ne_zero, run.pattern_ne_allOnes, or_self, run.elementSize_eq, run.ones_element, run.find_rotation,
      Option.pure_def]
    rw [code, wideField, lengthField]

/-- **What an encoding stands for**: the pattern of the run whose code it is, up to the rotation field. -/
theorem decode?_eq_some_iff {n : Nat} (hn : n < 8192) {v : BitVec 64} {e : Nat} :
    decode? n 64 = some (v, e) ↔ ∃ k q, q < 64 ∧ IsRun e k (q % e) ∧ v = pattern e k (q % e) ∧ n = code e k q := by
  constructor
  · intro h
    simp only [decode?, show ¬ (64 = 32) by decide, false_and, if_false] at h
    split at h
    · cases h
    · rename_i some
      -- what is decoded has a size, and not all bits of the element set, so its fields are those of a run
      split at h
      · cases h
      · rename_i proper
        simp only [Option.some.injEq, Prod.mk.injEq] at h
        obtain ⟨value, same⟩ := h
        rw [same] at proper value
        obtain ⟨size, wide, length⟩ :=
          fields_eq_code (Nat.mod_lt (n / 4096) (by decide)) (Nat.mod_lt n (by decide)) (by omega)
            (by rw [fieldSize, same]; exact proper)
        rw [fieldSize, same] at size wide length
        have pos := size_pos size
        have lt := Nat.mod_lt (n % 64) pos
        have split : n = n / 4096 % 2 * 4096 + n / 64 % 64 * 64 + n % 64 := by omega
        refine ⟨n % 64 % e + 1, n / 64 % 64, by omega, ?_, ?_, ?_⟩
        · exact ⟨size, by omega, by omega, Nat.mod_lt _ pos⟩
        · exact value.symm
        · rw [code, ← wide, ← length]
          exact split
  · rintro ⟨k, q, hq, run, rfl, rfl⟩
    obtain ⟨wide, rotation, length⟩ := code_fields run.size run.proper hq
    obtain ⟨some, size, one⟩ := fieldSize_code run.size run.proper run.nonempty
    have proper := run.proper
    have nonempty := run.nonempty
    rw [fieldSize] at size
    simp only [decode?, show ¬ (64 = 32) by decide, false_and, if_false, wide, rotation, length, size, one,
      show ¬ (wideField e * 64 + (63 - lengthField e k) ≤ 1) by omega, show ¬ (k - 1 = e - 1) by omega,
      show k - 1 + 1 = k by omega]
    rfl

/-- An encoding has thirteen bits. -/
theorem encode?_lt {v : BitVec 64} {n : Nat} (h : encode? v 64 = some n) : n < 8192 := by
  obtain ⟨e, k, r, run, -, rfl⟩ := encode?_eq_some_iff.mp h
  have := size_le run.size
  have := run.rotation
  exact code_lt run.size run.proper (by omega)

/-- The element of a decoded value is its smallest period. -/
theorem decode?_period {n : Nat} (hn : n < 8192) {v : BitVec 64} {e : Nat} (h : decode? n 64 = some (v, e)) :
    e ∈ sizes ∧ elementSize v = e ∧ ∀ d ∈ sizes, e ≤ d → replicate v d = v := by
  obtain ⟨k, q, -, run, rfl, -⟩ := (decode?_eq_some_iff hn).mp h
  exact ⟨run.size, run.elementSize_eq, fun _ hd le => run.replicate_pattern hd le⟩

/-! ## Round trips -/

/-- **The encoding with its rotation reduced** modulo an element size. -/
def reduceRotation (e n : Nat) : Nat := n / 4096 % 2 * 4096 + n / 64 % 64 % e * 64 + n % 64

theorem reduceRotation_code {e k q : Nat} (he : e ∈ sizes) (hk : k < e) (hq : q < 64) :
    reduceRotation e (code e k q) = code e k (q % e) := by
  obtain ⟨wide, rotation, length⟩ := code_fields he hk hq
  rw [reduceRotation, wide, rotation, length, code]

/-- A 32-bit value is encoded as the 64-bit value that repeats it. -/
theorem encode?_word (v : BitVec 64) :
    encode? v 32 = if v >>> 32 = 0 then encode? (replicate v 32) 64 else none := by
  by_cases narrow : v >>> 32 = 0
  · have doubled : v ||| v <<< 32 = replicate v 32 := by
      apply BitVec.eq_of_getLsbD_eq
      intro i hi
      rw [getLsbD_replicate v (by decide) hi, BitVec.getLsbD_or, BitVec.getLsbD_shiftLeft]
      by_cases low : i < 32
      · simp [low, Nat.mod_eq_of_lt low]
      · rw [getLsbD_of_narrow narrow (by omega), Bool.false_or, show i % 32 = i - 32 by omega]
        simp [low, hi]
    rw [if_pos narrow, ← doubled, encode?, encode?, widen?, widen?, if_pos rfl, if_pos narrow, if_neg (by decide)]
  · rw [if_neg narrow, encode?, widen?, if_pos rfl, if_neg narrow]
    rfl

/-- A 32-bit value is decoded as the lower half of the 64-bit value; an element of 64 bits is reserved. -/
theorem decode?_word (n : Nat) :
    decode? n 32 =
      if n / 4096 % 2 = 0 then (decode? n 64).map fun p => (p.1 &&& onesBelow 32, p.2) else none := by
  by_cases narrow : n / 4096 % 2 = 0
  · simp only [decode?, narrow, ne_eq, not_true_eq_false, and_false, if_false, if_true,
      show ¬ (64 = 32) by decide]
    split
    · rfl
    · split <;> rfl
  · simp [decode?, narrow]

/-- An encoding has thirteen bits, whatever the register. -/
theorem encode?_bits {v : BitVec 64} {n size : Nat} (hs : size = 32 ∨ size = 64) (h : encode? v size = some n) :
    n < 8192 := by
  rcases hs with rfl | rfl
  · rw [encode?_word] at h
    split at h
    · exact encode?_lt h
    · cases h
  · exact encode?_lt h

/-- The code of a run is read as its pattern. -/
theorem IsRun.decode?_code {e k r : Nat} (h : IsRun e k r) : decode? (code e k r) 64 = some (pattern e k r, e) := by
  have := BitmaskImmediate.size_le h.size
  have := h.rotation
  refine (decode?_eq_some_iff (code_lt h.size h.proper (by omega))).mpr ⟨k, r, by omega, ?_⟩
  rw [Nat.mod_eq_of_lt h.rotation]
  exact ⟨h, rfl, rfl⟩

/-- **An encoded value is read back.** -/
theorem decode?_of_encode? {v : BitVec 64} {n size : Nat} (hs : size = 32 ∨ size = 64)
    (h : encode? v size = some n) : ∃ e, decode? n size = some (v, e) := by
  rcases hs with rfl | rfl
  · rw [encode?_word] at h
    split at h
    · rename_i narrow
      obtain ⟨e, k, r, run, value, rfl⟩ := encode?_eq_some_iff.mp h
      -- the repeated value has a period of 32 bits, so that its element has no more
      have small : e ≤ 32 := by
        rw [← run.elementSize_eq, ← value]
        exact elementSize_le (by decide) (replicate_replicate v (by decide) (by decide))
      have short : wideField e = 0 := by rw [wideField, if_neg (by omega)]
      have rotation := run.rotation
      obtain ⟨wide, -, -⟩ := code_fields (q := r) run.size run.proper (by omega)
      refine ⟨e, ?_⟩
      rw [decode?_word, wide, if_pos short, run.decode?_code, Option.map_some, ← value,
        replicate_low v (Nat.le_refl 32) (by decide), and_onesBelow_of_narrow narrow]
    · cases h
  · obtain ⟨e, k, r, run, rfl, rfl⟩ := encode?_eq_some_iff.mp h
    exact ⟨e, run.decode?_code⟩

/-- **A decoded value is encoded again** by the same encoding, with its rotation reduced. -/
theorem encode?_of_decode? {v : BitVec 64} {n size e : Nat} (hs : size = 32 ∨ size = 64) (hn : n < 8192)
    (h : decode? n size = some (v, e)) : encode? v size = some (reduceRotation e n) := by
  rcases hs with rfl | rfl
  · rw [decode?_word] at h
    split at h
    · rename_i narrow
      obtain ⟨⟨full, e'⟩, read, same⟩ := Option.map_eq_some_iff.mp h
      simp only [Prod.mk.injEq] at same
      obtain ⟨rfl, rfl⟩ := same
      obtain ⟨k, q, hq, run, rfl, rfl⟩ := (decode?_eq_some_iff hn).mp read
      obtain ⟨wide, -, -⟩ := code_fields run.size run.proper hq
      -- an element of 64 bits has the field that a 32-bit register reserves
      have small : e' ≤ 32 := by
        have cases : ∀ e ∈ sizes, e ≤ 32 ∨ e = 64 := by decide
        rcases cases e' run.size with small | rfl
        · exact small
        · rw [wide] at narrow
          cases narrow
      have whole : replicate (pattern e' k (q % e') &&& onesBelow 32) 32 = pattern e' k (q % e') :=
        replicate_element (by decide) (run.replicate_pattern (by decide) small)
      rw [encode?_word, if_pos (narrow_and_onesBelow _), whole, reduceRotation_code run.size run.proper hq]
      exact encode?_eq_some_iff.mpr ⟨_, _, _, run, rfl, rfl⟩
    · cases h
  · obtain ⟨k, q, hq, run, rfl, rfl⟩ := (decode?_eq_some_iff hn).mp h
    rw [reduceRotation_code run.size run.proper hq]
    exact encode?_eq_some_iff.mpr ⟨_, _, _, run, rfl, rfl⟩

end ArmToolkit.A64.BitmaskImmediate
