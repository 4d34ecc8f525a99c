import ArmToolkit.A64.Operand
import ArmToolkit.Proofs.RotatedRuns

/-!
# `Proofs.BitmaskCodes` — which values have an encoding, and which encodings have a value in common

A bitmask immediate is a rotated run of ones, repeated until the register is full. This module says so bit by bit, without
the arithmetic that encodes it, for registers of both widths.

## Contents
- **Values.** `RepeatsRun`: a value is made of one rotated run. It has an encoding exactly if it is (`encode?_isSome_iff`).
- **Encodings.** Two encodings stand for the same value exactly if they differ in the part of the rotation that the
  element size takes away (`value_eq_iff`).
- `Width.bitmasks_characterized` puts both together with the two round trips.
-/

namespace ArmToolkit.A64

namespace BitmaskImmediate

/-! ## Values -/

/-- **A value of `size` bits that repeats a rotated run of ones.** Filling 64 bits with the value sets bit `i` exactly where
    its place in the element, moved up by the rotation `r`, is among the `k` places of the run. -/
def RepeatsRun (size : Nat) (v : BitVec 64) : Prop :=
  v.toNat < twoPow size ∧ ∃ e k r, IsRun e k r ∧ ∀ i < 64, v.getLsbD (i % size) = decide ((i + r) % e < k)

/-- A value is the pattern of a run if it has its bits. -/
theorem IsRun.eq_pattern_iff {e k r : Nat} (h : IsRun e k r) {v : BitVec 64} :
    v = pattern e k r ↔ ∀ i < 64, v.getLsbD i = decide ((i + r) % e < k) := by
  constructor
  · rintro rfl i hi
    exact getLsbD_pattern h.size h.rotation hi
  · intro bits
    apply BitVec.eq_of_getLsbD_eq
    intro i hi
    rw [bits i hi, getLsbD_pattern h.size h.rotation hi]

/-- What is shifted out of a value is zero if the value is below the power of two. -/
theorem ushiftRight_eq_zero_iff (v : BitVec 64) : v >>> 32 = 0 ↔ v.toNat < twoPow 32 := by
  rw [← BitVec.toNat_inj, BitVec.toNat_ushiftRight, Nat.shiftRight_eq_div_pow]
  show v.toNat / twoPow 32 = 0 ↔ _
  rw [Nat.div_eq_zero_iff]
  have := twoPow_pos 32
  omega

/-- **The encoding of a value is that of the 64 bits it fills.** -/
theorem encode?_width (width : Width) (v : BitVec 64) :
    encode? v width.bits = if v.toNat < twoPow width.bits then encode? (replicate v width.bits) 64 else none := by
  cases width with
  | w =>
    show encode? v 32 = if v.toNat < twoPow 32 then encode? (replicate v 32) 64 else none
    simp only [encode?_word, ushiftRight_eq_zero_iff]
  | x =>
    have whole : replicate v 64 = v := by
      apply BitVec.eq_of_getLsbD_eq
      intro i hi
      rw [getLsbD_replicate v (by decide) hi, Nat.mod_eq_of_lt hi]
    show encode? v 64 = if v.toNat < twoPow 64 then encode? (replicate v 64) 64 else none
    have small : v.toNat < twoPow 64 := v.isLt
    rw [if_pos small, whole]

/-- **A value has an encoding exactly if it repeats a rotated run.** -/
theorem encode?_isSome_iff (width : Width) (v : BitVec 64) :
    (encode? v width.bits).isSome = true ↔ RepeatsRun width.bits v := by
  have pos : 0 < width.bits := by cases width <;> decide
  -- the bits of the filled register are those of the value, over and over
  have filled : ∀ e k r, IsRun e k r →
      (replicate v width.bits = pattern e k r ↔ ∀ i < 64, v.getLsbD (i % width.bits) = decide ((i + r) % e < k)) := by
    intro e k r run
    rw [run.eq_pattern_iff]
    constructor
    · intro bits i hi
      rw [← bits i hi, getLsbD_replicate v pos hi]
    · intro bits i hi
      rw [getLsbD_replicate v pos hi, bits i hi]
  rw [encode?_width, RepeatsRun]
  by_cases small : v.toNat < twoPow width.bits
  · rw [if_pos small, Option.isSome_iff_exists]
    constructor
    · rintro ⟨n, encoded⟩
      obtain ⟨e, k, r, run, value, -⟩ := encode?_eq_some_iff.mp encoded
      exact ⟨small, e, k, r, run, (filled e k r run).mp value⟩
    · rintro ⟨-, e, k, r, run, bits⟩
      exact ⟨code e k r, encode?_eq_some_iff.mpr ⟨e, k, r, run, (filled e k r run).mpr bits, rfl⟩⟩
  · simp [small]

/-! ## Encodings -/

/-- The size of a register of either width. -/
theorem width_bits (width : Width) : width.bits = 32 ∨ width.bits = 64 := by cases width <;> simp [Width.bits]

/-- **Two encodings stand for the same value** exactly if they are the same once their rotations are reduced. -/
theorem value_eq_iff {width : Width} {m n d e : Nat} {u v : BitVec 64} (hm : m < 8192) (hn : n < 8192)
    (first : decode? m width.bits = some (u, d)) (second : decode? n width.bits = some (v, e)) :
    u = v ↔ reduceRotation d m = reduceRotation e n := by
  have first := encode?_of_decode? (width_bits width) hm first
  have second := encode?_of_decode? (width_bits width) hn second
  constructor
  · rintro rfl
    exact Option.some.inj (first.symm.trans second)
  · intro same
    -- what the reduced encoding is read as is the value of either
    obtain ⟨c, read⟩ := decode?_of_encode? (width_bits width) first
    obtain ⟨c', read'⟩ := decode?_of_encode? (width_bits width) second
    rw [same, read'] at read
    simp only [Option.some.injEq, Prod.mk.injEq] at read
    exact read.1.symm

end BitmaskImmediate

open BitmaskImmediate

/-- **The bitmask immediates of a register are the rotated runs.** Exactly the values that repeat one are encoded, and the
    encoding is read back as the value. Every encoding of thirteen bits that is read as a value is the encoding of that value
    but for a multiple of the element size in its rotation, and this is all in which the encodings of a value differ. -/
theorem Width.bitmasks_characterized (width : Width) :
    (∀ v, (encode? v width.bits).isSome = true ↔ RepeatsRun width.bits v) ∧
      (∀ v n, encode? v width.bits = some n → n < 8192 ∧ ∃ e, decode? n width.bits = some (v, e)) ∧
      (∀ n < 8192, ∀ v e, decode? n width.bits = some (v, e) → encode? v width.bits = some (reduceRotation e n)) ∧
      ∀ m < 8192, ∀ n < 8192, ∀ u v d e, decode? m width.bits = some (u, d) → decode? n width.bits = some (v, e) →
        (u = v ↔ reduceRotation d m = reduceRotation e n) := by
  refine ⟨encode?_isSome_iff width, ?_, ?_, ?_⟩
  · intro v n encoded
    exact ⟨encode?_bits (width_bits width) encoded, decode?_of_encode? (width_bits width) encoded⟩
  · intro n hn v e read
    exact encode?_of_decode? (width_bits width) hn read
  · intro m hm n hn u v d e first second
    exact value_eq_iff hm hn first second

/-- The two bits at the ends of a 32-bit register are one run that went round. Its rotation is 1, or 33 all the same. -/
theorem Width.bitmasks_characterized_ends :
    decode? 2113 Width.w.bits = some (0x80000001, 32) ∧ decode? 65 Width.w.bits = some (0x80000001, 32) ∧
      RepeatsRun 32 0x80000001 ∧ encode? 0x80000001 32 = some (reduceRotation 32 2113) ∧
      reduceRotation 32 2113 = reduceRotation 32 65 := by
  obtain ⟨runs, -, encoded, same⟩ := bitmasks_characterized .w
  have high : decode? 2113 Width.w.bits = some (0x80000001, 32) := by decide
  have low : decode? 65 Width.w.bits = some (0x80000001, 32) := by decide
  have back := encoded 2113 (by decide) _ _ high
  refine ⟨high, low, (runs _).mp ?_, back, (same _ (by decide) _ (by decide) _ _ _ _ high low).mp rfl⟩
  rw [back]
  rfl

end ArmToolkit.A64
