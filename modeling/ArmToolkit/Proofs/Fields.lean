import ArmToolkit.A64.Field
import Mathlib.Data.List.Forall2

/-!
# `Proofs.Fields` — words read and written field by field

## Contents
- **Bits of fields.** `Field.getLsbD_mask`, `Field.getLsbD_put`, `Field.testBit_get`: which bits a field takes up, what
  `put` sets and what `get` reads. `Field.put_get` and `Field.get_put` are the two round trips of one field.
- **Holding.** `Holds fs ns w` says that the word `w` has the numbers `ns` in the fields `fs`, up to the width of each.
  A word that holds numbers agrees with `putAll` on the covered bits (`putAll_of_holds`), and `putAll` over an opcode
  that is clear there holds them (`holds_putAll`) where no two fields meet.
-/

namespace ArmToolkit.A64

/-! ## Bits of fields -/

namespace Field

/-- Whether a bit lies in the field. -/
def has (f : Field) (j : Nat) : Bool := decide (f.lsb ≤ j ∧ j < f.lsb + f.width)

/-- **Two fields share no bit.** -/
def Apart (f g : Field) : Prop := f.lsb + f.width ≤ g.lsb ∨ g.lsb + g.width ≤ f.lsb

instance (f g : Field) : Decidable (f.Apart g) := inferInstanceAs (Decidable (_ ∨ _))

/-- The field lies in the word. -/
def Inside (f : Field) : Prop := f.lsb + f.width ≤ 32

instance (f : Field) : Decidable f.Inside := inferInstanceAs (Decidable (_ ≤ _))

theorem Apart.symm {f g : Field} (h : f.Apart g) : g.Apart f := Or.symm h

theorem Apart.not_has {f g : Field} (h : f.Apart g) {j : Nat} (hj : f.has j = true) : g.has j = false := by
  simp only [has, decide_eq_true_eq, decide_eq_false_iff_not] at hj ⊢
  rcases h with h | h <;> omega

theorem getLsbD_mask (f : Field) {j : Nat} (hj : j < 32) : f.mask.getLsbD j = f.has j := by
  have ones : (twoPow f.width - 1).testBit (j - f.lsb) = decide (j - f.lsb < f.width) :=
    Nat.testBit_two_pow_sub_one f.width (j - f.lsb)
  rw [mask, BitVec.getLsbD_ofNat, Nat.testBit_shiftLeft, ones, has]
  by_cases hlo : f.lsb ≤ j
  · have : j - f.lsb < f.width ↔ j < f.lsb + f.width := by omega
    simp [hj, hlo, this]
  · simp [hlo]

theorem getLsbD_put (f : Field) (n : Nat) {j : Nat} (hj : j < 32) :
    (f.put n).getLsbD j = (f.has j && n.testBit (j - f.lsb)) := by
  have low : (n % twoPow f.width).testBit (j - f.lsb) = (decide (j - f.lsb < f.width) && n.testBit (j - f.lsb)) :=
    Nat.testBit_mod_two_pow n f.width (j - f.lsb)
  rw [put, BitVec.getLsbD_ofNat, Nat.testBit_shiftLeft, low, has]
  by_cases hlo : f.lsb ≤ j
  · have : j - f.lsb < f.width ↔ j < f.lsb + f.width := by omega
    simp [hj, hlo, this]
  · simp [hlo]

theorem testBit_get (f : Field) (w : Word) (i : Nat) :
    (f.get w).testBit i = (decide (i < f.width) && w.getLsbD (f.lsb + i)) := by
  rw [get, BitVec.testBit_toNat, BitVec.getLsbD_extractLsb']

theorem get_lt (f : Field) (w : Word) : f.get w < twoPow f.width := (w.extractLsb' f.lsb f.width).isLt

/-- Only the lowest bits of a number reach the field. -/
theorem put_mod (f : Field) (n : Nat) : f.put (n % twoPow f.width) = f.put n := by rw [put, Nat.mod_mod, put]

/-- What a field holds, put back, is the part of the word in the field. -/
theorem put_get (f : Field) (w : Word) : f.put (f.get w) = w &&& f.mask := by
  apply BitVec.eq_of_getLsbD_eq
  intro j hj
  rw [getLsbD_put f _ hj, testBit_get, BitVec.getLsbD_and, getLsbD_mask f hj]
  by_cases h : f.has j = true
  · have place := h
    simp only [has, decide_eq_true_eq] at place
    simp [h, show j - f.lsb < f.width by omega, show f.lsb + (j - f.lsb) = j by omega]
  · simp [h]

/-- The field is read from its own bits alone. -/
theorem get_congr {f : Field} {v w : Word} (h : ∀ j < 32, f.has j = true → v.getLsbD j = w.getLsbD j) :
    f.get v = f.get w := by
  apply Nat.eq_of_testBit_eq
  intro i
  rw [testBit_get, testBit_get]
  by_cases hi : i < f.width
  · by_cases inside : f.lsb + i < 32
    · rw [h _ inside (by simp only [has, decide_eq_true_eq]; omega)]
    · rw [BitVec.getLsbD_of_ge v _ (by omega), BitVec.getLsbD_of_ge w _ (by omega)]
  · simp [hi]

/-- A number put into a field inside the word is read back up to the width of the field. -/
theorem get_put {f : Field} (inside : f.Inside) (n : Nat) : f.get (f.put n) = n % twoPow f.width := by
  apply Nat.eq_of_testBit_eq
  intro i
  have low : (n % twoPow f.width).testBit i = (decide (i < f.width) && n.testBit i) :=
    Nat.testBit_mod_two_pow n f.width i
  rw [testBit_get, low]
  by_cases hi : i < f.width
  · have hj : f.lsb + i < 32 := Nat.lt_of_lt_of_le (Nat.add_lt_add_left hi _) inside
    rw [getLsbD_put f n hj]
    simp [has, hi]
  · simp [hi]

/-- The word with another number in the field. -/
def set (f : Field) (n : Nat) (w : Word) : Word := (w &&& ~~~f.mask) ||| f.put n

theorem getLsbD_set (f : Field) (n : Nat) (w : Word) {j : Nat} (hj : j < 32) :
    (f.set n w).getLsbD j = if f.has j = true then n.testBit (j - f.lsb) else w.getLsbD j := by
  rw [set, BitVec.getLsbD_or, BitVec.getLsbD_and, BitVec.getLsbD_not, getLsbD_mask f hj, getLsbD_put f n hj]
  by_cases h : f.has j = true
  · simp [h]
  · simp [h, hj]

theorem get_set {f : Field} (inside : f.Inside) (n : Nat) (w : Word) : f.get (f.set n w) = n % twoPow f.width := by
  rw [← get_put inside]
  apply get_congr
  intro j hj has
  rw [getLsbD_set f n w hj, if_pos has, getLsbD_put f n hj, has, Bool.true_and]

/-- A field replaced leaves the others as they are. -/
theorem get_set_of_apart {f g : Field} (apart : f.Apart g) (n : Nat) (w : Word) : g.get (f.set n w) = g.get w := by
  apply get_congr
  intro j hj has
  rw [getLsbD_set f n w hj, if_neg (by rw [apart.symm.not_has has]; decide)]

/-- A field of `k` bits is cut into its lowest `i` bits and the rest. -/
theorem get_split (lsb i k : Nat) (w : Word) :
    Field.get ⟨lsb, i + k⟩ w = twoPow i * Field.get ⟨lsb + i, k⟩ w + Field.get ⟨lsb, i⟩ w := by
  have low : Field.get ⟨lsb, i⟩ w = Field.get ⟨lsb, i + k⟩ w % twoPow i := by
    apply Nat.eq_of_testBit_eq
    intro j
    have : (Field.get ⟨lsb, i + k⟩ w % twoPow i).testBit j = _ := Nat.testBit_mod_two_pow _ i j
    rw [this, testBit_get, testBit_get]
    by_cases hj : j < i
    · simp [hj, show j < i + k by omega]
    · simp [hj]
  -- the whole field is `high * 2 ^ i + low`
  have high : Field.get ⟨lsb + i, k⟩ w = Field.get ⟨lsb, i + k⟩ w / twoPow i := by
    apply Nat.eq_of_testBit_eq
    intro j
    have : (Field.get ⟨lsb, i + k⟩ w / twoPow i).testBit j = _ := Nat.testBit_div_two_pow _ j
    rw [this, testBit_get, testBit_get]
    by_cases hj : j < k
    · simp [hj, show i + j < i + k by omega, Nat.add_assoc, Nat.add_comm j i]
    · simp [hj, show ¬ j + i < i + k by omega]
  rw [low, high, Nat.div_add_mod]

end Field

/-! ## Holding -/

theorem getLsbD_coverage (fs : List Field) {j : Nat} (hj : j < 32) :
    (coverage fs).getLsbD j = fs.any fun f => f.has j := by
  induction fs with
  | nil => simp [coverage]
  | cons f fs ih =>
    show (f.mask ||| coverage fs).getLsbD j = _
    rw [BitVec.getLsbD_or, Field.getLsbD_mask f hj, ih, List.any_cons]

/-- **The word holds the numbers in the fields**, each up to the width of its field. -/
def Holds (fs : List Field) (ns : List Nat) (w : Word) : Prop :=
  List.Forall₂ (fun f n => f.get w = n % twoPow f.width) fs ns

theorem Holds.append {fs gs : List Field} {ns ms : List Nat} {w : Word} (h : Holds fs ns w) (k : Holds gs ms w) :
    Holds (fs ++ gs) (ns ++ ms) w := by
  induction h with
  | nil => exact k
  | cons head _ ih => exact .cons head ih

theorem Holds.of_append {fs gs : List Field} {ns ms : List Nat} {w : Word} (h : Holds (fs ++ gs) (ns ++ ms) w)
    (len : fs.length = ns.length) : Holds fs ns w ∧ Holds gs ms w := by
  induction fs generalizing ns with
  | nil =>
    have : ns = [] := List.eq_nil_of_length_eq_zero len.symm
    subst this
    exact ⟨List.Forall₂.nil, h⟩
  | cons f fs ih =>
    cases ns with
    | nil => simp at len
    | cons n ns =>
      obtain ⟨head, tail⟩ := List.forall₂_cons.mp h
      obtain ⟨first, rest⟩ := ih tail (by simpa using len)
      exact ⟨List.Forall₂.cons head first, rest⟩

/-- A word that agrees with another in the fields holds the same numbers. -/
theorem Holds.congr {fs : List Field} {ns : List Nat} {v w : Word} (h : Holds fs ns v)
    (same : ∀ f ∈ fs, f.get w = f.get v) : Holds fs ns w := by
  induction h with
  | nil => exact List.Forall₂.nil
  | cons head _ ih =>
    refine List.Forall₂.cons ?_ (ih fun f hf => same f (List.mem_cons_of_mem _ hf))
    rw [same _ List.mem_cons_self, head]

theorem holds_nil (w : Word) : Holds [] [] w := List.Forall₂.nil

theorem holds_one {f : Field} {n : Nat} {w : Word} : Holds [f] [n] w ↔ f.get w = n % twoPow f.width := by
  simp [Holds]

/-- A field holds what is read from it. -/
theorem holds_get (f : Field) (w : Word) : Holds [f] [f.get w] w :=
  holds_one.mpr (Nat.mod_eq_of_lt (f.get_lt w)).symm

/-- **Numbers that a word holds, put back, are the covered part of the word.** -/
theorem putAll_of_holds {fs : List Field} {ns : List Nat} {w : Word} (h : Holds fs ns w) :
    putAll fs ns = w &&& coverage fs := by
  induction h with
  | nil => simp [putAll, coverage]
  | @cons f n fs ns head _ ih =>
    have first : f.put n = w &&& f.mask := by rw [← Field.put_mod, ← head, Field.put_get]
    show f.put n ||| putAll fs ns = w &&& (f.mask ||| coverage fs)
    rw [first, ih]
    apply BitVec.eq_of_getLsbD_eq
    intro j _
    simp only [BitVec.getLsbD_or, BitVec.getLsbD_and, Bool.and_or_distrib_left]

/-- `putAll` sets covered bits alone. -/
theorem getLsbD_putAll_of_uncovered {fs : List Field} {j : Nat} (hj : j < 32) (h : ∀ f ∈ fs, f.has j = false)
    (ns : List Nat) : (putAll fs ns).getLsbD j = false := by
  induction fs generalizing ns with
  | nil => simp [putAll]
  | cons f fs ih =>
    cases ns with
    | nil => simp [putAll]
    | cons n ns =>
      show (f.put n ||| putAll fs ns).getLsbD j = false
      rw [BitVec.getLsbD_or, Field.getLsbD_put f n hj, h f List.mem_cons_self,
        ih (fun g hg => h g (List.mem_cons_of_mem f hg))]
      rfl

/-- Bits that are set lie outside every field of a list that avoids them. -/
def Clear (fs : List Field) (w : Word) : Prop := w &&& coverage fs = 0

instance (fs : List Field) (w : Word) : Decidable (Clear fs w) := inferInstanceAs (Decidable (_ = _))

theorem Clear.getLsbD {fs : List Field} {w : Word} (h : Clear fs w) {f : Field} (hf : f ∈ fs) {j : Nat} (hj : j < 32)
    (has : f.has j = true) : w.getLsbD j = false := by
  have zero : (w &&& coverage fs).getLsbD j = false := by rw [h]; simp
  have covered : (fs.any fun f => f.has j) = true := List.any_eq_true.mpr ⟨f, hf, has⟩
  rwa [BitVec.getLsbD_and, getLsbD_coverage fs hj, covered, Bool.and_true] at zero

/-- **A word that is clear in the fields, with numbers put into them, holds the numbers.** -/
theorem holds_putAll {fs : List Field} {ns : List Nat} {o : Word} (apart : fs.Pairwise Field.Apart)
    (inside : ∀ f ∈ fs, f.Inside) (clear : Clear fs o) (len : fs.length = ns.length) :
    Holds fs ns (o ||| putAll fs ns) := by
  -- the fields in front are part of the word that the rest is put over
  suffices general : ∀ (base : Word), (∀ f ∈ fs, ∀ j < 32, f.has j = true → base.getLsbD j = false) →
      Holds fs ns (base ||| putAll fs ns) from
    general o fun f hf j hj has => clear.getLsbD hf hj has
  clear clear
  induction fs generalizing ns with
  | nil =>
    intro base _
    rw [List.eq_nil_of_length_eq_zero len.symm]
    exact holds_nil _
  | cons f fs ih =>
    intro base avoids
    cases ns with
    | nil => simp at len
    | cons n ns =>
      obtain ⟨first, apart⟩ := List.pairwise_cons.mp apart
      have whole : base ||| putAll (f :: fs) (n :: ns) = (base ||| f.put n) ||| putAll fs ns :=
        (BitVec.or_assoc base (f.put n) (putAll fs ns)).symm
      refine List.Forall₂.cons ?_ ?_
      -- neither the word below nor the later numbers have bits in the first field
      · rw [← Field.get_put (inside f List.mem_cons_self) n]
        apply Field.get_congr
        intro j hj has
        rw [whole, BitVec.getLsbD_or, BitVec.getLsbD_or, avoids f List.mem_cons_self j hj has,
          getLsbD_putAll_of_uncovered hj (fun g hg => (first g hg).not_has has), Bool.false_or, Bool.or_false]
      · rw [whole]
        refine ih apart (fun g hg => inside g (List.mem_cons_of_mem f hg)) (by simpa using len) _ ?_
        intro g hg j hj has
        rw [BitVec.getLsbD_or, avoids g (List.mem_cons_of_mem f hg) j hj has, Field.getLsbD_put f n hj,
          (first g hg).symm.not_has has]
        rfl

/-- The bits outside the fields are those of the word that the numbers were put over. -/
theorem uncovered_putAll {fs : List Field} {o : Word} (clear : Clear fs o) (ns : List Nat) :
    (o ||| putAll fs ns) &&& ~~~coverage fs = o := by
  apply BitVec.eq_of_getLsbD_eq
  intro j hj
  rw [BitVec.getLsbD_and, BitVec.getLsbD_or, BitVec.getLsbD_not, getLsbD_coverage fs hj]
  by_cases h : ∃ f ∈ fs, f.has j = true
  -- a covered bit is masked out, and was clear; any other is not put
  · obtain ⟨f, hf, has⟩ := h
    have covered : (fs.any fun f => f.has j) = true := List.any_eq_true.mpr ⟨f, hf, has⟩
    simp [covered, clear.getLsbD hf hj has]
  · have free : ∀ f ∈ fs, f.has j = false := fun f hf => by
      cases has : f.has j with
      | false => rfl
      | true => exact absurd ⟨f, hf, has⟩ h
    have uncovered : (fs.any fun f => f.has j) = false := List.any_eq_false.mpr fun f hf => by simp [free f hf]
    rw [uncovered, getLsbD_putAll_of_uncovered hj free]
    simp [hj]

/-- A word is its covered bits over the others. -/
theorem covered_or_uncovered (fs : List Field) (w : Word) : (w &&& ~~~coverage fs) ||| (w &&& coverage fs) = w := by
  apply BitVec.eq_of_getLsbD_eq
  intro j hj
  simp only [BitVec.getLsbD_or, BitVec.getLsbD_and, BitVec.getLsbD_not, hj, decide_true, Bool.true_and]
  cases w.getLsbD j <;> cases (coverage fs).getLsbD j <;> rfl

end ArmToolkit.A64
