import ArmToolkit.Proofs.DecodedChecks

/-!
# `Proofs.Decoded` — a decoded instruction is encoded again

## Contents
- **Decoding.** `Instruction.Decodes f lane w ops`: what a successful decoding has read.
- **Reduced words.** `Form.reduced` is the word with the rotation of a bitmask immediate reduced modulo its element size;
  every other word is left as it is.
- **Encoding.** `Instruction.Decodes.encode`: the decoded instruction is encoded, and its word is the reduced one.
-/

namespace ArmToolkit

theorem Condition.code_ofCode {n : Nat} (h : n < 16) : (Condition.ofCode n).code = n := by
  have all : ∀ n : Fin 16, (Condition.ofCode n).code = n := by decide
  exact all ⟨n, h⟩

end ArmToolkit

namespace ArmToolkit.A64

/-! ## Decoding -/

/-- A list is read as a whole where every place of it is. -/
theorem mapM_eq_some {α β : Type} {g : α → Option β} {xs : List α} {ys : List β} :
    xs.mapM g = some ys ↔ List.Forall₂ (fun x y => g x = some y) xs ys := by
  induction xs generalizing ys with
  | nil => simp [eq_comm]
  | cons x xs ih =>
    rw [List.mapM_cons]
    constructor
    · intro h
      obtain ⟨y, hy, rest⟩ := Option.bind_eq_some_iff.mp h
      obtain ⟨zs, hzs, same⟩ := Option.bind_eq_some_iff.mp rest
      cases same
      exact .cons hy (ih.mp hzs)
    · intro h
      cases h with
      | cons head tail =>
        rw [head, ih.mpr tail]
        rfl

namespace Instruction

/-- **What a successful decoding has read**: the form, the lane size and the operands of the word. -/
structure Decodes (f : Form) (lane : Option LaneSize) (w : Word) (ops : List Operand) : Prop where
  form : f.Matches w
  size : f.sizing.read? w = some lane
  allowed : f.allows lane = true
  operands : List.Forall₂ (fun s op => Slot.read? s lane w = some op) f.slots ops

theorem operands?_eq_some_iff {f : Form} {w : Word} {ops : List Operand} :
    operands? f w = some ops ↔ ∃ lane, f.sizing.read? w = some lane ∧ f.allows lane = true ∧
      List.Forall₂ (fun s op => Slot.read? s lane w = some op) f.slots ops := by
  have whole : operands? f w = (f.sizing.read? w).bind fun lane =>
      if f.allows lane = true then f.slots.mapM fun s => s.read? lane w else none := rfl
  rw [whole, Option.bind_eq_some_iff]
  constructor
  · rintro ⟨lane, size, read⟩
    split at read
    · rename_i allows
      exact ⟨lane, size, allows, mapM_eq_some.mp read⟩
    · cases read
  · rintro ⟨lane, size, allows, row⟩
    exact ⟨lane, size, by rw [if_pos allows, mapM_eq_some.mpr row]⟩

/-- **Decoding succeeds where a form matches and its operands can be read.** -/
theorem decode_eq_ok_iff {w : Word} {inst : Instruction} :
    decode w = .ok inst ↔ ∃ f lane ops, Decodes f lane w ops ∧ inst = ⟨some f, conditionOf f w, ops⟩ := by
  constructor
  · intro h
    unfold decode at h
    split at h
    · cases h
    · rename_i f found
      split at h
      · cases h
      · rename_i ops read
        obtain ⟨lane, size, allowed, row⟩ := operands?_eq_some_iff.mp read
        cases h
        exact ⟨f, lane, ops, ⟨Form.formOf?_eq_some_iff.mp found, size, allowed, row⟩, rfl⟩
  · rintro ⟨f, lane, ops, read, rfl⟩
    unfold decode
    rw [Form.formOf?_eq_some_iff.mpr read.form]
    simp only [operands?_eq_some_iff.mpr ⟨lane, read.size, read.allowed, read.operands⟩]

/-! ## Reduced words -/

end Instruction

/-- The field of the bitmask immediate of a form: one bit for the widest element, the rotation, and the run. -/
def Form.bitmaskField? : Form → Option Field
  | logicalImm _ _ => some ⟨10, 13⟩
  | bitmask _ | dupm => some ⟨5, 13⟩
  | _ => none

/-- The rotation in the field of a bitmask immediate. -/
def Field.rotation (f : Field) : Field := ⟨f.lsb + 6, 6⟩

/-- **A word with the rotation of its bitmask immediate reduced** modulo the element size. -/
def Form.reduced (f : Form) (w : Word) : Word :=
  match f.bitmaskField? with
  | none => w
  | some b =>
    match BitmaskImmediate.decode? (b.get w) 64 with
    | none => w
    | some (_, e) => b.rotation.set (b.rotation.get w % e) w

/-- A field of a bitmask immediate that lies in the word. -/
def Field.Bitmask (b : Field) : Prop := b.width = 13 ∧ b.lsb ≤ 19

namespace Field

/-- The parts of the field of a bitmask immediate. -/
theorem get_bitmask {b : Field} (h : b.Bitmask) (w : Word) :
    b.get w = Field.get ⟨b.lsb + 12, 1⟩ w * 4096 + b.rotation.get w * 64 + Field.get ⟨b.lsb, 6⟩ w := by
  obtain ⟨lsb, width⟩ := b
  obtain ⟨rfl, -⟩ := h
  have outer : Field.get ⟨lsb, 6 + 7⟩ w = _ := get_split lsb 6 7 w
  have inner : Field.get ⟨lsb + 6, 6 + 1⟩ w = _ := get_split (lsb + 6) 6 1 w
  have six : twoPow 6 = 64 := rfl
  rw [inner, six] at outer
  rw [outer, rotation]
  ring

/-- **The rotation reduced** leaves the rest of the encoding. -/
theorem get_reduced {b : Field} (h : b.Bitmask) (w : Word) (e : Nat) :
    b.get (b.rotation.set (b.rotation.get w % e) w) = BitmaskImmediate.reduceRotation e (b.get w) := by
  have lt : b.rotation.get w < 64 := get_lt b.rotation w
  have low : Field.get ⟨b.lsb, 6⟩ w < 64 := get_lt ⟨b.lsb, 6⟩ w
  have high : Field.get ⟨b.lsb + 12, 1⟩ w < 2 := get_lt ⟨b.lsb + 12, 1⟩ w
  have inside : b.rotation.Inside := by
    have := h.2
    show b.lsb + 6 + 6 ≤ 32
    omega
  have small : b.rotation.get w % e % 64 = b.rotation.get w % e := by
    have := Nat.mod_le (b.rotation.get w) e
    omega
  rw [get_bitmask h, get_set_of_apart (by show _ ∨ _; simp [rotation]), get_set inside,
    get_set_of_apart (by show _ ∨ _; simp [rotation]), BitmaskImmediate.reduceRotation, get_bitmask h w]
  show _ + _ % 64 * 64 + _ = _
  rw [small]
  generalize Field.get ⟨b.lsb + 12, 1⟩ w = n, b.rotation.get w = r, Field.get ⟨b.lsb, 6⟩ w = i at *
  rw [show (n * 4096 + r * 64 + i) / 4096 % 2 = n by omega, show (n * 4096 + r * 64 + i) / 64 % 64 = r by omega,
    show (n * 4096 + r * 64 + i) % 64 = i by omega]

end Field

namespace Form

/-- How a slot stands to the field of the bitmask immediate of its form: it has no rotation and does not touch the
    field, or it is the slot of the immediate. -/
def Settled (f : Form) (s : Slot) : Prop :=
  match f.bitmaskField? with
  | none => s.rotates = false
  | some b => (s.rotates = false ∧ ∀ x ∈ s.source.fields, x.Apart b) ∨ s.rotates = true ∧ s.fields = [b]

instance (f : Form) (s : Slot) : Decidable (f.Settled s) := by
  unfold Settled
  cases f.bitmaskField? <;> exact inferInstance

theorem slots_settled (f : Form) : ∀ s ∈ f.slots, f.Settled s := by
  have table : ∀ f ∈ all, ∀ s ∈ f.slots, f.Settled s := by decide +kernel
  exact table f (mem_all f)

theorem bitmaskField_spec (f : Form) :
    ∀ b ∈ f.bitmaskField?, b.width = 13 ∧ b.lsb ≤ 19 ∧ b ∈ f.fields ∧ ∀ x ∈ f.ownFields, x.Apart b := by
  have table : ∀ f ∈ all,
      ∀ b ∈ f.bitmaskField?, b.width = 13 ∧ b.lsb ≤ 19 ∧ b ∈ f.fields ∧ ∀ x ∈ f.ownFields, x.Apart b := by
    decide +kernel
  exact table f (mem_all f)

theorem bitmask_slot (f : Form) : ∀ b ∈ f.bitmaskField?, ∃ s ∈ f.slots, s.rotates = true ∧ s.fields = [b] := by
  have table : ∀ f ∈ all, ∀ b ∈ f.bitmaskField?, ∃ s ∈ f.slots, s.rotates = true ∧ s.fields = [b] := by decide +kernel
  exact table f (mem_all f)

/-- A form without a bitmask immediate has no word to reduce. -/
theorem reduced_of_none {f : Form} (none : f.bitmaskField? = none) (w : Word) : f.reduced w = w := by
  rw [reduced, none]

theorem reduced_of_decode? {f : Form} {b : Field} (place : f.bitmaskField? = some b) {w : Word} {size : Nat}
    (hs : size = 32 ∨ size = 64) {v : BitVec 64} {e : Nat}
    (read : BitmaskImmediate.decode? (b.get w) size = some (v, e)) :
    ∃ v', BitmaskImmediate.decode? (b.get w) 64 = some (v', e) ∧
      f.reduced w = b.rotation.set (b.rotation.get w % e) w := by
  obtain ⟨v', whole⟩ : ∃ v', BitmaskImmediate.decode? (b.get w) 64 = some (v', e) := by
    rcases hs with rfl | rfl
    · rw [BitmaskImmediate.decode?_word] at read
      split at read
      · obtain ⟨⟨v', e'⟩, whole, same⟩ := Option.map_eq_some_iff.mp read
        have size : e' = e := congrArg Prod.snd same
        exact ⟨v', size ▸ whole⟩
      · cases read
    · exact ⟨v, read⟩
  refine ⟨v', whole, ?_⟩
  simp only [reduced, place, whole]

/-- A reduced word is the word, or the word with another rotation. -/
theorem reduced_cases (f : Form) (w : Word) :
    f.reduced w = w ∨ ∃ b ∈ f.bitmaskField?, ∃ n, f.reduced w = b.rotation.set n w := by
  unfold reduced
  cases place : f.bitmaskField? with
  | none => exact .inl rfl
  | some b =>
    simp only
    split
    · exact .inl rfl
    · exact .inr ⟨b, rfl, _, rfl⟩

/-- What the reduced word holds outside the bitmask immediate. -/
theorem get_reduced_of_apart {f : Form} {x : Field} (apart : ∀ b ∈ f.bitmaskField?, x.Apart b) (w : Word) :
    x.get (f.reduced w) = x.get w := by
  rcases f.reduced_cases w with same | ⟨b, place, n, same⟩
  · rw [same]
  · obtain ⟨width, -⟩ := f.bitmaskField_spec b place
    rw [same]
    refine Field.get_set_of_apart ?_ n w
    rcases apart b place with below | above
    · right
      show _ ≤ b.lsb + 6
      omega
    · left
      show b.lsb + 6 + 6 ≤ _
      omega

/-- The reduced word has the fixed bits of the word. -/
theorem Matches.reduced {f : Form} {w : Word} (h : f.Matches w) : f.Matches (f.reduced w) := by
  rcases f.reduced_cases w with same | ⟨b, place, n, same⟩
  · rw [same]
    exact h
  · obtain ⟨width, -, listed, -⟩ := f.bitmaskField_spec b place
    rw [same, Matches, ← h]
    apply BitVec.eq_of_getLsbD_eq
    intro j hj
    rw [BitVec.getLsbD_and, BitVec.getLsbD_and, mask, BitVec.getLsbD_not, getLsbD_coverage _ hj]
    -- the rotation is no fixed bit
    by_cases has : b.rotation.has j = true
    · have within : b.lsb + 6 ≤ j ∧ j < b.lsb + 6 + 6 := of_decide_eq_true has
      have inside : b.has j = true := by
        simp only [Field.has, decide_eq_true_eq]
        omega
      have covered : (f.fields.any fun x => x.has j) = true := List.any_eq_true.mpr ⟨b, listed, inside⟩
      simp [covered]
    · rw [Field.getLsbD_set _ n w hj, if_neg has]

/-! ## Encoding -/

/-- What is related along two lists stays related where each place follows. -/
theorem forall₂_imp_mem {α β : Type} {R S : α → β → Prop} {xs : List α} {ys : List β} (h : List.Forall₂ R xs ys)
    (step : ∀ x ∈ xs, ∀ y, R x y → S x y) : List.Forall₂ S xs ys := by
  induction h with
  | nil => exact .nil
  | cons head _ ih =>
    exact .cons (step _ List.mem_cons_self _ head) (ih fun x hx => step x (List.mem_cons_of_mem _ hx))

theorem slots_proper (f : Form) : ∀ s ∈ f.slots, s.Proper := by
  have table : ∀ f ∈ all, ∀ s ∈ f.slots, s.Proper := by decide +kernel
  exact table f (mem_all f)

/-- A slot with an index or a bitmask stands in a form that takes its lane size from there. -/
theorem slots_sizing (f : Form) : ∀ s ∈ f.slots, ∀ z ∈ s.sizing?, f.sizing = z := by
  have table : ∀ f ∈ all, ∀ s ∈ f.slots, ∀ z ∈ s.sizing?, f.sizing = z := by decide +kernel
  exact table f (mem_all f)

end Form

/-- **Every operand that is read fits**, and its register is that of the word. -/
theorem Slot.fits_of_read? {s : Slot} {lane : Option LaneSize} {op : Operand} {w : Word} (proper : s.Proper)
    (size : s.LaneFrom lane w) (h : s.read? lane w = some op) :
    s.Fits lane op ∧ ∀ x, s.register? = some x → op.reg = x.get w := by
  cases plain : s.rotates with
  | false =>
    have reads := reads_of_read? proper size plain h
    exact ⟨reads.1, fun x field => reads.reg field⟩
  | true =>
    induction s with
    | bitmask width => exact ⟨(fits_bitmask h).1, fun x field => by cases field⟩
    | laneBitmask => exact ⟨(fits_laneBitmask size h).1, fun x field => by cases field⟩
    | again s ih =>
      obtain ⟨fits, reg⟩ := ih proper size h plain
      exact ⟨⟨fits.accepted, fits.clean, fits.kept⟩, reg⟩
    | _ => cases plain

/-- The fields of a slot of its own are those of its source. -/
theorem Slot.holds_own {s : Slot} {lane : Option LaneSize} {op : Operand} {w : Word}
    (h : Holds s.source.fields (s.source.values lane op) w) : Holds s.fields (s.values lane op) w := by
  cases s with
  | again s => exact holds_nil w
  | _ => exact h

/-- Only a conditional branch has a field of its own that is not for the lane size. -/
theorem Form.ownFields_of_ne {f : Form} (h : f ≠ .branchCond) : f.ownFields = f.sizing.fields := by
  unfold ownFields
  split
  · exact absurd rfl h
  · rfl

theorem Instruction.ownValues_of_ne {f : Form} (h : f ≠ .branchCond) (cond : Condition) (ops : List Operand) :
    ownValues f cond ops = f.sizing.values (f.lane ops) := by
  unfold ownValues
  split
  · exact absurd rfl h
  · rfl

theorem Instruction.conditionOf_of_ne {f : Form} (h : f ≠ .branchCond) (w : Word) : conditionOf f w = .al := by
  unfold conditionOf
  split
  · exact absurd rfl h
  · rfl

/-- What the slots hold, taken together. -/
theorem holds_flatMap {slots : List Slot} {ops : List Operand} {lane : Option LaneSize} {w : Word}
    (h : List.Forall₂ (fun s op => Holds (Slot.fields s) (s.values lane op) w) slots ops) :
    Holds (slots.flatMap Slot.fields) ((slots.zip ops).flatMap fun p => p.1.values lane p.2) w := by
  induction h with
  | nil => exact holds_nil w
  | cons head _ ih => exact head.append ih

/-- The fields of a lane size hold the lane size that is read from them. -/
theorem Sizing.holds_of_read? {place : Sizing} {lane : Option LaneSize} {w : Word} (h : place.read? w = some lane) :
    Holds place.fields (place.values lane) w := by
  cases place with
  | field =>
    cases h
    have lt : Field.get ⟨22, 2⟩ w < 4 := Field.get_lt ⟨22, 2⟩ w
    refine holds_one.mpr ?_
    show _ = (LaneSize.ofField (Field.get ⟨22, 2⟩ w)).log2 % 4
    generalize Field.get ⟨22, 2⟩ w = n at lt
    rcases n with _ | _ | _ | _ | n
    · rfl
    · rfl
    · rfl
    · rfl
    · omega
  | widthBit =>
    cases h
    have lt : Field.get ⟨22, 1⟩ w < 2 := Field.get_lt ⟨22, 1⟩ w
    refine holds_one.mpr ?_
    show _ = (if isDouble (some (if Field.get ⟨22, 1⟩ w = 1 then .d else .s)) then 1 else 0) % 2
    split
    · rename_i one
      exact one
    · rw [show isDouble (some LaneSize.s) = false from rfl]
      simp
      omega
  | fixed | scalarIndex | vectorIndex | bitmask => exact holds_nil w

namespace Instruction.Decodes

variable {f : Form} {lane : Option LaneSize} {ops : List Operand} {w : Word}

theorem laneFrom (h : Decodes f lane w ops) {s : Slot} (hs : s ∈ f.slots) : s.LaneFrom lane w :=
  Slot.laneFrom_of_sizing (fun z hz => f.slots_sizing s hs z hz) h.size

theorem row (h : Decodes f lane w ops) : f.Row lane ops w :=
  Form.forall₂_imp_mem h.operands fun s hs _ read => Slot.fits_of_read? (f.slots_proper s hs) (h.laneFrom hs) read

theorem lane_mem (h : Decodes f lane w ops) : lane ∈ f.wordLanes :=
  List.mem_filter.mpr ⟨Sizing.read?_mem_range h.size, h.allowed⟩

/-- The slot of a bitmask immediate holds the encoding with its rotation reduced. -/
theorem rotating (h : Decodes f lane w ops) {b : Field} (place : f.bitmaskField? = some b) {s : Slot} (hs : s ∈ f.slots)
    (rotates : s.rotates = true) (fields : s.fields = [b]) {op : Operand} (read : s.read? lane w = some op) :
    ∃ v e, BitmaskImmediate.decode? (b.get w) 64 = some (v, e) ∧
      f.reduced w = b.rotation.set (b.rotation.get w % e) w ∧
      s.values lane op = [BitmaskImmediate.reduceRotation e (b.get w)] := by
  cases s with
  | bitmask size =>
    cases fields
    obtain ⟨-, v, e, value, encoded⟩ := Slot.fits_bitmask read
    have sizes : size.bits = 32 ∨ size.bits = 64 := by cases size <;> decide
    obtain ⟨v', whole, reduced⟩ := Form.reduced_of_decode? place sizes value
    exact ⟨v', e, whole, reduced, by rw [Slot.values, encoded, Option.getD_some]⟩
  | laneBitmask =>
    cases fields
    obtain ⟨-, v, e, value, -, encoded⟩ := Slot.fits_laneBitmask (h.laneFrom hs) read
    obtain ⟨v', whole, reduced⟩ := Form.reduced_of_decode? place (.inr rfl) value
    exact ⟨v', e, whole, reduced, by rw [Slot.values, encoded, Option.getD_some]⟩
  | again s => cases fields
  | _ => cases rotates

/-- What the reduced word is, where there is a bitmask immediate. -/
theorem reduced_spec (h : Decodes f lane w ops) {b : Field} (place : f.bitmaskField? = some b) :
    ∃ v e, BitmaskImmediate.decode? (b.get w) 64 = some (v, e) ∧
      f.reduced w = b.rotation.set (b.rotation.get w % e) w := by
  obtain ⟨s, hs, rotates, fields⟩ := f.bitmask_slot b place
  obtain ⟨i, at_i⟩ := List.getElem?_of_mem hs
  obtain ⟨op, -, read⟩ := Form.row_get h.operands at_i
  obtain ⟨v, e, value, reduced, -⟩ := h.rotating place hs rotates fields read
  exact ⟨v, e, value, reduced⟩

/-- **The reduced word holds the operand** that was read from the word. -/
theorem holds_slot (h : Decodes f lane w ops) {s : Slot} (hs : s ∈ f.slots) {op : Operand}
    (read : s.read? lane w = some op) : Holds s.fields (s.values lane op) (f.reduced w) := by
  have settled := f.slots_settled s hs
  have plain : s.rotates = false → (∀ x ∈ s.source.fields, ∀ b ∈ f.bitmaskField?, x.Apart b) →
      Holds s.fields (s.values lane op) (f.reduced w) := by
    intro still apart
    have reads := Slot.reads_of_read? (f.slots_proper s hs) (h.laneFrom hs) still read
    exact Slot.holds_own (reads.2.congr fun x hx => Form.get_reduced_of_apart (apart x hx) w)
  unfold Form.Settled at settled
  cases place : f.bitmaskField? with
  | none =>
    rw [place] at settled
    exact plain settled fun x _ b hb => by rw [place] at hb; cases hb
  | some b =>
    rw [place] at settled
    rcases settled with ⟨still, apart⟩ | ⟨rotates, fields⟩
    · exact plain still fun x hx c hc => by rw [place] at hc; cases hc; exact apart x hx
    -- the slot of the immediate is the one place where the words differ
    · obtain ⟨width, bound, -⟩ := f.bitmaskField_spec b place
      obtain ⟨v, e, -, reduced, values⟩ := h.rotating place hs rotates fields read
      have lt : b.get (f.reduced w) < twoPow b.width := b.get_lt _
      rw [reduced, Field.get_reduced ⟨width, bound⟩] at lt
      rw [fields, values, holds_one, reduced, Field.get_reduced ⟨width, bound⟩, Nat.mod_eq_of_lt lt]

/-- The reduced word holds the condition, or the lane size. -/
theorem holds_own (h : Decodes f lane w ops) :
    Holds f.ownFields (ownValues f (conditionOf f w) ops) (f.reduced w) := by
  -- what the form holds on its own lies apart from a bitmask immediate
  have same : ∀ ns, Holds f.ownFields ns w → Holds f.ownFields ns (f.reduced w) := fun ns holds =>
    holds.congr fun x hx => Form.get_reduced_of_apart (fun b hb => (f.bitmaskField_spec b hb).2.2.2 x hx) w
  apply same
  by_cases conditional : f = .branchCond
  · subst conditional
    have lt : Form.condition.get w < 16 := Form.condition.get_lt w
    refine holds_one.mpr ?_
    show _ = (Condition.ofCode (Form.condition.get w)).code % 16
    rw [Condition.code_ofCode lt, Nat.mod_eq_of_lt lt]
  · rw [Form.ownFields_of_ne conditional, ownValues_of_ne conditional]
    rcases f.gives_lane_or_unmeasured lane h.lane_mem with gives | ⟨place, -⟩
    · rw [h.row.lane_eq h.lane_mem gives]
      exact Sizing.holds_of_read? h.size
    · rw [place]
      exact holds_nil w

/-- **The reduced word is the word of the operands that were read.** -/
theorem word_eq (h : Decodes f lane w ops) : word f (conditionOf f w) ops = f.reduced w := by
  -- the values are taken at the lane size that the operands give, which is that of the word
  have row : List.Forall₂ (fun s op => Holds (Slot.fields s) (s.values (f.lane ops) op) (f.reduced w)) f.slots ops :=
    Form.forall₂_imp_mem h.operands fun s hs op read => by
      rw [(h.row.measured h.lane_mem hs op).2]
      exact h.holds_slot hs read
  have holds : Holds f.fields (ownValues f (conditionOf f w) ops ++ operandValues f ops) (f.reduced w) :=
    h.holds_own.append (holds_flatMap row)
  have fixed : f.reduced w &&& ~~~coverage f.fields = f.opcode := h.form.reduced
  rw [word, putAll_of_holds holds, ← fixed, covered_or_uncovered]

/-- **A decoded instruction is encoded**, and its word is the reduced one. -/
theorem encode (h : Decodes f lane w ops) : Instruction.encode ⟨some f, conditionOf f w, ops⟩ = .ok (f.reduced w) := by
  have unconditional : ¬ (f ≠ .branchCond ∧ conditionOf f w ≠ .al) := by
    rintro ⟨other, cond⟩
    exact cond (conditionOf_of_ne other w)
  simp only [Instruction.encode, h.row.accepts, Bool.true_eq_false, if_false, if_neg unconditional,
    h.row.fault? h.lane_mem, h.word_eq]

end Instruction.Decodes

end ArmToolkit.A64
