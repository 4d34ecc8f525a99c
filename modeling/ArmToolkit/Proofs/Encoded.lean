import ArmToolkit.Proofs.Decoded

/-!
# `Proofs.Encoded` — the word of an encoded instruction is decoded

An instruction has a word where its operands are accepted and every check passes. The checks of a form are enough for
each of its slots to be read back from the word: this is a condition on the table, decided for all forms.

## Contents
- **Encoding.** `Instruction.Encodes f cond ops`: the operands are accepted and no check fails.
- **The word.** It has the fixed bits of the form (`Encodes.matches_form`) and holds every operand (`Encodes.holds_slot`).
- **Lane sizes.** `Form.wordLane` is the lane size that the word has: that of the operands, but for a bitmask immediate,
  whose word has the lane size of its element.
- **Decoding.** `Form.canonical` gives the operands as they are read back, and `Encodes.decode` says that they are.
-/

namespace ArmToolkit.A64

/-! ## Encoding -/

namespace Instruction

/-- **The operands are accepted and pass every check.** -/
structure Encodes (f : Form) (cond : Condition) (ops : List Operand) : Prop where
  accepted : f.accepts ops = true
  conditional : f = .branchCond ∨ cond = .al
  clean : f.fault? ops = none

theorem encode_eq_ok_iff {inst : Instruction} {w : Word} :
    inst.encode = .ok w ↔ ∃ f, inst.form = some f ∧ Encodes f inst.cond inst.ops ∧ w = word f inst.cond inst.ops := by
  constructor
  · intro h
    unfold encode at h
    split at h
    · cases h
    · rename_i f form
      split at h
      · cases h
      · rename_i accepted
        split at h
        · cases h
        · rename_i conditional
          split at h
          · cases h
          · rename_i clean
            cases h
            refine ⟨f, form, ⟨by simpa using accepted, ?_, clean⟩, rfl⟩
            by_contra other
            exact conditional (not_or.mp other)
  · rintro ⟨f, form, passes, rfl⟩
    have conditional : ¬ (f ≠ .branchCond ∧ inst.cond ≠ .al) := by
      rintro ⟨other, cond⟩
      exact passes.conditional.elim other cond
    simp only [encode, form, passes.accepted, Bool.true_eq_false, if_false, if_neg conditional, passes.clean]

/-- **An instruction of a form has a word** exactly if its operands are accepted and pass every check. -/
theorem encode_form_eq_ok_iff {f : Form} {cond : Condition} {ops : List Operand} {w : Word} :
    encode ⟨some f, cond, ops⟩ = .ok w ↔ Encodes f cond ops ∧ w = word f cond ops := by
  rw [encode_eq_ok_iff]
  constructor
  · rintro ⟨g, same, encodes⟩
    cases same
    exact encodes
  · exact fun encodes => ⟨f, rfl, encodes⟩

end Instruction

/-- A slot has one number for each of its fields. -/
theorem Slot.length_values (s : Slot) (lane : Option LaneSize) (op : Operand) :
    (s.values lane op).length = s.fields.length := by
  cases s with
  | term f source => cases source <;> rfl
  | _ => rfl

theorem Sizing.length_values (place : Sizing) (lane : Option LaneSize) :
    (place.values lane).length = place.fields.length := by
  cases place <;> rfl

/-- What is related at every place is related as a whole. -/
theorem forall₂_of_places {α β : Type} {R : α → β → Prop} {xs : List α} {ys : List β} (len : xs.length = ys.length)
    (h : ∀ (i : Nat) x y, xs[i]? = some x → ys[i]? = some y → R x y) : List.Forall₂ R xs ys := by
  induction xs generalizing ys with
  | nil =>
    rw [List.eq_nil_of_length_eq_zero len.symm]
    exact .nil
  | cons x xs ih =>
    cases ys with
    | nil => simp at len
    | cons y ys => exact .cons (h 0 x y rfl rfl) (ih (by simpa using len) fun i a c ha hc => h (i + 1) a c ha hc)

/-- The slots hold what the whole row holds. -/
theorem holds_of_flatMap {slots : List Slot} {ops : List Operand} {lane : Option LaneSize} {w : Word}
    (len : slots.length = ops.length)
    (h : Holds (slots.flatMap Slot.fields) ((slots.zip ops).flatMap fun p => p.1.values lane p.2) w) :
    List.Forall₂ (fun s op => Holds (Slot.fields s) (s.values lane op) w) slots ops := by
  induction slots generalizing ops with
  | nil =>
    rw [List.eq_nil_of_length_eq_zero len.symm]
    exact .nil
  | cons s slots ih =>
    cases ops with
    | nil => simp at len
    | cons op ops =>
      obtain ⟨head, tail⟩ := Holds.of_append h (s.length_values lane op).symm
      exact .cons head (ih (by simpa using len) tail)

namespace Instruction

theorem length_ownValues (f : Form) (cond : Condition) (ops : List Operand) :
    f.ownFields.length = (ownValues f cond ops).length := by
  by_cases conditional : f = .branchCond
  · subst conditional
    rfl
  · rw [Form.ownFields_of_ne conditional, ownValues_of_ne conditional, Sizing.length_values]

/-- The fields of a row are as many as its numbers. -/
theorem length_flatMap (lane : Option LaneSize) {slots : List Slot} {ops : List Operand} (len : slots.length = ops.length) :
    (slots.flatMap Slot.fields).length = ((slots.zip ops).flatMap fun p => p.1.values lane p.2).length := by
  induction slots generalizing ops with
  | nil =>
    rw [List.eq_nil_of_length_eq_zero len.symm]
    rfl
  | cons s slots ih =>
    cases ops with
    | nil => simp at len
    | cons op ops =>
      simp only [List.flatMap_cons, List.zip_cons_cons, List.length_append, s.length_values]
      rw [ih (by simpa using len)]

namespace Encodes

variable {f : Form} {cond : Condition} {ops : List Operand}

theorem length_eq (h : Encodes f cond ops) : f.slots.length = ops.length := (Form.accepts_iff.mp h.accepted).length_eq

theorem plain (h : Encodes f cond ops) : f.plainFault? ops = none := (Form.fault?_eq_none.mp h.clean).1

/-- **Every check has passed.** -/
theorem passes (h : Encodes f cond ops) {c : Form.Check} (hc : c ∈ f.checks) : c.Passes f ops :=
  (Form.fault?_eq_none.mp h.clean).2 c hc

/-! ## The word -/

theorem holds (h : Encodes f cond ops) :
    Holds f.fields (ownValues f cond ops ++ operandValues f ops) (word f cond ops) := by
  refine holds_putAll f.fields_apart f.fields_inside f.fields_clear ?_
  rw [Form.fields, List.length_append, List.length_append, length_ownValues f cond ops, operandValues,
    length_flatMap (f.lane ops) h.length_eq]

/-- **The word has the fixed bits of the form.** -/
theorem matches_form (_ : Encodes f cond ops) : f.Matches (word f cond ops) := uncovered_putAll f.fields_clear _

theorem holds_own (h : Encodes f cond ops) : Holds f.ownFields (ownValues f cond ops) (word f cond ops) :=
  (h.holds.of_append (length_ownValues f cond ops)).1

/-- **The word holds every operand.** -/
theorem holds_row (h : Encodes f cond ops) :
    List.Forall₂ (fun s op => Holds (Slot.fields s) (s.values (f.lane ops) op) (word f cond ops)) f.slots ops :=
  holds_of_flatMap h.length_eq (h.holds.of_append (length_ownValues f cond ops)).2

theorem holds_slot (h : Encodes f cond ops) {i : Nat} {s : Slot} (hs : f.slots[i]? = some s) :
    Holds s.fields (s.values (f.lane ops) (arg ops i)) (word f cond ops) := by
  obtain ⟨op, at_i, holds⟩ := Form.row_get h.holds_row hs
  rw [Form.arg_of_getElem? at_i]
  exact holds

theorem accepts_slot (h : Encodes f cond ops) {i : Nat} {s : Slot} (hs : f.slots[i]? = some s) :
    s.accepts (arg ops i) = true := by
  obtain ⟨op, at_i, accepted⟩ := Form.row_get (Form.accepts_iff.mp h.accepted) hs
  rw [Form.arg_of_getElem? at_i]
  exact accepted

end Encodes

end Instruction

/-! ## Lane sizes -/

/-- A lane size that is marked is found again. -/
theorem Sizing.marker?_of_lowest {limit n : Nat} {l : LaneSize} (inside : l.log2 < limit)
    (lowest : n % twoPow (l.log2 + 1) = twoPow l.log2) : marker? limit n = some l := by
  have bit : ∀ j ≤ l.log2, n.testBit j = decide (l.log2 = j) := by
    intro j hj
    have low : (n % twoPow (l.log2 + 1)).testBit j = (decide (j < l.log2 + 1) && n.testBit j) :=
      Nat.testBit_mod_two_pow n _ j
    have one : (twoPow l.log2).testBit j = decide (l.log2 = j) := Nat.testBit_two_pow
    rw [lowest, one, decide_eq_true (Nat.lt_succ_of_le hj), Bool.true_and] at low
    exact low.symm
  have found : (List.range limit).find? (fun i => n.testBit i) = some l.log2 := by
    refine List.find?_range_eq_some.mpr ⟨?_, List.mem_range.mpr inside, fun j hj => ?_⟩
    · rw [bit _ (Nat.le_refl _), decide_eq_true rfl]
    · rw [bit j (Nat.le_of_lt hj), decide_eq_false (by omega)]
      rfl
  rw [marker?, found, Option.bind_some]
  cases l <;> rfl

/-- The lane size of an element is one that integer vectors have. -/
theorem Sizing.laneOfBits_mem (e : Nat) : laneOfBits e ∈ Form.bhsd := by
  unfold laneOfBits
  split
  · decide
  · split
    · decide
    · split <;> decide

/-- The lowest set bit of a marked index is the mark. -/
theorem Slot.markedIndex_lowest (l : LaneSize) (op : Operand) :
    markedIndex (some l) op % 32 % twoPow (l.log2 + 1) = twoPow l.log2 := by
  have divides : twoPow (l.log2 + 1) ∣ 32 := by cases l <;> decide
  have split : markedIndex (some l) op = twoPow l.log2 + twoPow (l.log2 + 1) * op.imm.toNat := by
    rw [markedIndex, laneLog2, twoPow_succ]
    ring
  rw [Nat.mod_mod_of_dvd _ divides, split, Nat.add_mul_mod_self_left, twoPow_succ, Nat.mod_eq_of_lt]
  have := twoPow_pos l.log2
  omega

deriving instance DecidableEq for Form.Check

namespace Form

/-- The place of the bitmask immediate in a form whose lanes take one. -/
def maskOperand : Form → Nat
  | dupm => 1
  | _ => 2

/-- The bitmask immediate of an instruction over 64 bits. -/
def fullMask (f : Form) (ops : List Operand) : BitVec 64 :=
  BitmaskImmediate.replicate (arg ops f.maskOperand).imm (laneBits (f.lane ops))

/-- **The lane size that the word of an instruction has**: that of its operands, or that of the element of its bitmask
    immediate. -/
def wordLane (f : Form) (ops : List Operand) : Option LaneSize :=
  match f.sizing with
  | .fixed lane => lane
  | .bitmask => some (Sizing.laneOfBits (BitmaskImmediate.elementSize (f.fullMask ops)))
  | .field | .widthBit | .scalarIndex | .vectorIndex => f.lane ops

/-- The checks of a form fix its lane size, where the word or a slot needs one. -/
def ChecksLane (f : Form) : Prop :=
  match f.sizing with
  | .fixed lane => f.allows lane = true ∧ ∀ l ∈ lane, .laneAllowed f.laneOperand ∈ f.checks ∧ f.lanes = [l]
  | .widthBit => f.lanes = []
  | .bitmask => .laneAllowed f.laneOperand ∈ f.checks ∧ f.lanes = bhsd ∧
      f.slots[f.maskOperand]? = some .laneBitmask ∧ .value f.maskOperand ∈ f.checks
  | .field => .laneAllowed f.laneOperand ∈ f.checks ∧ ∀ l ∈ f.lanes, l.log2 < 4
  | .scalarIndex => .laneAllowed f.laneOperand ∈ f.checks ∧ (∀ l ∈ f.lanes, l.log2 < 4) ∧
      f.slots[2]? = some .scalarIndex
  | .vectorIndex => .laneAllowed f.laneOperand ∈ f.checks ∧ f.slots[2]? = some .vectorIndex

instance (f : Form) : Decidable f.ChecksLane := by
  unfold ChecksLane
  exact match f.sizing with
    | .fixed _ | .field | .widthBit | .scalarIndex | .vectorIndex | .bitmask => inferInstance

theorem checks_lane (f : Form) : f.ChecksLane := by
  have table : ∀ f ∈ all, f.ChecksLane := by decide +kernel
  exact table f (mem_all f)

end Form

namespace Instruction.Encodes

variable {f : Form} {cond : Condition} {ops : List Operand}

/-- The lane size comes from an operand, but where a register width stands for it. -/
theorem lane_eq {place : Sizing} (known : f.sizing = place) (other : place ≠ .widthBit) :
    f.lane ops = (arg ops f.laneOperand).lane := by
  unfold Form.lane
  split
  · rename_i width
    exact absurd (known.symm.trans width) other
  · rfl

/-- The width of the first register stands for the lane size. -/
theorem lane_of_width (place : f.sizing = .widthBit) :
    f.lane ops = some (if (arg ops 0).kind = .x then .d else .s) := by
  unfold Form.lane
  rw [place]

/-- A lane size that is checked is one of the form. -/
theorem lane_known (h : Encodes f cond ops) {place : Sizing} (known : f.sizing = place) (other : place ≠ .widthBit)
    (hc : .laneAllowed f.laneOperand ∈ f.checks) : ∃ l ∈ f.lanes, f.lane ops = some l := by
  obtain ⟨l, hl, size⟩ := h.passes hc
  exact ⟨l, hl, (lane_eq known other).trans size⟩

/-- The field of the lane size holds the one of the operands. -/
theorem holds_sizing (h : Encodes f cond ops) (sized : f.sizing ≠ .fixed none) :
    Holds f.sizing.fields (f.sizing.values (f.lane ops)) (word f cond ops) := by
  have other : f ≠ .branchCond := by
    rintro rfl
    exact sized rfl
  have own := h.holds_own
  rwa [Form.ownFields_of_ne other, ownValues_of_ne other] at own

/-- **The word has the bitmask immediate over 64 bits**, whose element repeats it. -/
theorem mask_element (h : Encodes f cond ops) (masked : f.sizing = .bitmask) : ∃ e ∈ BitmaskImmediate.sizes,
    BitmaskImmediate.decode? (Field.get ⟨5, 13⟩ (word f cond ops)) 64 = some (f.fullMask ops, e) ∧
      BitmaskImmediate.elementSize (f.fullMask ops) = e ∧
      ∀ d ∈ BitmaskImmediate.sizes, e ≤ d → BitmaskImmediate.replicate (f.fullMask ops) d = f.fullMask ops := by
  have checked := f.checks_lane
  unfold Form.ChecksLane at checked
  rw [masked] at checked
  obtain ⟨-, -, hs, value⟩ := checked
  have known := Slot.laneBitmask?_isSome (h.passes value _ hs)
  obtain ⟨e, read⟩ := Slot.decode?_of_holds rfl (.inr rfl) known (h.holds_slot hs)
  obtain ⟨size, element, repeats⟩ := BitmaskImmediate.decode?_period (Field.get_lt _ _) read
  exact ⟨e, size, read, element, repeats⟩

/-- **The word has its lane size**, and the form has it. -/
theorem read_size (h : Encodes f cond ops) :
    f.sizing.read? (word f cond ops) = some (f.wordLane ops) ∧ f.allows (f.wordLane ops) = true := by
  have checked := f.checks_lane
  unfold Form.ChecksLane at checked
  unfold Form.wordLane
  cases place : f.sizing with
  | fixed lane =>
    rw [place] at checked
    exact ⟨rfl, checked.1⟩
  | widthBit =>
    have own := h.holds_sizing (by rw [place]; exact Sizing.noConfusion)
    rw [place] at checked own
    have bit := holds_one.mp own
    rw [lane_of_width place] at bit ⊢
    constructor
    · simp only [Sizing.read?, bit]
      by_cases wide : (arg ops 0).kind = .x
      · simp [wide, isDouble, twoPow]
      · simp [wide, isDouble]
    · simp [Form.allows, show f.lanes = [] from checked]
  | field =>
    have own := h.holds_sizing (by rw [place]; exact Sizing.noConfusion)
    rw [place] at checked own
    obtain ⟨l, hl, lane⟩ := h.lane_known place Sizing.noConfusion checked.1
    have bits := holds_one.mp own
    rw [lane] at bits ⊢
    have narrow := checked.2 l hl
    constructor
    · simp only [Sizing.read?, bits]
      cases l <;> first | rfl | exact absurd narrow (by decide)
    · simp [Form.allows, hl]
  | scalarIndex =>
    rw [place] at checked
    obtain ⟨allowed, narrow, hs⟩ := checked
    obtain ⟨l, hl, lane⟩ := h.lane_known place Sizing.noConfusion allowed
    -- the index is written with a mark below it, whose place is the lane size
    have bits : Field.get ⟨16, 5⟩ (word f cond ops) = _ % 32 := holds_one.mp (h.holds_slot hs)
    rw [lane] at bits ⊢
    constructor
    · rw [Sizing.read?, bits, Sizing.marker?_of_lowest (narrow l hl) (Slot.markedIndex_lowest l _)]
      rfl
    · simp [Form.allows, hl]
  | vectorIndex =>
    rw [place] at checked
    obtain ⟨allowed, hs⟩ := checked
    obtain ⟨l, hl, lane⟩ := h.lane_known place Sizing.noConfusion allowed
    have bits : Field.get ⟨16, 5⟩ (word f cond ops) = _ % 32 := (Slot.holds_two.mp (h.holds_slot hs)).2
    rw [lane] at bits ⊢
    constructor
    · rw [Sizing.read?, bits, Sizing.marker?_of_lowest (by cases l <;> decide) (Slot.markedIndex_lowest l _)]
      rfl
    · simp [Form.allows, hl]
  | bitmask =>
    rw [place] at checked
    obtain ⟨-, lanes, -⟩ := checked
    obtain ⟨e, -, read, element, -⟩ := h.mask_element place
    -- the lane size of the operands is lost: the word has that of the element of the bitmask
    constructor
    · rw [Sizing.read?, read, Option.map_some, ← element]
    · simp [Form.allows, lanes, Sizing.laneOfBits_mem]

end Instruction.Encodes

/-! ## Decoding -/

namespace Slot

/-- Whether every operand of the slot is without a fault of its value. -/
def faultless : Slot → Bool
  | general _ _ _ | scalarAt _ _ | scalar _ _ | vector _ _ | predicate _ _ _ | governing _ _ => true
  | _ => false

theorem fault?_of_faultless {s : Slot} (h : s.faultless = true) (lane : Option LaneSize) (op : Operand) :
    s.fault? lane op = none := by
  cases s with
  | general | scalarAt | scalar | vector | predicate | governing => rfl
  | _ => cases h

/-- The numbers of a slot that has a register and nothing else. -/
theorem values_of_register {s : Slot} {x : Field} (field : s.register? = some x) (alone : s.source.fields = [x])
    (lane : Option LaneSize) (op : Operand) : s.source.values lane op = [op.reg] := by
  induction s with
  | again s ih => exact ih field alone
  | term f source =>
    cases source with
    | reg => rfl
    | imm => cases field
  | governing f m => simp [source, fields] at alone
  | general | generalOfLane | scalarAt | scalar | vector | predicate => rfl
  | _ => cases field

end Slot

/-- The lane size of the word is that of the operands. -/
def Sizing.ofOperands : Sizing → Bool
  | field | widthBit | scalarIndex | vectorIndex => true
  | fixed _ | bitmask => false

namespace Form

/-- Whether no operand of the slot has a fault, or a check looks for one. -/
def ChecksValue (f : Form) (s : Slot) (i : Nat) : Prop :=
  s.source.faultless = true ∨ (s.source = s ∧ .value i ∈ f.checks) ∨
    (s.followsLane = true ∧ f.sizing = .widthBit ∧ (i = 0 ∨ .sameKind i ∈ f.checks))

instance (f : Form) (s : Slot) (i : Nat) : Decidable (f.ChecksValue s i) := inferInstanceAs (Decidable (_ ∨ _))

/-- Whether the slot has fields of its own, or a check ties it to the first operand. -/
def ChecksTie (f : Form) (s : Slot) (i : Nat) : Prop :=
  s.source = s ∨ (.tied i 0 ∈ f.checks ∧ ∃ t ∈ f.slots[0]?, t.source = t ∧
    ∃ x ∈ s.register?, t.register? = some x ∧ s.source.fields = [x])

instance (f : Form) (s : Slot) (i : Nat) : Decidable (f.ChecksTie s i) := inferInstanceAs (Decidable (_ ∨ _))

/-- **The checks of a form cover each of its slots.** -/
theorem checks_slots (f : Form) : ∀ p ∈ f.slots.zipIdx, f.ChecksValue p.1 p.2 ∧ f.ChecksTie p.1 p.2 ∧
    (p.1.measured = true → p.1.rotates = false → f.sizing.ofOperands = true) := by
  have table : ∀ f ∈ all, ∀ p ∈ f.slots.zipIdx, f.ChecksValue p.1 p.2 ∧ f.ChecksTie p.1 p.2 ∧
      (p.1.measured = true → p.1.rotates = false → f.sizing.ofOperands = true) := by decide +kernel
  exact table f (mem_all f)

theorem wordLane_of_operands {f : Form} (h : f.sizing.ofOperands = true) (ops : List Operand) :
    f.wordLane ops = f.lane ops := by
  unfold wordLane
  cases place : f.sizing with
  | field | widthBit | scalarIndex | vectorIndex => rfl
  | fixed | bitmask =>
    rw [place] at h
    cases h

/-- **The operands as they are read back** from the word of an instruction. -/
def canonical (f : Form) (ops : List Operand) : List Operand :=
  List.zipWith (fun s op => Slot.canonical s (f.lane ops) (f.wordLane ops) op) f.slots ops

end Form

/-- What is known of every place of a row is known of the row that is computed from it. -/
theorem forall₂_zipWith {α β γ : Type} {g : α → β → γ} {R : α → γ → Prop} {xs : List α} {ys : List β}
    (h : List.Forall₂ (fun x y => R x (g x y)) xs ys) : List.Forall₂ R xs (List.zipWith g xs ys) := by
  induction h with
  | nil => exact .nil
  | cons head _ ih => exact .cons head ih

namespace Instruction.Encodes

variable {f : Form} {cond : Condition} {ops : List Operand}

theorem slot_fault? (h : Encodes f cond ops) {i : Nat} {s : Slot} (hs : f.slots[i]? = some s) :
    s.source.fault? (f.lane ops) (arg ops i) = none := by
  obtain ⟨value, -⟩ := f.checks_slots (s, i) (List.mk_mem_zipIdx_iff_getElem?.mpr hs)
  rcases value with faultless | ⟨own, checked⟩ | ⟨follows, place, same⟩
  · exact Slot.fault?_of_faultless faultless _ _
  · rw [own]
    exact h.passes checked s hs
  · -- the register of the first operand gives the lane size, and the other is as wide
    have kind : (arg ops i).kind = (arg ops 0).kind := by
      rcases same with rfl | checked
      · rfl
      · exact h.passes checked
    cases s with
    | generalOfLane x c =>
      refine if_pos ?_
      rw [lane_of_width place, kind]
      by_cases wide : (arg ops 0).kind = .x
      · simp [wide, isDouble]
      · simp [wide, isDouble]
    | _ => cases follows

theorem slot_holds (h : Encodes f cond ops) {i : Nat} {s : Slot} (hs : f.slots[i]? = some s) :
    Holds s.source.fields (s.source.values (f.lane ops) (arg ops i)) (word f cond ops) := by
  obtain ⟨-, tie, -⟩ := f.checks_slots (s, i) (List.mk_mem_zipIdx_iff_getElem?.mpr hs)
  rcases tie with own | ⟨checked, t, ht, source, x, field, same, alone⟩
  · have := h.holds_slot hs
    rwa [own]
  -- the slot reads the field of the first operand, which is checked to be the same register
  · have holds := h.holds_slot ht
    rw [← source] at holds
    have tied : (arg ops i).reg = (arg ops 0).reg := h.passes checked
    rw [alone, Slot.values_of_register field alone, tied]
    exact Slot.holds_register same holds

/-- **Every slot is read back.** -/
theorem read_slot (h : Encodes f cond ops) {i : Nat} {s : Slot} (hs : f.slots[i]? = some s) :
    s.read? (f.wordLane ops) (word f cond ops) = some (s.canonical (f.lane ops) (f.wordLane ops) (arg ops i)) := by
  obtain ⟨-, -, measured⟩ := f.checks_slots (s, i) (List.mk_mem_zipIdx_iff_getElem?.mpr hs)
  exact Slot.read?_of_holds (f.slots_proper s (List.mem_of_getElem? hs))
    (fun looks still => (Form.wordLane_of_operands (measured looks still) ops).symm) (h.accepts_slot hs) (h.slot_fault? hs)
    (h.slot_holds hs)

/-- **The word of an instruction has been read** as the canonical operands. -/
theorem decodes (h : Encodes f cond ops) : Decodes f (f.wordLane ops) (word f cond ops) (f.canonical ops) := by
  obtain ⟨size, allowed⟩ := h.read_size
  refine ⟨h.matches_form, size, allowed, forall₂_zipWith ?_⟩
  refine forall₂_of_places h.length_eq fun i s op hs at_i => ?_
  rw [← Form.arg_of_getElem? at_i]
  exact h.read_slot hs

theorem condition (h : Encodes f cond ops) : conditionOf f (word f cond ops) = cond := by
  by_cases conditional : f = .branchCond
  · subst conditional
    have bits : Form.condition.get (word .branchCond cond ops) = cond.code % 16 := holds_one.mp h.holds_own
    rw [conditionOf, bits]
    cases cond <;> rfl
  · rw [conditionOf_of_ne conditional]
    exact (h.conditional.resolve_left conditional).symm

/-- **The word of an instruction is decoded** as the instruction with canonical operands. -/
theorem decode (h : Encodes f cond ops) :
    Instruction.decode (word f cond ops) = .ok ⟨some f, cond, f.canonical ops⟩ := by
  refine decode_eq_ok_iff.mpr ⟨f, _, _, h.decodes, ?_⟩
  rw [h.condition]

end Instruction.Encodes

/-! ## Decoded operands -/

/-- Only a bitmask looks at the lane size that it was given at. -/
theorem Slot.canonical_given {s : Slot} (h : s.sizing? ≠ some .bitmask) (given given' lane : Option LaneSize)
    (op : Operand) : s.canonical given lane op = s.canonical given' lane op := by
  induction s with
  | laneBitmask => exact absurd rfl h
  | again s ih => exact ih h
  | term f source => cases source <;> rfl
  | bitmask width => cases width <;> rfl
  | _ => rfl

/-- A row that computes the second row is that row. -/
theorem zipWith_eq_right {α β : Type} {g : α → β → β} {xs : List α} {ys : List β}
    (h : List.Forall₂ (fun x y => g x y = y) xs ys) : List.zipWith g xs ys = ys := by
  induction h with
  | nil => rfl
  | cons head _ ih => rw [List.zipWith_cons_cons, head, ih]

namespace Instruction.Decodes

variable {f : Form} {lane : Option LaneSize} {ops : List Operand} {w : Word}

/-- A word that keeps its lane size gives it to the operands. -/
theorem lane_eq (h : Decodes f lane w ops) (kept : ∀ l, f.sizing ≠ .fixed l) : f.lane ops = lane := by
  rcases f.gives_lane_or_unmeasured lane h.lane_mem with gives | ⟨place, -⟩
  · exact h.row.lane_eq h.lane_mem gives
  · exact absurd place (kept none)

theorem wordLane_eq (h : Decodes f lane w ops) : f.wordLane ops = lane := by
  have size := h.size
  unfold Form.wordLane
  cases place : f.sizing with
  | fixed l =>
    rw [place] at size
    exact Option.some.inj size
  | field | widthBit | scalarIndex | vectorIndex => exact h.lane_eq fun l => by rw [place]; exact Sizing.noConfusion
  | bitmask =>
    have checked := f.checks_lane
    unfold Form.ChecksLane at checked
    rw [place] at checked size
    obtain ⟨-, -, hs, -⟩ := checked
    obtain ⟨op, at_i, read⟩ := Form.row_get h.operands hs
    obtain ⟨-, v, e, value, full, -⟩ := Slot.fits_laneBitmask size read
    obtain ⟨-, element, -⟩ := BitmaskImmediate.decode?_period (Field.get_lt _ _) value
    have lane_eq := h.lane_eq fun l => by rw [place]; exact Sizing.noConfusion
    show some _ = _
    rw [Form.fullMask, lane_eq, Form.arg_of_getElem? at_i, full, element]
    rw [Sizing.read?, value] at size
    exact Option.some.inj size

/-- **Operands that were read are canonical.** -/
theorem canonical_eq (h : Decodes f lane w ops) : f.canonical ops = ops := by
  have kept : List.Forall₂ (fun s op => Slot.canonical s (f.lane ops) (f.wordLane ops) op = op) f.slots ops := by
    refine Form.forall₂_imp_mem h.row fun s hs op fits => ?_
    rw [h.wordLane_eq]
    -- a bitmask is cut to the lane size that it is given at, which is that of the word
    by_cases masked : s.sizing? = some .bitmask
    · have place := f.slots_sizing s hs _ masked
      rw [h.lane_eq fun l => by rw [place]; exact Sizing.noConfusion]
      exact fits.1.kept
    · rw [Slot.canonical_given masked (f.lane ops) lane]
      exact fits.1.kept
  exact zipWith_eq_right kept

theorem encodes (h : Decodes f lane w ops) : Encodes f (conditionOf f w) ops := by
  refine ⟨h.row.accepts, ?_, h.row.fault? h.lane_mem⟩
  by_cases conditional : f = .branchCond
  · exact .inl conditional
  · exact .inr (conditionOf_of_ne conditional w)

/-- **The reduced word is decoded as the word is.** -/
theorem decode_reduced (h : Decodes f lane w ops) :
    Instruction.decode (f.reduced w) = .ok ⟨some f, conditionOf f w, ops⟩ := by
  have := h.encodes.decode
  rwa [h.word_eq, h.canonical_eq] at this

end Instruction.Decodes

end ArmToolkit.A64
