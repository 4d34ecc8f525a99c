import ArmToolkit.Proofs.Constructed

/-!
# `Proofs.RoundTrip` — words and instructions determine each other

## Contents
- **Decoded and encoded.** The instruction of a word is encoded again, by the same word up to the rotation of a bitmask
  immediate.
- **Normal operands.** `Form.normal` writes out what is read back of constructed operands: they are the same, but for
  bitmask immediates of 32-bit registers and of the lanes of a vector. A bitmask immediate keeps what it stands for
  (`Instruction.Encodes.fullMask_normal`).
- **Encoded and decoded.** The word of an instruction is decoded as the instruction with normal operands
  (`Instruction.Encodes.canonical_eq_normal`).
-/

namespace ArmToolkit.A64

/-! ## Decoded and encoded -/

namespace Instruction

/-- **A decoded instruction is encoded again.** One form alone has the fixed bits of the word, in whatever order the forms
    are tried; it is the form that the operands belong to; and the instruction is encoded as a word that is decoded alike.
    That word is the one at hand, but for the rotation of a bitmask immediate, which is reduced modulo the element size. -/
theorem encode_of_decode {w : Word} {inst : Instruction} (h : decode w = .ok inst) :
    ∃ f, inst.form = some f ∧ (∀ g : Form, w &&& g.mask = g.opcode ↔ g = f) ∧
      (∀ order : List Form, (∀ g, g ∈ order) → order.find? (fun g => w &&& g.mask == g.opcode) = some f) ∧
      Form.resolve? f.mnemonic inst.ops = some f ∧
      ∃ w', inst.encode = .ok w' ∧ decode w' = .ok inst ∧ (f.bitmaskField? = none → w' = w) ∧
        ∀ b ∈ f.bitmaskField?, ∃ v e, BitmaskImmediate.decode? (b.get w) 64 = some (v, e) ∧
          BitmaskImmediate.elementSize v = e ∧ w' = b.rotation.set (b.rotation.get w % e) w := by
  obtain ⟨f, lane, ops, read, rfl⟩ := decode_eq_ok_iff.mp h
  refine ⟨f, rfl, fun g => ⟨fun other => Form.Matches.unique other read.form, fun same => same ▸ read.form⟩,
    fun order full => (Form.find?_eq_some_iff full).mpr read.form, Form.resolve?_of_accepts read.row.accepts,
    f.reduced w, read.encode, read.decode_reduced, fun none => Form.reduced_of_none none w, fun b place => ?_⟩
  obtain ⟨v, e, value, reduced⟩ := read.reduced_spec place
  obtain ⟨width, -⟩ := f.bitmaskField_spec b place
  have lt : b.get w < 8192 := by
    have := b.get_lt w
    rw [width] at this
    exact this
  exact ⟨v, e, value, (BitmaskImmediate.decode?_period lt value).2.1, reduced⟩

/-- A bitmask of bytes whose rotation by nine is the same as that by one. -/
theorem encode_of_decode_dupm : ∃ w', encode ⟨some .dupm, .al, [.ofZ ⟨0, some .b⟩, .ofImm 0x87]⟩ = .ok w' ∧
    w' = Field.set ⟨11, 6⟩ 1 0x05c04e60 := by
  obtain ⟨f, form, -, -, -, w', encoded, -, -, reduced⟩ := encode_of_decode (w := 0x05c04e60)
    (show decode 0x05c04e60 = .ok ⟨some .dupm, .al, [.ofZ ⟨0, some .b⟩, .ofImm 0x87]⟩ from rfl)
  cases form
  obtain ⟨v, e, read, -, same⟩ := reduced ⟨5, 13⟩ rfl
  have element : e = 8 := congrArg Prod.snd (Option.some.inj (read.symm.trans rfl))
  subst element
  exact ⟨w', encoded, same⟩

end Instruction

/-! ## Normal operands -/

/-- The operand with an immediate cut to some bits; an operand of another kind is left as it is. -/
def Operand.cutTo (bits : Nat) (op : Operand) : Operand :=
  if op.kind = .imm then { op with imm := op.imm &&& BitmaskImmediate.onesBelow bits } else op

/-- The operand of an instruction on lanes at a lane size: an immediate is cut to the lane, a vector is seen at it. -/
def Operand.narrowTo (lane : LaneSize) (op : Operand) : Operand :=
  if op.kind = .imm then op.cutTo lane.bits else op.withLane (some lane)

namespace Form

/-- **What is read back of operands.** A bitmask immediate of a 32-bit register has no sign; one of the lanes of a vector
    is seen at the narrowest lane size that holds its element. All other operands are read back as they are. -/
def normal (f : Form) (ops : List Operand) : List Operand :=
  match f with
  | logicalImm _ .w => ops.map (Operand.cutTo 32)
  | bitmask _ | dupm =>
    ops.map (Operand.narrowTo (Sizing.laneOfBits (BitmaskImmediate.elementSize (f.fullMask ops))))
  | _ => ops

theorem normal_of_unmasked {f : Form} (h : f.bitmaskField? = none) (ops : List Operand) : f.normal ops = ops := by
  cases f with
  | logicalImm | bitmask | dupm => cases h
  | _ => rfl

theorem normal_of_masked {f : Form} (h : f.sizing = .bitmask) (ops : List Operand) : f.normal ops =
    ops.map (Operand.narrowTo (Sizing.laneOfBits (BitmaskImmediate.elementSize (f.fullMask ops)))) := by
  cases f with
  | bitmask | dupm => rfl
  | _ => cases h

/-- A form whose lane size is that of a bitmask gives it on its first operand, which is a vector. -/
theorem first_of_masked {f : Form} (h : f.sizing = .bitmask) :
    f.laneOperand = 0 ∧ ∃ s, f.slots[0]? = some s ∧ .imm ∉ s.kinds := by
  cases f with
  | bitmask | dupm => exact ⟨rfl, _, rfl, by simp [Form.vec, Slot.kinds]⟩
  | _ => cases h

/-- A form without a bitmask immediate does not take its lane size from one. -/
theorem unmasked {f : Form} (h : f.bitmaskField? = none) :
    f.sizing ≠ .bitmask ∧ ∀ s ∈ f.slots, s.rotates = false := by
  constructor
  · cases f with
    | logicalImm | bitmask | dupm => cases h
    | _ => exact Sizing.noConfusion
  · intro s hs
    have settled := f.slots_settled s hs
    unfold Settled at settled
    rwa [h] at settled

end Form

/-- A slot that is not viewed at the lane size of the instruction has one lane size. -/
theorem Slot.laneOf_of_fixed {s : Slot} (h : s.rule? ≠ some .element) (l l' : Option LaneSize) :
    s.laneOf l = s.laneOf l' := by
  cases ruled : s.rule? with
  | some rule =>
    rw [laneOf_of_rule ruled, laneOf_of_rule ruled]
    cases rule with
    | element => exact absurd ruled h
    | none | double => rfl
  | none =>
    induction s with
    | scalar | vector | predicate => cases ruled
    | again s ih => exact ih h ruled
    | _ => rfl

theorem Slot.isSome_of_qualified {s : Slot} (h : s.qualified = true) {op : Operand} (accepted : s.accepts op = true) :
    op.qualifier.isSome = true := by
  induction s with
  | predicate x rule q =>
    rw [beq_iff_eq.mp (Bool.and_eq_true_iff.mp accepted).2]
    exact h
  | governing x m => exact (Bool.and_eq_true_iff.mp accepted).2
  | again s ih => exact ih h accepted
  | _ => cases h

/-- A row that is computed from the second row alone. -/
theorem zipWith_eq_map {α β γ : Type} {g : α → β → γ} {k : β → γ} {xs : List α} {ys : List β}
    (h : List.Forall₂ (fun x y => g x y = k y) xs ys) : List.zipWith g xs ys = ys.map k := by
  induction h with
  | nil => rfl
  | cons head _ ih => rw [List.zipWith_cons_cons, List.map_cons, head, ih]

/-- The lane size of an element is no wider than a lane that holds the element. -/
theorem Sizing.laneOfBits_le {e : Nat} {l : LaneSize} (hl : l ∈ Form.bhsd) (le : e ≤ l.bits) :
    (laneOfBits e).bits ≤ l.bits := by
  have all : ∀ l ∈ Form.bhsd, l.bits = 8 ∨ l.bits = 16 ∨ l.bits = 32 ∨ l.bits = 64 := by decide
  have bits := all l hl
  unfold laneOfBits
  split
  · show 8 ≤ l.bits
    omega
  · split
    · show 16 ≤ l.bits
      omega
    · split
      · show 32 ≤ l.bits
        omega
      · show 64 ≤ l.bits
        omega

namespace Instruction.Encodes

variable {f : Form} {cond : Condition} {ops : List Operand}

/-! ## Encoded and decoded -/

/-- A lane size that the operands of a form without bitmasks are given at is the one of the word. -/
theorem laneOf_eq (h : Encodes f cond ops) (unmasked : f.sizing ≠ .bitmask) {i : Nat} {s : Slot}
    (hs : f.slots[i]? = some s) : s.laneOf (f.wordLane ops) = s.laneOf (f.lane ops) := by
  obtain ⟨-, checked⟩ := f.checks_operands (s, i) (List.mk_mem_zipIdx_iff_getElem?.mpr hs)
  by_cases free : f.sizing = .fixed none
  · exact Slot.laneOf_of_fixed (fun ruled => (checked _ ruled).2.2 free) _ _
  · rw [Form.wordLane_eq h free unmasked]

/-- **A slot without a rotation reads its operand back**, where predicates are given without a lane size. -/
theorem canonical_slot (h : Encodes f cond ops) (shaped : ∀ op ∈ ops, op.Shaped) {i : Nat} {s : Slot}
    (hs : f.slots[i]? = some s) (still : s.rotates = false) :
    s.canonical (f.lane ops) (f.wordLane ops) (arg ops i) = (arg ops i).withLane (s.laneOf (f.wordLane ops)) := by
  obtain ⟨op, at_i, -⟩ := Form.row_get (Form.accepts_iff.mp h.accepted) hs
  obtain ⟨-, -, measured⟩ := f.checks_slots (s, i) (List.mk_mem_zipIdx_iff_getElem?.mpr hs)
  have shape := shaped op (List.mem_of_getElem? at_i)
  rw [← Form.arg_of_getElem? at_i] at shape
  exact Slot.canonical_eq shape (h.accepts_slot hs) (h.keepsRegister hs) (h.slot_fault? hs)
    (fun looks => (Form.wordLane_of_operands (measured looks still) ops).symm) still

/-- The operands of a form are predicates without a lane size, where they are qualified. -/
theorem bare_slot (h : Encodes f cond ops) (bare : ∀ op ∈ ops, op.qualifier.isSome = true → op.lane = none) {i : Nat}
    {s : Slot} (hs : f.slots[i]? = some s) (qualified : s.qualified = true) : (arg ops i).lane = none := by
  obtain ⟨op, at_i, accepted⟩ := Form.row_get (Form.accepts_iff.mp h.accepted) hs
  rw [Form.arg_of_getElem? at_i]
  exact bare op (List.mem_of_getElem? at_i) (Slot.isSome_of_qualified qualified accepted)

/-- The operands that are read back, place by place. -/
theorem canonical_eq_map (h : Encodes f cond ops) {g : Operand → Operand}
    (places : ∀ i s, f.slots[i]? = some s → s.canonical (f.lane ops) (f.wordLane ops) (arg ops i) = g (arg ops i)) :
    f.canonical ops = ops.map g := by
  have row : List.Forall₂ (fun s op => Slot.canonical s (f.lane ops) (f.wordLane ops) op = g op) f.slots ops :=
    forall₂_of_places h.length_eq fun i s op hs at_i => by
      rw [← Form.arg_of_getElem? at_i]
      exact places i s hs
  exact zipWith_eq_map row

/-- A slot without a rotation, in a form whose lane size is not that of a bitmask, reads its operand back as it is. -/
theorem canonical_plain (h : Encodes f cond ops) (shaped : ∀ op ∈ ops, op.Shaped) (unmasked : f.sizing ≠ .bitmask)
    {i : Nat} {s : Slot} (hs : f.slots[i]? = some s) (still : s.rotates = false)
    (bare : s.qualified = true → (arg ops i).lane = none) :
    s.canonical (f.lane ops) (f.wordLane ops) (arg ops i) = arg ops i := by
  rw [h.canonical_slot shaped hs still, h.laneOf_eq unmasked hs, ← h.lane_slot shaped hs bare]
  rfl

/-- The operand of a slot for an immediate. -/
theorem shaped_immediate (h : Encodes f cond ops) (shaped : ∀ op ∈ ops, op.Shaped) {i : Nat} {s : Slot}
    (hs : f.slots[i]? = some s) (kinds : s.kinds = [.imm]) (clean : (arg ops i).shift = 0) :
    arg ops i = .ofImm (arg ops i).imm := by
  obtain ⟨op, at_i, -⟩ := Form.row_get (Form.accepts_iff.mp h.accepted) hs
  have shape := shaped op (List.mem_of_getElem? at_i)
  have kind := Slot.accepts_kind (h.accepts_slot hs)
  rw [Form.arg_of_getElem? at_i] at kind clean ⊢
  rw [kinds, List.mem_singleton] at kind
  unfold Operand.Shaped at shape
  rw [kind] at shape
  rw [clean] at shape
  exact shape

/-- The lane sizes of a form with a bitmask immediate: that of the operands, and that of the word, which is no wider. -/
theorem mask_lanes (h : Encodes f cond ops) (masked : f.sizing = .bitmask) :
    ∃ l, f.lane ops = some l ∧ l.bits ∈ BitmaskImmediate.sizes ∧
      (Sizing.laneOfBits (BitmaskImmediate.elementSize (f.fullMask ops))).bits ≤ l.bits := by
  have checked := f.checks_lane
  unfold Form.ChecksLane at checked
  rw [masked] at checked
  obtain ⟨l, hl, lane⟩ := h.lane_known masked Sizing.noConfusion checked.1
  rw [checked.2.1] at hl
  have known : ∀ l ∈ Form.bhsd, l.bits ∈ BitmaskImmediate.sizes := by decide
  have bits := known l hl
  refine ⟨l, lane, bits, Sizing.laneOfBits_le hl (BitmaskImmediate.elementSize_le bits ?_)⟩
  rw [Form.fullMask, lane]
  exact BitmaskImmediate.replicate_replicate _ (BitmaskImmediate.size_pos bits) (BitmaskImmediate.size_le bits)

/-- The bitmask immediate of a vector form is read back cut to the lane size of the word. -/
theorem canonical_mask (h : Encodes f cond ops) (shaped : ∀ op ∈ ops, op.Shaped) (masked : f.sizing = .bitmask)
    (hs : f.slots[f.maskOperand]? = some .laneBitmask) (checked : .value f.maskOperand ∈ f.checks) :
    Slot.laneBitmask.canonical (f.lane ops) (f.wordLane ops) (arg ops f.maskOperand) =
      (arg ops f.maskOperand).narrowTo (Sizing.laneOfBits (BitmaskImmediate.elementSize (f.fullMask ops))) := by
  obtain ⟨l, lane, bits, le⟩ := h.mask_lanes masked
  have clean := h.passes checked _ hs
  simp only [Slot.fault?, orElse_eq_none, shiftFault?_eq_none] at clean
  have whole := h.shaped_immediate shaped hs rfl clean.1
  have word : f.wordLane ops = some (Sizing.laneOfBits (BitmaskImmediate.elementSize (f.fullMask ops))) := by
    unfold Form.wordLane
    rw [masked]
  rw [Slot.canonical, word, lane]
  show Operand.ofImm (BitmaskImmediate.replicate _ l.bits &&& _) = _
  rw [laneBits, BitmaskImmediate.replicate_low _ le (BitmaskImmediate.size_pos bits)]
  generalize Sizing.laneOfBits (BitmaskImmediate.elementSize (f.fullMask ops)) = l'
  rw [whole]
  rfl

/-- A vector of a form with a bitmask immediate is read back at the lane size of the word. -/
theorem canonical_vector (h : Encodes f cond ops) (shaped : ∀ op ∈ ops, op.Shaped) (masked : f.sizing = .bitmask)
    {i : Nat} {s : Slot} (hs : f.slots[i]? = some s) (still : s.rotates = false) (viewed : s.rule? = some .element)
    (kinds : s.kinds = [.z]) : s.canonical (f.lane ops) (f.wordLane ops) (arg ops i) =
      (arg ops i).narrowTo (Sizing.laneOfBits (BitmaskImmediate.elementSize (f.fullMask ops))) := by
  have kind := Slot.accepts_kind (h.accepts_slot hs)
  rw [kinds, List.mem_singleton] at kind
  have word : f.wordLane ops = some (Sizing.laneOfBits (BitmaskImmediate.elementSize (f.fullMask ops))) := by
    unfold Form.wordLane
    rw [masked]
  rw [h.canonical_slot shaped hs still, Slot.laneOf_of_rule viewed, word, Operand.narrowTo,
    if_neg (by rw [kind]; exact OperandKind.noConfusion)]
  rfl

/-- A bitmask immediate of a general register is read back cut to the register. -/
theorem canonical_bitmask (h : Encodes f cond ops) (shaped : ∀ op ∈ ops, op.Shaped) {i : Nat} {width : Width}
    (hs : f.slots[i]? = some (.bitmask width)) (checked : .value i ∈ f.checks) :
    (Slot.bitmask width).canonical (f.lane ops) (f.wordLane ops) (arg ops i) =
      if width = .w then (arg ops i).cutTo 32 else arg ops i := by
  have clean := h.passes checked _ hs
  simp only [Slot.fault?, orElse_eq_none, shiftFault?_eq_none] at clean
  have whole := h.shaped_immediate shaped hs rfl clean.1
  cases width with
  | w =>
    rw [Slot.canonical, whole]
    rfl
  | x => exact whole.symm

/-- An operand that is not an immediate is not cut. -/
theorem cutTo_slot (h : Encodes f cond ops) {i : Nat} {s : Slot} (hs : f.slots[i]? = some s) (kinds : .imm ∉ s.kinds)
    (bits : Nat) : (arg ops i).cutTo bits = arg ops i := by
  have kind := Slot.accepts_kind (h.accepts_slot hs)
  refine if_neg fun isImm => kinds ?_
  rwa [isImm] at kind

/-- **The operands of a form without a bitmask immediate are read back** as they are, but for qualified predicates. -/
theorem canonical_eq_self (h : Encodes f cond ops) (shaped : ∀ op ∈ ops, op.Shaped) (place : f.bitmaskField? = none)
    (bare : ∀ i s, f.slots[i]? = some s → s.qualified = true → (arg ops i).lane = none) : f.canonical ops = ops := by
  obtain ⟨unmasked, still⟩ := Form.unmasked place
  have same := h.canonical_eq_map (g := id) fun i s hs =>
    h.canonical_plain shaped unmasked hs (still s (List.mem_of_getElem? hs)) (bare i s hs)
  rwa [List.map_id] at same

/-- **The operands of a form with a bitmask immediate are read back** as the normal ones. -/
theorem canonical_eq_normal_of_mask (h : Encodes f cond ops) (shaped : ∀ op ∈ ops, op.Shaped)
    (place : f.bitmaskField? ≠ none) : f.canonical ops = f.normal ops := by
  cases f with
  | logicalImm op width =>
    -- the registers of both widths are read back as they are
    have plain := fun i s hs => h.canonical_plain shaped Sizing.noConfusion (i := i) (s := s) hs
    cases width with
    | w =>
      refine h.canonical_eq_map fun i s hs => ?_
      rcases i with _ | _ | _ | i
      · cases hs
        rw [plain 0 _ rfl rfl Bool.noConfusion, h.cutTo_slot (i := 0) rfl (by simp [Slot.kinds])]
      · cases hs
        rw [plain 1 _ rfl rfl Bool.noConfusion, h.cutTo_slot (i := 1) rfl (by simp [Slot.kinds])]
      · cases hs
        exact h.canonical_bitmask shaped (i := 2) rfl (List.mem_singleton_self _)
      · cases hs
    | x =>
      have same : (Form.logicalImm op .x).normal ops = ops.map id := (List.map_id ops).symm
      rw [same]
      refine h.canonical_eq_map fun i s hs => ?_
      rcases i with _ | _ | _ | i
      · cases hs
        exact plain 0 _ rfl rfl Bool.noConfusion
      · cases hs
        exact plain 1 _ rfl rfl Bool.noConfusion
      · cases hs
        exact h.canonical_bitmask shaped (i := 2) rfl (List.mem_singleton_self _)
      · cases hs
  | bitmask op =>
    refine h.canonical_eq_map fun i s hs => ?_
    rcases i with _ | _ | _ | i
    · cases hs
      exact h.canonical_vector shaped rfl (i := 0) rfl rfl rfl rfl
    · cases hs
      exact h.canonical_vector shaped rfl (i := 1) rfl rfl rfl rfl
    · cases hs
      exact h.canonical_mask shaped rfl rfl (by simp [Form.checks, Form.maskOperand])
    · cases hs
  | dupm =>
    refine h.canonical_eq_map fun i s hs => ?_
    rcases i with _ | _ | i
    · cases hs
      exact h.canonical_vector shaped rfl (i := 0) rfl rfl rfl rfl
    · cases hs
      exact h.canonical_mask shaped rfl rfl (by simp [Form.checks, Form.maskOperand])
    · cases hs
  | _ => exact absurd rfl place

/-- **The operands are read back** as the normal ones. -/
theorem canonical_eq_normal (h : Encodes f cond ops) (shaped : ∀ op ∈ ops, op.Shaped)
    (bare : ∀ op ∈ ops, op.qualifier.isSome = true → op.lane = none) : f.canonical ops = f.normal ops := by
  by_cases place : f.bitmaskField? = none
  · rw [h.canonical_eq_self shaped place fun i s hs qualified => h.bare_slot bare hs qualified, Form.normal_of_unmasked place]
  · exact h.canonical_eq_normal_of_mask shaped place

/-- The operand in a place of the normal operands. -/
theorem arg_map (h : Encodes f cond ops) (g : Operand → Operand) {i : Nat} {s : Slot} (hs : f.slots[i]? = some s) :
    arg (ops.map g) i = g (arg ops i) := by
  obtain ⟨op, at_i, -⟩ := Form.row_get (Form.accepts_iff.mp h.accepted) hs
  rw [Form.arg_of_getElem? at_i]
  exact Form.arg_of_getElem? (by rw [List.getElem?_map, at_i, Option.map_some])

/-- The normal operands of a form on the lanes of a vector are viewed at the lane size of the word. -/
theorem lane_normal (h : Encodes f cond ops) (masked : f.sizing = .bitmask) :
    f.lane (f.normal ops) = some (Sizing.laneOfBits (BitmaskImmediate.elementSize (f.fullMask ops))) := by
  obtain ⟨place, s, hs, kinds⟩ := Form.first_of_masked masked
  have kind := Slot.accepts_kind (h.accepts_slot hs)
  rw [lane_eq masked Sizing.noConfusion, Form.normal_of_masked masked, place, h.arg_map _ hs, Operand.narrowTo, if_neg]
  · rfl
  · intro isImm
    rw [isImm] at kind
    exact kinds kind

/-- **The bitmask immediate of a vector form stands for the same value** in the normal operands. -/
theorem fullMask_normal (h : Encodes f cond ops) (masked : f.sizing = .bitmask) :
    f.fullMask (f.normal ops) = f.fullMask ops := by
  obtain ⟨l, lane, bits, le⟩ := h.mask_lanes masked
  obtain ⟨e, size, -, element, repeats⟩ := h.mask_element masked
  have checked := f.checks_lane
  unfold Form.ChecksLane at checked
  rw [masked] at checked
  obtain ⟨-, -, hs, -⟩ := checked
  obtain ⟨wordBits, wide⟩ := Slot.laneOfBits_spec size
  have kind := Slot.accepts_kind (h.accepts_slot hs)
  have isImm : (arg ops f.maskOperand).kind = .imm := List.mem_singleton.mp kind
  have full : BitmaskImmediate.replicate (arg ops f.maskOperand).imm l.bits = f.fullMask ops := by
    rw [Form.fullMask, lane]
    rfl
  rw [Form.fullMask, h.lane_normal masked, Form.normal_of_masked masked, h.arg_map _ hs, Operand.narrowTo, if_pos isImm,
    Operand.cutTo, if_pos isImm, element]
  rw [element] at le
  show BitmaskImmediate.replicate (_ &&& _) (Sizing.laneOfBits e).bits = _
  -- the lane of the word is cut from the given lane, which is at least as wide
  rw [← BitmaskImmediate.replicate_low _ le (BitmaskImmediate.size_pos bits), full]
  exact BitmaskImmediate.replicate_element (BitmaskImmediate.size_pos wordBits) (repeats _ wordBits wide)

end Instruction.Encodes

namespace Instruction

/-- **The word of an instruction is decoded as the instruction.** The operands come from the constructors, with register
    codes inside the register files, and a predicate that is qualified has no lane size. The word has the fixed bits of
    the form, and is decoded as the same form and condition with the normal operands, which are the operands but for
    bitmask immediates; a bitmask immediate of the lanes of a vector stands for the same 64 bits. -/
theorem decode_of_encode {inst : Instruction} {w : Word} (constructed : ∀ op ∈ inst.ops, op.Constructed)
    (bare : ∀ op ∈ inst.ops, op.qualifier.isSome = true → op.lane = none) (h : inst.encode = .ok w) :
    ∃ f, inst.form = some f ∧ w &&& f.mask = f.opcode ∧ decode w = .ok { inst with ops := f.normal inst.ops } ∧
      (f.sizing = .bitmask → f.fullMask (f.normal inst.ops) = f.fullMask inst.ops) := by
  obtain ⟨f, form, passes, rfl⟩ := encode_eq_ok_iff.mp h
  have shaped : ∀ op ∈ inst.ops, op.Shaped := fun op hop => (constructed op hop).shaped
  refine ⟨f, form, passes.matches_form, ?_, passes.fullMask_normal⟩
  rw [passes.decode, passes.canonical_eq_normal shaped bare, ← form]

/-- A bitmask given for doublewords, with an element of a halfword. -/
theorem decode_of_encode_and : decode 0x058004e1 =
    .ok ⟨some (.bitmask .and), .al, [.ofZ ⟨1, some .h⟩, .ofZ ⟨1, some .h⟩, .ofImm 0xff]⟩ := by
  have encoded : encode ⟨some (.bitmask .and), .al,
      [.ofZ ⟨1, some .d⟩, .ofZ ⟨1, some .d⟩, .ofImm 0x00ff00ff00ff00ff]⟩ = .ok 0x058004e1 := rfl
  obtain ⟨f, form, -, decoded, -⟩ := decode_of_encode
    (by
      simp only [List.forall_mem_cons]
      exact ⟨.ofZ _ (by decide), .ofZ _ (by decide), .ofImm _, fun _ h => absurd h List.not_mem_nil⟩)
    (by decide) encoded
  cases form
  exact decoded

end Instruction

end ArmToolkit.A64
