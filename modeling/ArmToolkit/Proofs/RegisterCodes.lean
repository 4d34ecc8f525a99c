import ArmToolkit.Proofs.Constructed

/-!
# `Proofs.RegisterCodes` — register codes outside their register file

The encoder checks the code of every plain register operand. It does not check the base register of a memory operand,
nor a register that is given with a shift: of these the word takes the lowest five bits.

## Contents
- **Register files.** `Operand.register?` is the register that an operand names, and `Operand.Within` says that its file
  has it.
- **Wrapped operands.** `Form.wrapped` reduces the codes that are not checked to five bits. An instruction and its wrapped
  form are encoded alike (`Instruction.encodes_wrapped`, `Instruction.word_wrapped`).
- **Registers of a word.** `Instruction.Encodes.within`: the wrapped operands name registers of their files, and
  `Instruction.Encodes.registers`: the word names these registers.
-/

namespace ArmToolkit.A64

/-! ## Register files -/

/-- The files of registers that an operand can name. -/
inductive RegisterFile
  | general | vector | predicate
  deriving DecidableEq

/-- The number of registers in a file. Code 31 of a general register is the zero register or the stack pointer. -/
def RegisterFile.size : RegisterFile → Nat
  | general | vector => 32
  | predicate => 16

namespace Operand

/-- The file of the register that an operand names; a memory operand names its base register. -/
def file? (op : Operand) : Option RegisterFile :=
  match op.kind with
  | .x | .w | .mem | .memMulVl => some .general
  | .v | .z => some .vector
  | .p => some .predicate
  | .none | .imm | .pattern | .label => none

/-- **The register that an operand names.** -/
def register? (op : Operand) : Option (RegisterFile × Nat) := op.file?.map fun file => (file, op.reg)

/-- **The register that the operand names, if any, is one of its file.** -/
def Within (op : Operand) : Prop := ∀ r ∈ op.register?, r.2 < r.1.size

instance (op : Operand) : Decidable op.Within := inferInstanceAs (Decidable (∀ r ∈ op.register?, _))

theorem within_iff {op : Operand} : op.Within ↔ ∀ file ∈ op.file?, op.reg < file.size := by
  simp [Within, register?]

theorem kind_of_predicate {op : Operand} (h : RegisterFile.predicate ∈ op.file?) : op.kind = .p := by
  unfold file? at h
  cases kind : op.kind with
  | p => rfl
  | _ =>
    rw [kind] at h
    cases h

/-- The operand with the lowest five bits of its register code. -/
def wrapped (op : Operand) : Operand := { op with reg := op.reg % 32 }

/-- A register code without a fault is one of its file. -/
theorem within_of_fault? {op : Operand} (h : Form.registerFault? op = none) : op.Within := by
  unfold Form.registerFault? at h
  split at h
  · cases h
  · split at h
    · cases h
    · rename_i code
      split at h
      · cases h
      · rename_i predicate
        refine within_iff.mpr fun file named => ?_
        cases file with
        | general | vector => exact Nat.not_le.mp code
        | predicate => exact Nat.not_le.mp (not_and.mp predicate (kind_of_predicate named))

end Operand

/-! ## Wrapped operands -/

namespace Slot

/-- Whether the register of the slot is not checked: it is the base register of a memory operand, or is shifted. -/
def masks : Slot → Bool
  | shifted _ _ | offset _ | registerOffset | vectorOffset => true
  | again s => s.masks
  | _ => false

section

variable {s : Slot} {op : Operand}

theorem register?_of_masks (h : s.masks = true) : s.register? = none := by
  induction s with
  | again s ih => exact ih h
  | shifted | offset | registerOffset | vectorOffset => rfl
  | _ => cases h

theorem file?_of_masks (h : s.masks = true) (accepted : s.accepts op = true) : op.file? = some .general := by
  have kind := accepts_kind accepted
  unfold Operand.file?
  induction s with
  | again s ih => exact ih h accepted kind
  | shifted width rotates => cases width <;> rw [List.mem_singleton.mp kind]
  | offset | registerOffset | vectorOffset => rw [List.mem_singleton.mp kind]
  | _ => cases h

/-- An operand of a slot without a register does not name one. -/
theorem file?_of_none (unmasked : s.masks = false) (none : s.register? = none) (accepted : s.accepts op = true) :
    op.file? = Option.none := by
  have kind := accepts_kind accepted
  unfold Operand.file?
  induction s with
  | again s ih => exact ih unmasked none accepted kind
  | term x source =>
    cases source with
    | reg => cases none
    | imm => rw [List.mem_singleton.mp kind]
  | shifted | offset | registerOffset | vectorOffset => cases unmasked
  | general | generalOfLane | scalarAt | scalar | vector | predicate | governing => cases none
  | _ => rw [List.mem_singleton.mp kind]

/-- The kind of an operand does not depend on its register code. -/
theorem accepts_wrapped (s : Slot) (op : Operand) : s.accepts op.wrapped = s.accepts op := by
  induction s with
  | general _ width _ => cases width <;> rfl
  | shifted width _ => cases width <;> rfl
  | term _ source => cases source <;> rfl
  | again s ih => exact ih
  | _ => rfl

/-- The fault of the value of an operand does not depend on its register code. -/
theorem fault?_wrapped (s : Slot) (lane : Option LaneSize) (op : Operand) :
    s.fault? lane op.wrapped = s.fault? lane op := by
  cases s with
  | term _ source => cases source <;> rfl
  | _ => rfl

/-- **The fields of a slot that does not check the register hold its lowest five bits.** -/
theorem holds_wrapped {lane : Option LaneSize} {w : Word} (h : s.masks = true) (holds : Holds s.fields (s.values lane op) w) :
    Holds s.fields (s.values lane op.wrapped) w := by
  have five : op.wrapped.reg % twoPow 5 = op.reg % twoPow 5 := Nat.mod_mod op.reg 32
  cases s with
  | shifted width rotates =>
    obtain ⟨type, reg, amount⟩ := holds_three.mp holds
    exact holds_three.mpr ⟨type, reg.trans five.symm, amount⟩
  | offset scale =>
    obtain ⟨place, base⟩ := holds_two.mp holds
    exact holds_two.mpr ⟨place, base.trans five.symm⟩
  | registerOffset =>
    obtain ⟨upper, lower, base⟩ := holds_three.mp holds
    exact holds_three.mpr ⟨upper, lower, base.trans five.symm⟩
  | vectorOffset =>
    obtain ⟨place, base⟩ := holds_two.mp holds
    exact holds_two.mpr ⟨place, base.trans five.symm⟩
  | again s => exact holds
  | _ => cases h

/-- What is kept of an operand names a register of the same file. -/
theorem file?_canonical (accepted : s.accepts op = true) (given lane : Option LaneSize) :
    (s.canonical given lane op).file? = op.file? := by
  have kind := accepts_kind accepted
  -- slots keep the kind of an operand, but for a register that is as wide as the lane asks
  induction s with
  | again s ih => exact ih accepted kind
  | general x width c =>
    cases width <;> simp [Operand.file?, List.mem_singleton.mp kind, canonical, Operand.ofX]
  | shifted width rotates =>
    cases width <;> simp [Operand.file?, List.mem_singleton.mp kind, canonical, Operand.shifted, Operand.ofX]
  | bitmask width =>
    cases width <;> simp [Operand.file?, List.mem_singleton.mp kind, canonical, Operand.ofImm]
  | generalOfLane x c =>
    have either : op.file? = some .general := by
      rcases List.mem_pair.mp kind with h | h <;> rw [Operand.file?, h]
    rw [either, canonical]
    cases isDouble lane <;> rfl
  | term x source =>
    cases source with
    | reg =>
      have either : op.file? = some .general := by
        rcases List.mem_pair.mp kind with h | h <;> rw [Operand.file?, h]
      rw [either, canonical]
      cases isDouble lane <;> rfl
    | imm => simp [Operand.file?, List.mem_singleton.mp kind, canonical, Operand.ofImm]
  | _ =>
    simp [Operand.file?, List.mem_singleton.mp kind, canonical, Operand.ofV, Operand.ofZ, Operand.ofP, Operand.ofImm,
      Operand.shiftedImm, Operand.label, Operand.ofPattern, Operand.memOffset, Operand.mulVl]

/-- A slot that does not check the register keeps the lowest five bits of its code. -/
theorem reg_canonical_of_masks (h : s.masks = true) (given lane : Option LaneSize) :
    (s.canonical given lane op).reg = op.wrapped.reg := by
  induction s with
  | again s ih => exact ih h
  | shifted | offset | registerOffset | vectorOffset => rfl
  | _ => cases h

end

end Slot

namespace Form

/-- Whether the form has a slot in the place that does not check its register. -/
def masks (f : Form) (i : Nat) : Bool := f.slots[i]?.any Slot.masks

/-- An operand, wrapped where its place does not check the register. -/
def wrap (f : Form) (i : Nat) (op : Operand) : Operand := if f.masks i then op.wrapped else op

/-- **The operands with the codes that are not checked reduced to five bits.** -/
def wrapped (f : Form) (ops : List Operand) : List Operand := ops.mapIdx f.wrap

section

variable {f : Form} {ops : List Operand} {i : Nat}

theorem masks_of_slot {s : Slot} (hs : f.slots[i]? = some s) : f.masks i = s.masks := by
  rw [masks, hs, Option.any_some]

theorem wrap_of_masks (h : f.masks i = true) (op : Operand) : f.wrap i op = op.wrapped := if_pos h

theorem wrap_of_unmasked (h : f.masks i = false) (op : Operand) : f.wrap i op = op := if_neg (by simp [h])

@[simp] theorem wrap_kind (f : Form) (i : Nat) (op : Operand) : (f.wrap i op).kind = op.kind := by
  unfold wrap
  split <;> rfl

@[simp] theorem wrap_lane (f : Form) (i : Nat) (op : Operand) : (f.wrap i op).lane = op.lane := by
  unfold wrap
  split <;> rfl

theorem accepts_wrap (s : Slot) (f : Form) (i : Nat) (op : Operand) : s.accepts (f.wrap i op) = s.accepts op := by
  unfold wrap
  split
  · exact s.accepts_wrapped op
  · rfl

theorem getElem?_wrapped (f : Form) (ops : List Operand) (i : Nat) :
    (f.wrapped ops)[i]? = ops[i]?.map (f.wrap i) := List.getElem?_mapIdx

@[simp] theorem length_wrapped (f : Form) (ops : List Operand) : (f.wrapped ops).length = ops.length := List.length_mapIdx

theorem arg_wrapped (f : Form) (ops : List Operand) (i : Nat) : arg (f.wrapped ops) i = f.wrap i (arg ops i) := by
  rw [arg, arg, List.getD_eq_getElem?_getD, List.getD_eq_getElem?_getD, getElem?_wrapped]
  cases ops[i]? with
  | some op => rfl
  | none =>
    unfold wrap
    split <;> rfl

theorem lane_wrapped (f : Form) (ops : List Operand) : f.lane (f.wrapped ops) = f.lane ops := by
  unfold Form.lane
  split
  · rw [arg_wrapped, wrap_kind]
  · rw [arg_wrapped, wrap_lane]

/-- Rows over wrapped operands are rows over the operands. -/
theorem forall₂_wrapped {R S : Slot → Operand → Prop}
    (step : ∀ i s, f.slots[i]? = some s → ∀ op, R s op → S s (f.wrap i op)) (h : List.Forall₂ R f.slots ops) :
    List.Forall₂ S f.slots (f.wrapped ops) := by
  refine forall₂_of_places (by rw [length_wrapped, h.length_eq]) fun i s op hs at_i => ?_
  obtain ⟨op', known, related⟩ := row_get h hs
  rw [getElem?_wrapped, known] at at_i
  cases at_i
  exact step i s hs op' related

theorem forall₂_of_wrapped {R S : Slot → Operand → Prop}
    (step : ∀ i s, f.slots[i]? = some s → ∀ op, R s (f.wrap i op) → S s op)
    (h : List.Forall₂ R f.slots (f.wrapped ops)) : List.Forall₂ S f.slots ops := by
  refine forall₂_of_places (by rw [h.length_eq, length_wrapped]) fun i s op hs at_i => ?_
  obtain ⟨op', known, related⟩ := row_get h hs
  rw [getElem?_wrapped, at_i] at known
  cases known
  exact step i s hs op related

theorem accepts_wrapped : f.accepts (f.wrapped ops) = true ↔ f.accepts ops = true := by
  rw [accepts_iff, accepts_iff]
  constructor
  · refine forall₂_of_wrapped fun i s _ op h => ?_
    rwa [accepts_wrap] at h
  · refine forall₂_wrapped fun i s _ op h => ?_
    rwa [accepts_wrap]

/-- The check of plain registers leaves out the places that are wrapped. -/
theorem namesPlainRegister_of_masks {s : Slot} (hs : f.slots[i]? = some s) (h : s.masks = true) {op : Operand}
    (accepted : s.accepts op = true) : f.namesPlainRegister i op = false := by
  rcases f.slots_named s (List.mem_of_getElem? hs) with named | shifts | none
  · rw [Slot.register?_of_masks h] at named
    cases named
  · exact namesPlainRegister_of_shifts hs shifts op
  · exact namesPlainRegister_of_noRegister none accepted i

theorem plainFault?_wrapped (accepted : f.accepts ops = true) :
    f.plainFault? (f.wrapped ops) = none ↔ f.plainFault? ops = none := by
  -- a place that is wrapped does not name a plain register, before and after
  have place : ∀ {i op}, ops[i]? = some op →
      f.wrap i op = op ∨ f.namesPlainRegister i op = false ∧ f.namesPlainRegister i (f.wrap i op) = false := by
    intro i op at_i
    cases masked : f.masks i with
    | false => exact .inl (wrap_of_unmasked masked op)
    | true =>
      obtain ⟨s, hs, taken⟩ := row_get (accepts_iff.mp accepted).flip at_i
      rw [masks_of_slot hs] at masked
      exact .inr ⟨namesPlainRegister_of_masks hs masked taken,
        namesPlainRegister_of_masks hs masked (by rwa [accepts_wrap])⟩
  rw [plainFault?_eq_none, plainFault?_eq_none]
  constructor
  · intro h i op at_i plain
    rcases place at_i with same | ⟨other, -⟩
    · have clean := h i (f.wrap i op) (by rw [getElem?_wrapped, at_i]; rfl)
      rw [same] at clean
      exact clean plain
    · rw [other] at plain
      cases plain
  · intro h i op' at_i plain
    rw [getElem?_wrapped] at at_i
    obtain ⟨op, known, rfl⟩ := Option.map_eq_some_iff.mp at_i
    rcases place known with same | ⟨-, other⟩
    · rw [same] at plain ⊢
      exact h i op known plain
    · rw [other] at plain
      cases plain

/-- A slot with a register that is checked is left alone. -/
theorem wrap_of_named {s : Slot} (hs : f.slots[i]? = some s) {x : Field} (named : s.register? = some x) (op : Operand) :
    f.wrap i op = op := by
  refine wrap_of_unmasked ?_ op
  rw [masks_of_slot hs]
  by_contra masked
  rw [Slot.register?_of_masks (by simpa using masked)] at named
  cases named

/-- **No check of a form looks at a code that is wrapped.** -/
theorem passes_wrapped {lane : Option LaneSize} {c : Check} (just : c.Justified f lane) :
    c.Passes f (f.wrapped ops) ↔ c.Passes f ops := by
  cases c with
  | laneAllowed | laneIs | sameLane => simp only [Check.Passes, arg_wrapped, wrap_lane]
  | sameKind => simp only [Check.Passes, arg_wrapped, wrap_kind]
  | tied i j =>
    obtain ⟨s, hs, t, ht, x, first, second⟩ := just
    simp only [Check.Passes, arg_wrapped, wrap_of_named hs first, wrap_of_named ht second]
  | below i count =>
    obtain ⟨s, hs, x, named, -⟩ := just
    simp only [Check.Passes, arg_wrapped, wrap_of_named hs named]
  | value i =>
    have same : ∀ (s : Slot) op, s.fault? (f.lane ops) (f.wrap i op) = s.fault? (f.lane ops) op := by
      intro s op
      unfold wrap
      split
      · exact s.fault?_wrapped _ op
      · rfl
    simp only [Check.Passes, arg_wrapped, lane_wrapped, same]

end

end Form

namespace Instruction

variable {f : Form} {cond : Condition} {ops : List Operand}

/-- Wrapped operands have a fault exactly if the operands have one, where the form is read at some lane size. -/
theorem fault?_wrapped {lane : Option LaneSize} (accepted : f.accepts ops = true) (known : lane ∈ f.wordLanes) :
    f.fault? (f.wrapped ops) = none ↔ f.fault? ops = none := by
  rw [Form.fault?_eq_none, Form.fault?_eq_none, Form.plainFault?_wrapped accepted]
  refine and_congr_right fun _ => forall₂_congr fun c hc => ?_
  exact Form.passes_wrapped (f.checks_justified lane known c hc)

/-- **An instruction has a word if its wrapped form has one.** -/
theorem encodes_wrapped : Encodes f cond (f.wrapped ops) ↔ Encodes f cond ops := by
  constructor
  · intro h
    have accepted := Form.accepts_wrapped.mp h.accepted
    exact ⟨accepted, h.conditional, (fault?_wrapped accepted h.decodes.lane_mem).mp h.clean⟩
  · intro h
    exact ⟨Form.accepts_wrapped.mpr h.accepted, h.conditional,
      (fault?_wrapped h.accepted h.decodes.lane_mem).mpr h.clean⟩

/-- **The word is that of the wrapped form.** -/
theorem word_wrapped (h : Encodes f cond ops) : word f cond (f.wrapped ops) = word f cond ops := by
  have own : ownValues f cond (f.wrapped ops) = ownValues f cond ops := by
    unfold ownValues
    split
    · rfl
    · rw [Form.lane_wrapped]
  -- the word holds the wrapped operands as well, and what a word holds determines it
  have row : List.Forall₂ (fun s op => Holds (Slot.fields s) (s.values (f.lane ops) op) (word f cond ops)) f.slots
      (f.wrapped ops) := by
    refine Form.forall₂_wrapped (fun i s hs op holds => ?_) h.holds_row
    cases masked : f.masks i with
    | false => rwa [Form.wrap_of_unmasked masked]
    | true =>
      rw [Form.wrap_of_masks masked]
      exact Slot.holds_wrapped ((Form.masks_of_slot hs).symm.trans masked) holds
  have holds : Holds f.fields (ownValues f cond (f.wrapped ops) ++ operandValues f (f.wrapped ops)) (word f cond ops) := by
    rw [own, operandValues, Form.lane_wrapped]
    exact h.holds_own.append (holds_flatMap row)
  rw [word, putAll_of_holds holds, ← putAll_of_holds h.holds, word]

end Instruction

/-! ## Registers of a word -/

namespace Instruction.Encodes

variable {f : Form} {cond : Condition} {ops : List Operand}

/-- **Every register of the wrapped form is one of its file.** -/
theorem within (h : Encodes f cond ops) : ∀ op ∈ f.wrapped ops, op.Within := by
  intro op' mem
  obtain ⟨i, at_i⟩ := List.getElem?_of_mem mem
  rw [Form.getElem?_wrapped] at at_i
  obtain ⟨op, known, rfl⟩ := Option.map_eq_some_iff.mp at_i
  obtain ⟨s, hs, accepted⟩ := Form.row_get (Form.accepts_iff.mp h.accepted).flip known
  -- a code that is not checked is that of a general register, of which there are as many as five bits can tell apart
  cases masked : s.masks with
  | true =>
    rw [Form.wrap_of_masks ((Form.masks_of_slot hs).trans masked), Operand.within_iff]
    intro file named
    have general : op.file? = some .general := Slot.file?_of_masks masked accepted
    cases Option.some.inj (named.symm.trans general)
    exact Nat.mod_lt op.reg (by decide)
  | false =>
    rw [Form.wrap_of_unmasked ((Form.masks_of_slot hs).trans masked)]
    cases named : s.register? with
    | some x =>
      have clean := h.registerFault? hs (by rw [named]; rfl)
      rw [Form.arg_of_getElem? known] at clean
      exact Operand.within_of_fault? clean
    | none =>
      rw [Operand.within_iff, Slot.file?_of_none masked named accepted]
      intro file impossible
      cases impossible

/-- A register is left alone exactly if it is one of its file. -/
theorem register?_wrap (h : Encodes f cond ops) {i : Nat} {op : Operand} (at_i : ops[i]? = some op) :
    (f.wrap i op).register? = op.register? ↔ op.Within := by
  have inside : (f.wrap i op).Within := h.within _ (List.mem_of_getElem? (by rw [Form.getElem?_wrapped, at_i]; rfl))
  constructor
  · intro same
    rwa [Operand.Within, same] at inside
  · intro fits
    obtain ⟨s, hs, accepted⟩ := Form.row_get (Form.accepts_iff.mp h.accepted).flip at_i
    cases masked : s.masks with
    | false => rw [Form.wrap_of_unmasked ((Form.masks_of_slot hs).trans masked)]
    | true =>
      have general := Slot.file?_of_masks masked accepted
      have small : op.reg % 32 = op.reg := Nat.mod_eq_of_lt (Operand.within_iff.mp fits _ general)
      rw [Form.wrap_of_masks ((Form.masks_of_slot hs).trans masked), Operand.wrapped, small]

theorem register?_canonical (h : Encodes f cond ops) {i : Nat} {s : Slot} (hs : f.slots[i]? = some s) {op : Operand}
    (at_i : ops[i]? = some op) (given lane : Option LaneSize) :
    (s.canonical given lane op).register? = (f.wrap i op).register? := by
  have accepted := h.accepts_slot hs
  have keeps := h.keepsRegister hs
  rw [Form.arg_of_getElem? at_i] at accepted keeps
  cases masked : s.masks with
  | true =>
    rw [Form.wrap_of_masks ((Form.masks_of_slot hs).trans masked), Operand.register?, Operand.register?,
      Slot.file?_canonical accepted, Slot.reg_canonical_of_masks masked]
    rfl
  | false =>
    rw [Form.wrap_of_unmasked ((Form.masks_of_slot hs).trans masked), Operand.register?, Operand.register?,
      Slot.file?_canonical accepted]
    cases named : s.register? with
    | some x => rw [Slot.reg_canonical named, Nat.mod_eq_of_lt (keeps x named).1]
    | none =>
      rw [Slot.file?_of_none masked named accepted]
      rfl

/-- **The operands as they are read back name the registers of the wrapped form.** -/
theorem registers (h : Encodes f cond ops) :
    (f.canonical ops).map Operand.register? = (f.wrapped ops).map Operand.register? := by
  apply List.ext_getElem?
  intro i
  rw [List.getElem?_map, List.getElem?_map, Form.getElem?_wrapped, Form.canonical, List.getElem?_zipWith]
  cases at_i : ops[i]? with
  | none => cases f.slots[i]? <;> rfl
  | some op =>
    obtain ⟨s, hs, -⟩ := Form.row_get (Form.accepts_iff.mp h.accepted).flip at_i
    rw [hs]
    exact congrArg some (h.register?_canonical hs at_i _ _)

/-- **Wrapping changes no register exactly if each is one of its file.** -/
theorem registers_wrapped (h : Encodes f cond ops) :
    (f.wrapped ops).map Operand.register? = ops.map Operand.register? ↔ ∀ op ∈ ops, op.Within := by
  constructor
  · intro same op mem
    obtain ⟨i, at_i⟩ := List.getElem?_of_mem mem
    have here := congrArg (·[i]?) same
    simp only [List.getElem?_map, Form.getElem?_wrapped, at_i, Option.map_some, Option.some.injEq] at here
    exact (h.register?_wrap at_i).mp here
  · intro fits
    apply List.ext_getElem?
    intro i
    rw [List.getElem?_map, List.getElem?_map, Form.getElem?_wrapped]
    cases at_i : ops[i]? with
    | none => rfl
    | some op => exact congrArg some ((h.register?_wrap at_i).mpr (fits op (List.mem_of_getElem? at_i)))

end Instruction.Encodes

namespace Instruction

/-- **Which registers are encoded.** A register code outside its file is rejected in every place but two kinds: the base
    register of a memory operand and a register with a shift are taken modulo 32, so that the word names the registers
    of the operands exactly if all of these are registers of their files. -/
theorem encode_registers (f : Form) (cond : Condition) (ops : List Operand) :
    (∀ i op, ops[i]? = some op → f.masks i = false → ¬ op.Within → ∃ why, encode ⟨some f, cond, ops⟩ = .error why) ∧
    (∀ w, encode ⟨some f, cond, f.wrapped ops⟩ = .ok w ↔ encode ⟨some f, cond, ops⟩ = .ok w) ∧
    ∀ w, encode ⟨some f, cond, ops⟩ = .ok w → ∃ d, decode w = .ok d ∧ d.form = some f ∧
      d.ops.map Operand.register? = (f.wrapped ops).map Operand.register? ∧
      (d.ops.map Operand.register? = ops.map Operand.register? ↔ ∀ op ∈ ops, op.Within) := by
  refine ⟨fun i op at_i unmasked outside => ?_, fun w => ?_, fun w ok => ?_⟩
  · cases result : encode ⟨some f, cond, ops⟩ with
    | error why => exact ⟨why, rfl⟩
    | ok w =>
      obtain ⟨h, -⟩ := encode_form_eq_ok_iff.mp result
      refine absurd (h.within op (List.mem_of_getElem? (i := i) ?_)) outside
      rw [Form.getElem?_wrapped, at_i, Option.map_some, Form.wrap_of_unmasked unmasked]
  · rw [encode_form_eq_ok_iff, encode_form_eq_ok_iff, encodes_wrapped]
    exact and_congr_right fun h => by rw [word_wrapped h]
  · obtain ⟨h, rfl⟩ := encode_form_eq_ok_iff.mp ok
    refine ⟨_, h.decode, rfl, h.registers, ?_⟩
    rw [h.registers, h.registers_wrapped]

/-- A store of `x33` is rejected, and one at `[x32]` has a word, which names `x0` for its base. -/
theorem encode_registers_store :
    (∃ why, encode ⟨some (.transfer .store .x), .al, [.ofX (.x 33), .memOffset 32 0]⟩ = .error why) ∧
      ∃ d, decode 0xf9000000#32 = .ok d ∧ d.form = some (.transfer .store .x) ∧
        d.ops.map Operand.register? = [some (.general, 0), some (.general, 0)] ∧
        (d.ops.map Operand.register? = [some (.general, 0), some (.general, 32)] ↔
          ∀ op ∈ [Operand.ofX (.x 0), .memOffset 32 0], op.Within) :=
  ⟨(encode_registers (.transfer .store .x) .al [.ofX (.x 33), .memOffset 32 0]).1 0 _ rfl rfl (by decide),
    (encode_registers (.transfer .store .x) .al [.ofX (.x 0), .memOffset 32 0]).2.2 _ rfl⟩

/-- Two words that name a register of another code: a sum with `x34`, which is one with `x2`, and a store at `[x32]`,
    which is one at `[x0]`. -/
theorem encode_masked_codes :
    encode ⟨some (.addSubShifted .add .x), .al, [.ofX (.x 0), .ofX (.x 1), .ofX (.x 34)]⟩ = .ok 0x8b020020#32 ∧
      encode ⟨some (.addSubShifted .add .x), .al, [.ofX (.x 0), .ofX (.x 1), .ofX (.x 2)]⟩ = .ok 0x8b020020#32 ∧
      ¬ (Operand.ofX (.x 34)).Within ∧
      encode ⟨some (.transfer .store .x), .al, [.ofX (.x 0), .memOffset 32 0]⟩ = .ok 0xf9000000#32 ∧
      encode ⟨some (.transfer .store .x), .al, [.ofX (.x 0), .memOffset 0 0]⟩ = .ok 0xf9000000#32 ∧
      ¬ (Operand.memOffset 32 0).Within :=
  ⟨rfl, rfl, by decide, rfl, rfl, by decide⟩

end Instruction

end ArmToolkit.A64
