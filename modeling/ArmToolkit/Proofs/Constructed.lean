import ArmToolkit.Proofs.Encoded

/-!
# `Proofs.Constructed` — operands made by the constructors, and what is read back of them

## Contents
- **Constructed operands.** `Operand.Constructed`: an operand that a constructor makes, with register codes inside the
  register files.
- **One operand.** `Slot.canonical_eq`: a slot without a rotation keeps all of a constructed operand but the lane size.
- **Checked lane sizes.** `Form.ChecksLaneOf`: the checks of a form fix the lane size of every operand that is not a
  qualified predicate.
-/

namespace ArmToolkit.A64

/-! ## Constructed operands -/

/-- **An operand that a constructor makes**, with a register code inside its register file. -/
inductive Operand.Constructed : Operand → Prop
  | ofX (r : XReg) (code : r.code < 32) : Constructed (.ofX r)
  | shifted (r : XReg) (type : ShiftType) (amount : Nat) (code : r.code < 32) : Constructed (.shifted r type amount)
  | ofV (r : VReg) (code : r.code < 32) : Constructed (.ofV r)
  | ofZ (r : ZReg) (code : r.code < 32) : Constructed (.ofZ r)
  | ofP (r : PReg) (code : r.code < 16) : Constructed (.ofP r)
  | ofImm (value : BitVec 64) : Constructed (.ofImm value)
  | shiftedImm (value : BitVec 64) (shift : Nat) : Constructed (.shiftedImm value shift)
  | ofPattern (bits : Nat) : Constructed (.ofPattern bits)
  | memOffset (base : Nat) (offset : BitVec 64) (code : base < 32) : Constructed (.memOffset base offset)
  | mulVl (base : Nat) (offset : BitVec 64) (code : base < 32) : Constructed (.mulVl base offset)
  | label (offset : BitVec 64) : Constructed (.label offset)

/-- The operand has the fields of its kind, and the others are not set. -/
def Operand.Shaped (op : Operand) : Prop :=
  match op.kind with
  | .none => False
  | .x => op = .shifted ⟨op.reg, .x⟩ op.shiftType op.shift ∧ op.reg < 32
  | .w => op = .shifted ⟨op.reg, .w⟩ op.shiftType op.shift ∧ op.reg < 32
  | .v => op = .ofV ⟨op.reg, op.lane⟩ ∧ op.reg < 32
  | .z => op = .ofZ ⟨op.reg, op.lane⟩ ∧ op.reg < 32
  | .p => op = .ofP ⟨op.reg, op.lane, op.qualifier⟩ ∧ op.reg < 16
  | .imm => op = .shiftedImm op.imm op.shift
  | .pattern => op = .ofPattern op.imm.toNat
  | .mem => op = .memOffset op.reg op.imm ∧ op.reg < 32
  | .memMulVl => op = .mulVl op.reg op.imm ∧ op.reg < 32
  | .label => op = .label op.imm

theorem Operand.Constructed.shaped {op : Operand} (h : op.Constructed) : op.Shaped := by
  cases h with
  | ofX r code =>
    obtain ⟨n, width⟩ := r
    cases width <;> exact ⟨rfl, code⟩
  | shifted r type amount code =>
    obtain ⟨n, width⟩ := r
    cases width <;> exact ⟨rfl, code⟩
  | ofPattern bits =>
    show Operand.ofPattern bits = Operand.ofPattern (Slot.natImm bits).toNat
    rw [Operand.ofPattern, Operand.ofPattern]
    congr 1
    exact (Slot.natImm_toNat (Slot.natImm bits)).symm
  | ofV _ code | ofZ _ code | ofP _ code | memOffset _ _ code | mulVl _ _ code => exact ⟨rfl, code⟩
  | ofImm | shiftedImm | label => rfl

/-- The operand at another lane size. -/
def Operand.withLane (op : Operand) (lane : Option LaneSize) : Operand := { op with lane }

namespace Slot

/-! ## One operand -/

section

variable {given lane : Option LaneSize} {op : Operand}

/-- The register of an operand fits the field of its slot, and is not shifted. -/
def KeepsRegister (s : Slot) (op : Operand) : Prop :=
  ∀ x, s.register? = some x → op.reg < twoPow x.width ∧ op.shift = 0 ∧ op.shiftType = .lsl

/-- An operand that is built in one way is kept if what it is built from is. -/
theorem keeps_of_eq {op built : Operand} (whole : op = built) {kept : Operand} (h : kept = built.withLane lane) :
    kept = op.withLane lane := by rw [h, ← whole]

theorem canonical_general {x : Field} {width : Width} {c : Code31} (shaped : op.Shaped)
    (accepted : (general x width c).accepts op = true) (keeps : (general x width c).KeepsRegister op) :
    (general x width c).canonical given lane op = op.withLane none := by
  unfold Operand.Shaped at shaped
  obtain ⟨reg, shift, type⟩ := keeps x rfl
  have kept : op.reg % twoPow x.width = op.reg := Nat.mod_eq_of_lt reg
  cases width with
  | x =>
    rw [show op.kind = .x from beq_iff_eq.mp accepted] at shaped
    refine keeps_of_eq shaped.1 ?_
    rw [canonical, kept, shift, type]
    rfl
  | w =>
    rw [show op.kind = .w from beq_iff_eq.mp accepted] at shaped
    refine keeps_of_eq shaped.1 ?_
    rw [canonical, kept, shift, type]
    rfl

theorem canonical_generalOfLane {x : Field} {c : Code31} (shaped : op.Shaped)
    (accepted : (generalOfLane x c).accepts op = true) (keeps : (generalOfLane x c).KeepsRegister op)
    (clean : widthFault? lane op = none) : (generalOfLane x c).canonical given lane op = op.withLane none := by
  rw [widthFault?, ite_some_eq_none] at clean
  have general : ∀ width, (general x width c).accepts op = true →
      (general x width c).canonical given lane op = op.withLane none := fun _ accepted =>
    canonical_general shaped accepted keeps
  cases wide : isDouble lane with
  | true =>
    have kind : op.kind = .x := beq_iff_eq.mp (by rw [clean, wide])
    rw [canonical, wide]
    exact general .x (beq_iff_eq.mpr kind)
  | false =>
    have other : (op.kind == .x) = false := by rw [clean, wide]
    have kind : op.kind = .w := by
      simp only [accepts, Operand.isGeneral, other, Bool.false_or] at accepted
      exact beq_iff_eq.mp accepted
    rw [canonical, wide]
    exact general .w (beq_iff_eq.mpr kind)

/-- **A slot keeps all of a constructed operand but the lane size**, where nothing rotates. -/
theorem canonical_eq {s : Slot} (shaped : op.Shaped) (accepted : s.accepts op = true) (keeps : s.KeepsRegister op)
    (clean : s.source.fault? given op = none) (same : s.measured = true → given = lane) (still : s.rotates = false) :
    s.canonical given lane op = op.withLane (s.laneOf lane) := by
  have kept : ∀ x, s.register? = some x → op.reg % twoPow x.width = op.reg := fun x field =>
    Nat.mod_eq_of_lt (keeps x field).1
  have shape := shaped
  unfold Operand.Shaped at shaped
  induction s with
  | general x width c => exact canonical_general shape accepted keeps
  | generalOfLane x c =>
    rw [same rfl] at clean
    exact canonical_generalOfLane shape accepted keeps clean
  | shifted width rotates =>
    cases width with
    | x =>
      rw [show op.kind = .x from beq_iff_eq.mp accepted] at shaped
      refine keeps_of_eq shaped.1 ?_
      rw [canonical, show op.reg % twoPow 5 = op.reg from Nat.mod_eq_of_lt shaped.2]
      rfl
    | w =>
      rw [show op.kind = .w from beq_iff_eq.mp accepted] at shaped
      refine keeps_of_eq shaped.1 ?_
      rw [canonical, show op.reg % twoPow 5 = op.reg from Nat.mod_eq_of_lt shaped.2]
      rfl
  | scalarAt x l =>
    rw [show op.kind = .v from beq_iff_eq.mp (Bool.and_eq_true_iff.mp accepted).1] at shaped
    refine keeps_of_eq shaped.1 ?_
    rw [canonical, kept x rfl]
    rfl
  | scalar x rule =>
    rw [show op.kind = .v from beq_iff_eq.mp accepted] at shaped
    refine keeps_of_eq shaped.1 ?_
    rw [canonical, kept x rfl]
    rfl
  | vector x rule =>
    rw [show op.kind = .z from beq_iff_eq.mp accepted] at shaped
    refine keeps_of_eq shaped.1 ?_
    rw [canonical, kept x rfl]
    rfl
  | predicate x rule q =>
    obtain ⟨kind, qualifier⟩ := Bool.and_eq_true_iff.mp accepted
    rw [show op.kind = .p from beq_iff_eq.mp kind] at shaped
    refine keeps_of_eq shaped.1 ?_
    rw [canonical, kept x rfl, show op.qualifier = q from beq_iff_eq.mp qualifier]
    rfl
  | governing x m =>
    rw [show op.kind = .p from beq_iff_eq.mp (Bool.and_eq_true_iff.mp accepted).1] at shaped
    refine keeps_of_eq shaped.1 ?_
    rw [canonical, kept x rfl]
    rfl
  | again s ih => exact ih accepted keeps clean same still kept
  | halfword | arithmetic | byte =>
    rw [show op.kind = .imm from beq_iff_eq.mp accepted] at shaped
    exact keeps_of_eq shaped rfl
  | bitmask | laneBitmask => cases still
  | target x =>
    rw [show op.kind = .label from beq_iff_eq.mp accepted] at shaped
    exact keeps_of_eq shaped rfl
  | code | unsigned x | signed x | multiplier | scalarIndex | vectorIndex =>
    rw [show op.kind = .imm from beq_iff_eq.mp accepted] at shaped
    have shift : op.shift = 0 := by
      simp only [source, fault?, signedFault?, orElse_eq_none, shiftFault?_eq_none] at clean
      omega
    refine keeps_of_eq shaped ?_
    rw [shift]
    rfl
  | term x source =>
    cases source with
    | reg =>
      rw [same rfl] at clean
      show (generalOfLane x .zero).canonical given lane op = _
      exact canonical_generalOfLane shape accepted keeps clean
    | imm =>
      rw [show op.kind = .imm from beq_iff_eq.mp accepted] at shaped
      -- an immediate may be given with a shift, which the check of its value refuses
      have shift : op.shift = 0 := by
        simp only [Slot.source, fault?, signedFault?, orElse_eq_none, shiftFault?_eq_none] at clean
        exact clean.2
      refine keeps_of_eq shaped ?_
      rw [shift]
      rfl
  | pattern =>
    rw [show op.kind = .pattern from beq_iff_eq.mp accepted] at shaped
    exact keeps_of_eq shaped rfl
  | offset scale =>
    rw [show op.kind = .mem from beq_iff_eq.mp accepted] at shaped
    refine keeps_of_eq shaped.1 ?_
    rw [canonical, show op.reg % twoPow 5 = op.reg from Nat.mod_eq_of_lt shaped.2]
    rfl
  | registerOffset | vectorOffset =>
    rw [show op.kind = .memMulVl from beq_iff_eq.mp accepted] at shaped
    refine keeps_of_eq shaped.1 ?_
    rw [canonical, show op.reg % twoPow 5 = op.reg from Nat.mod_eq_of_lt shaped.2]
    rfl

/-- A slot that names a register takes nothing but registers. -/
theorem kinds_of_named {s : Slot} (named : s.register?.isSome = true) :
    ∀ k ∈ s.kinds, k = .x ∨ k = .w ∨ k = .v ∨ k = .z ∨ k = .p := by
  induction s with
  | general x width c => cases width <;> simp [kinds]
  | term x source =>
    cases source with
    | reg => simp [kinds]
    | imm => cases named
  | again s ih => exact ih named
  | generalOfLane | scalarAt | scalar | vector | predicate | governing => simp [kinds]
  | _ => cases named

/-- How the slot gives its operand a lane size, where it does. -/
def rule? : Slot → Option LaneRule
  | scalar _ rule | vector _ rule | predicate _ rule _ => some rule
  | again s => s.rule?
  | _ => none

theorem laneOf_of_rule {s : Slot} {rule : LaneRule} (h : s.rule? = some rule) (lane : Option LaneSize) :
    s.laneOf lane = rule.apply lane := by
  induction s with
  | scalar | vector | predicate =>
    cases h
    rfl
  | again s ih => exact ih h
  | _ => cases h

/-- An operand of a slot that takes neither vectors nor predicates has no lane size. -/
theorem lane_of_kinds {s : Slot} (shaped : op.Shaped) (accepted : s.accepts op = true)
    (plain : ∀ k ∈ s.kinds, k ≠ .v ∧ k ≠ .z ∧ k ≠ .p) : op.lane = none := by
  obtain ⟨v, z, p⟩ := plain _ (accepts_kind accepted)
  unfold Operand.Shaped at shaped
  cases kind : op.kind with
  | v => exact absurd kind v
  | z => exact absurd kind z
  | p => exact absurd kind p
  | none =>
    rw [kind] at shaped
    exact shaped.elim
  | x | w | mem | memMulVl =>
    rw [kind] at shaped
    rw [shaped.1]
    rfl
  | imm | pattern | label =>
    rw [kind] at shaped
    rw [shaped]
    rfl

/-- Whether the slot takes a qualified predicate. -/
def qualified : Slot → Bool
  | predicate _ _ q => q.isSome
  | governing _ _ => true
  | again s => s.qualified
  | _ => false

/-- The lane size of an operand whose slot has no rule for it. -/
theorem lane_of_unruled {s : Slot} (shaped : op.Shaped) (accepted : s.accepts op = true) (unruled : s.rule? = none)
    (bare : s.qualified = true → op.lane = none) : op.lane = s.laneOf lane := by
  induction s with
  | scalarAt x l => exact beq_iff_eq.mp (Bool.and_eq_true_iff.mp accepted).2
  | governing x m => exact bare rfl
  | scalar | vector | predicate => cases unruled
  | again s ih => exact ih accepted unruled bare
  | general x width c | shifted width c => cases width <;> exact lane_of_kinds shaped accepted (by simp [kinds])
  | term x source => cases source <;> exact lane_of_kinds shaped accepted (by simp [kinds])
  | _ => exact lane_of_kinds shaped accepted (by simp [kinds])

end

end Slot

namespace Form

/-! ## Checked registers and lane sizes -/

/-- The register of the slot fits its field: the field is as wide as the register file, or a check sets the limit. -/
def ChecksRegister (f : Form) (s : Slot) (i : Nat) : Prop :=
  ∀ x ∈ s.register?, 32 ≤ twoPow x.width ∨ (s.kinds = [.p] ∧ 16 ≤ twoPow x.width) ∨
    .below i (twoPow x.width) ∈ f.checks

instance (f : Form) (s : Slot) (i : Nat) : Decidable (f.ChecksRegister s i) :=
  inferInstanceAs (Decidable (∀ x ∈ s.register?, _))

/-- **The checks fix the lane size of an operand**, but for a predicate that is qualified. -/
def ChecksLaneOf (f : Form) (s : Slot) (i : Nat) : Prop :=
  ∀ rule ∈ s.rule?,
    match rule with
    | .none => .laneIs i none ∈ f.checks ∨ s.qualified = true
    | .double => .laneIs i (some .d) ∈ f.checks
    | .element =>
      (i = f.laneOperand ∨ .sameLane i f.laneOperand ∈ f.checks) ∧ f.sizing ≠ .widthBit ∧ f.sizing ≠ .fixed none

instance (f : Form) (s : Slot) (i : Nat) : Decidable (f.ChecksLaneOf s i) := by
  refine @Option.decidableForallMem _ _ (fun rule => ?_) s.rule?
  cases rule <;> exact inferInstance

theorem checks_operands (f : Form) : ∀ p ∈ f.slots.zipIdx, f.ChecksRegister p.1 p.2 ∧ f.ChecksLaneOf p.1 p.2 := by
  have table : ∀ f ∈ all, ∀ p ∈ f.slots.zipIdx, f.ChecksRegister p.1 p.2 ∧ f.ChecksLaneOf p.1 p.2 := by decide +kernel
  exact table f (mem_all f)

theorem namesPlainRegister_of_named {f : Form} {i : Nat} {s : Slot} (hs : f.slots[i]? = some s)
    (named : s.register?.isSome = true) {op : Operand} (accepted : s.accepts op = true) :
    f.namesPlainRegister i op = true := by
  have kind := Slot.kinds_of_named named _ (Slot.accepts_kind accepted)
  rw [namesPlainRegister, hs]
  cases s with
  | shifted => cases named
  | _ => rcases kind with h | h | h | h | h <;> rw [h]

/-- The lane size that goes with a rule, where the lane size of the word is not that of a bitmask. -/
theorem wordLane_eq {f : Form} {cond : Condition} {ops : List Operand} (h : Instruction.Encodes f cond ops)
    (other : f.sizing ≠ .fixed none) (unmasked : f.sizing ≠ .bitmask) : f.wordLane ops = f.lane ops := by
  have checked := f.checks_lane
  unfold ChecksLane at checked
  unfold wordLane
  cases place : f.sizing with
  | fixed lane =>
    cases lane with
    | none => exact absurd place other
    | some l =>
      rw [place] at checked
      obtain ⟨allowed, lanes⟩ := checked.2 l rfl
      obtain ⟨l', hl, size⟩ := h.lane_known place Sizing.noConfusion allowed
      rw [lanes, List.mem_singleton] at hl
      rw [size, hl]
  | bitmask => exact absurd place unmasked
  | field | widthBit | scalarIndex | vectorIndex => rfl

end Form

namespace Instruction.Encodes

variable {f : Form} {cond : Condition} {ops : List Operand}

theorem registerFault? (h : Encodes f cond ops) {i : Nat} {s : Slot} (hs : f.slots[i]? = some s)
    (named : s.register?.isSome = true) : Form.registerFault? (arg ops i) = none := by
  obtain ⟨op, at_i, accepted⟩ := Form.row_get (Form.accepts_iff.mp h.accepted) hs
  rw [Form.arg_of_getElem? at_i]
  exact Form.plainFault?_eq_none.mp h.plain i op at_i (Form.namesPlainRegister_of_named hs named accepted)

/-- **Every register fits its field.** -/
theorem keepsRegister (h : Encodes f cond ops) {i : Nat} {s : Slot} (hs : f.slots[i]? = some s) :
    s.KeepsRegister (arg ops i) := by
  intro x field
  obtain ⟨fits, -⟩ := f.checks_operands (s, i) (List.mk_mem_zipIdx_iff_getElem?.mpr hs)
  have fault := h.registerFault? hs (Option.isSome_iff_exists.mpr ⟨x, field⟩)
  have kind := Slot.accepts_kind (h.accepts_slot hs)
  unfold Form.registerFault? at fault
  split at fault
  · cases fault
  · rename_i plain
    split at fault
    · cases fault
    · rename_i code
      split at fault
      · cases fault
      · rename_i predicate
        refine ⟨?_, by_contra fun h => plain (.inl h), by_contra fun h => plain (.inr h)⟩
        -- the code is below 32, or below 16 for a predicate, unless a check sets a lower limit
        rcases fits x field with wide | ⟨kinds, wide⟩ | checked
        · omega
        · rw [kinds, List.mem_singleton] at kind
          have := not_and.mp predicate kind
          omega
        · exact h.passes checked

/-- **Every lane size is the one that the slot gives**, but for a qualified predicate. -/
theorem lane_slot (h : Encodes f cond ops) (shaped : ∀ op ∈ ops, op.Shaped) {i : Nat} {s : Slot}
    (hs : f.slots[i]? = some s) (bare : s.qualified = true → (arg ops i).lane = none) :
    (arg ops i).lane = s.laneOf (f.lane ops) := by
  cases ruled : s.rule? with
  | some rule =>
    obtain ⟨-, checked⟩ := f.checks_operands (s, i) (List.mk_mem_zipIdx_iff_getElem?.mpr hs)
    have checked := checked rule ruled
    rw [Slot.laneOf_of_rule ruled]
    cases rule with
    | none =>
      -- a qualified predicate is not checked
      rcases checked with checked | qualified
      · exact h.passes checked
      · exact bare qualified
    | double => exact h.passes checked
    | element =>
      -- the operand is the one that gives the lane size, or is checked to be at the same one
      obtain ⟨same, place, -⟩ := checked
      show _ = f.lane ops
      rw [lane_eq rfl place]
      rcases same with rfl | checked
      · rfl
      · exact h.passes checked
  | none =>
    obtain ⟨op, at_i, accepted⟩ := Form.row_get (Form.accepts_iff.mp h.accepted) hs
    have shape := shaped op (List.mem_of_getElem? at_i)
    rw [Form.arg_of_getElem? at_i] at bare ⊢
    exact Slot.lane_of_unruled shape accepted ruled bare

end Instruction.Encodes

end ArmToolkit.A64
