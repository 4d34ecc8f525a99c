import ArmToolkit.Proofs.FormTable
import ArmToolkit.Proofs.Readings

/-!
# `Proofs.DecodedChecks` — what is decoded passes every check

A check of a form asks something of operands. Where the operands were read from a word, the slots they were read with
already answer it: the answer is a condition on the form and the lane size alone, which is decided for the whole table.

## Contents
- **Rows.** `Form.Row` says that operands fit the slots of a form, one by one, at a lane size of the form
  (`Form.wordLanes`).
- **Checks.** `Form.Check.Passes` is what a check asks of operands, `Form.Check.Justified` is the condition that this
  puts on the slots, and `Form.Row.check` says that it is enough.
- **Registers.** `Slot.Narrow`: the register fields are no wider than the register files.
- **The result.** `Form.Row.fault?`: operands that fit have no fault.
-/

namespace ArmToolkit.A64

namespace Slot

/-! ## Slots -/

/-- The field of the register that the slot names; nothing for a slot of another kind. -/
def register? : Slot → Option Field
  | general f _ _ | generalOfLane f _ | scalarAt f _ | scalar f _ | vector f _ | predicate f _ _ | governing f _
  | term f .reg => some f
  | again s => s.register?
  | _ => none

/-- The lane size of the operands that the slot holds. -/
def laneOf (slot : Slot) (lane : Option LaneSize) : Option LaneSize :=
  match slot with
  | scalarAt _ l => some l
  | scalar _ rule | vector _ rule | predicate _ rule _ => rule.apply lane
  | again s => s.laneOf lane
  | _ => none

/-- Whether the slot takes a general register as wide as the lanes need. -/
def followsLane : Slot → Bool
  | generalOfLane _ _ => true
  | _ => false

/-- Whether the slot shifts a register. -/
def shifts : Slot → Bool
  | shifted _ _ => true
  | _ => false

/-- No operand that the slot takes names a register. -/
def NoRegister (slot : Slot) : Prop :=
  ∀ k ∈ slot.kinds, k = .imm ∨ k = .pattern ∨ k = .mem ∨ k = .memMulVl ∨ k = .label

instance (slot : Slot) : Decidable slot.NoRegister := inferInstanceAs (Decidable (∀ k ∈ slot.kinds, _))

/-- The place of the lane size that goes with the slot, where it is not free. -/
def sizing? : Slot → Option Sizing
  | scalarIndex => some .scalarIndex
  | vectorIndex => some .vectorIndex
  | laneBitmask => some .bitmask
  | again s => s.sizing?
  | _ => none

theorem lane_canonical (slot : Slot) (given lane : Option LaneSize) (op : Operand) :
    (slot.canonical given lane op).lane = slot.laneOf lane := by
  induction slot with
  | again s ih => exact ih
  | term _ source => cases source <;> rfl
  | bitmask width => cases width <;> rfl
  | _ => rfl

theorem laneFrom_of_sizing {slot : Slot} {lane : Option LaneSize} {w : Word} {place : Sizing}
    (known : ∀ z, slot.sizing? = some z → place = z) (read : place.read? w = some lane) : slot.LaneFrom lane w := by
  induction slot with
  | scalarIndex =>
    rw [known _ rfl] at read
    exact read
  | vectorIndex =>
    rw [known _ rfl] at read
    exact read
  | laneBitmask =>
    rw [known _ rfl] at read
    exact read
  | again s ih => exact ih known
  | _ => trivial

/-- The register of a slot is held in its field. -/
theorem holds_register {slot : Slot} {x : Field} (field : slot.register? = some x) {lane : Option LaneSize}
    {op : Operand} {w : Word} (holds : Holds slot.source.fields (slot.source.values lane op) w) :
    Holds [x] [op.reg] w := by
  induction slot with
  | governing f m =>
    cases field
    exact holds_one.mpr (holds_two.mp holds).1
  | again s ih => exact ih field holds
  | term f source =>
    cases source with
    | reg => cases field; exact holds
    | imm => cases field
  | general | generalOfLane | scalarAt | scalar | vector | predicate => cases field; exact holds
  | _ => cases field

/-- A slot keeps the lowest bits of a register code. -/
theorem reg_canonical {slot : Slot} {x : Field} (field : slot.register? = some x) (given lane : Option LaneSize)
    (op : Operand) : (slot.canonical given lane op).reg = op.reg % twoPow x.width := by
  induction slot with
  | again s ih => exact ih field
  | term f source =>
    cases source with
    | reg => cases field; rfl
    | imm => cases field
  | general | generalOfLane | scalarAt | scalar | vector | predicate | governing => cases field; rfl
  | _ => cases field

theorem Reads.reg {slot : Slot} {lane : Option LaneSize} {op : Operand} {w : Word} (h : slot.Reads lane op w) {x : Field}
    (field : slot.register? = some x) : op.reg = x.get w := by
  have kept := reg_canonical field lane lane op
  rw [h.1.kept] at kept
  rw [kept, ← holds_one.mp (holds_register field h.2)]

/-- A slot that does not look at the lane size finds the same faults and holds the same values at every lane size. -/
theorem unmeasured {slot : Slot} (h : slot.measured = false) (given lane : Option LaneSize) (op : Operand) :
    slot.fault? given op = slot.fault? lane op ∧ slot.values given op = slot.values lane op := by
  cases slot with
  | term f source =>
    cases source with
    | reg => cases h
    | imm => exact ⟨rfl, rfl⟩
  | generalOfLane | byte | scalarIndex | vectorIndex | laneBitmask => cases h
  | _ => exact ⟨rfl, rfl⟩

/-- A named register that is read again has no fault of its own. -/
theorem Fits.no_fault {slot : Slot} {lane : Option LaneSize} {op : Operand} (h : slot.Fits lane op) :
    slot.fault? lane op = none := by
  cases slot with
  | again s => rfl
  | _ => exact h.clean

/-- A general register that follows the lanes is as wide as they need. -/
theorem Fits.kind_of_followsLane {slot : Slot} {lane : Option LaneSize} {op : Operand} (h : slot.Fits lane op)
    (follows : slot.followsLane = true) : op.kind = if isDouble lane then .x else .w := by
  cases slot with
  | generalOfLane x c =>
    rw [← h.kept]
    show (Operand.ofX ⟨_, if isDouble lane then .x else .w⟩).kind = _
    cases isDouble lane <;> rfl
  | _ => cases follows

/-! ## Registers -/

/-- **The register field of the slot is no wider than the register file.** -/
def Narrow (slot : Slot) : Prop :=
  ∀ x ∈ slot.register?, twoPow x.width ≤ if .p ∈ slot.kinds then 16 else 32

instance (slot : Slot) : Decidable slot.Narrow := inferInstanceAs (Decidable (∀ x ∈ slot.register?, _))

/-- A slot that names a register keeps no shift. -/
theorem shift_canonical {slot : Slot} (named : slot.register?.isSome = true) (given lane : Option LaneSize)
    (op : Operand) : (slot.canonical given lane op).shift = 0 ∧ (slot.canonical given lane op).shiftType = .lsl := by
  induction slot with
  | again s ih => exact ih named
  | term f source =>
    cases source with
    | reg => exact ⟨rfl, rfl⟩
    | imm => cases named
  | general | generalOfLane | scalarAt | scalar | vector | predicate | governing => exact ⟨rfl, rfl⟩
  | _ => cases named

theorem Fits.registerFault? {slot : Slot} {lane : Option LaneSize} {op : Operand} (h : slot.Fits lane op)
    (narrow : slot.Narrow) (named : slot.register?.isSome = true) : Form.registerFault? op = none := by
  obtain ⟨x, field⟩ := Option.isSome_iff_exists.mp named
  obtain ⟨shift, type⟩ := shift_canonical named lane lane op
  have kept := reg_canonical field lane lane op
  rw [h.kept] at shift type kept
  have lt : op.reg < twoPow x.width := by
    rw [kept]
    exact Nat.mod_lt _ (twoPow_pos _)
  have limit := narrow x field
  have kind := accepts_kind h.accepted
  rw [Form.registerFault?, if_neg (by simp [shift, type])]
  split at limit
  · rw [if_neg (by omega), if_neg (by omega)]
  -- a slot that takes no predicates does not have one
  · rename_i other
    rw [if_neg (by omega), if_neg]
    rintro ⟨isP, -⟩
    rw [isP] at kind
    exact other kind

end Slot

namespace Form

/-! ## Rows -/

/-- Whether a word of the form can have the lane size. -/
def allows (f : Form) (lane : Option LaneSize) : Bool :=
  match lane with
  | some l => f.lanes.isEmpty || f.lanes.contains l
  | none => true

end Form

/-- The lane sizes that can be read from a word. -/
def Sizing.range : Sizing → List (Option LaneSize)
  | fixed lane => [lane]
  | field | scalarIndex | bitmask => [some .b, some .h, some .s, some .d]
  | widthBit => [some .s, some .d]
  | vectorIndex => [some .b, some .h, some .s, some .d, some .q]

theorem Sizing.read?_mem_range {place : Sizing} {w : Word} {lane : Option LaneSize} (h : place.read? w = some lane) :
    lane ∈ place.range := by
  -- each place has few values, and each value gives a lane of the range
  cases place with
  | fixed l =>
    cases h
    exact List.mem_singleton_self _
  | field =>
    cases h
    have lt : Field.get ⟨22, 2⟩ w < 4 := Field.get_lt ⟨22, 2⟩ w
    generalize Field.get ⟨22, 2⟩ w = n at lt
    rcases n with _ | _ | _ | n <;> simp [range, LaneSize.ofField]
  | widthBit =>
    cases h
    split <;> simp [range]
  | scalarIndex =>
    obtain ⟨l, mark, rfl⟩ := Option.map_eq_some_iff.mp h
    have size := (marker?_spec mark).1
    cases l <;> simp [range]
    exact absurd size (by decide)
  | vectorIndex =>
    obtain ⟨l, mark, rfl⟩ := Option.map_eq_some_iff.mp h
    cases l <;> simp [range]
  | bitmask =>
    obtain ⟨p, -, rfl⟩ := Option.map_eq_some_iff.mp h
    simp only [laneOfBits, range]
    split
    · simp
    · split
      · simp
      · split <;> simp

namespace Form

/-- The lane sizes that a word of the form can have. -/
def wordLanes (f : Form) : List (Option LaneSize) := f.sizing.range.filter f.allows

/-- **The operands fit the slots of the form**, and their registers are those of the word. -/
def Row (f : Form) (lane : Option LaneSize) (ops : List Operand) (w : Word) : Prop :=
  List.Forall₂ (fun s op => Slot.Fits s lane op ∧ ∀ x, s.register? = some x → op.reg = x.get w) f.slots ops

/-- What is related to a place of a row. -/
theorem row_get {α β : Type} {R : α → β → Prop} {xs : List α} {ys : List β} (h : List.Forall₂ R xs ys) {i : Nat} {x : α}
    (hx : xs[i]? = some x) : ∃ y, ys[i]? = some y ∧ R x y := by
  induction h generalizing i with
  | nil => simp at hx
  | cons head _ ih =>
    cases i with
    | zero =>
      cases hx
      exact ⟨_, rfl, head⟩
    | succ i => exact ih hx

theorem Row.accepts {f : Form} {lane : Option LaneSize} {ops : List Operand} {w : Word} (h : f.Row lane ops w) :
    f.accepts ops = true := by
  rw [accepts_iff]
  exact h.imp fun _ _ fits => fits.1.accepted

theorem arg_of_getElem? {ops : List Operand} {i : Nat} {op : Operand} (h : ops[i]? = some op) : arg ops i = op := by
  rw [arg, List.getD_eq_getElem?_getD, h, Option.getD_some]

section

variable {f : Form} {lane : Option LaneSize} {ops : List Operand} {w : Word}

/-- The operand in the place of a slot. -/
theorem Row.arg (h : f.Row lane ops w) {i : Nat} {s : Slot} (hs : f.slots[i]? = some s) :
    s.Fits lane (arg ops i) ∧ ∀ x, s.register? = some x → (arg ops i).reg = x.get w := by
  obtain ⟨op, at_i, fits⟩ := row_get h hs
  rw [arg_of_getElem? at_i]
  exact fits

theorem Row.lane_arg (h : f.Row lane ops w) {i : Nat} {s : Slot} (hs : f.slots[i]? = some s) :
    (A64.arg ops i).lane = s.laneOf lane := by
  rw [← Slot.lane_canonical s lane lane, (h.arg hs).1.kept]

/-! ## The lane size -/

/-- **The operands give back the lane size of the word**: it is the one that an operand is seen at. -/
def GivesLane (f : Form) (lane : Option LaneSize) : Prop :=
  match f.sizing with
  | .widthBit => ∃ s ∈ f.slots[0]?, s.followsLane = true
  | _ => ∃ s ∈ f.slots[f.laneOperand]?, s.laneOf lane = lane

instance (f : Form) (lane : Option LaneSize) : Decidable (f.GivesLane lane) := by
  unfold GivesLane
  cases f.sizing <;> exact inferInstance

/-- No slot of the form looks at the lane size. -/
def Unmeasured (f : Form) : Prop := f.sizing = .fixed none ∧ ∀ s ∈ f.slots, s.measured = false

instance (f : Form) : Decidable f.Unmeasured := inferInstanceAs (Decidable (_ ∧ _))

theorem gives_lane_or_unmeasured (f : Form) : ∀ lane ∈ f.wordLanes, f.GivesLane lane ∨ f.Unmeasured := by
  have table : ∀ f ∈ all, ∀ lane ∈ f.wordLanes, f.GivesLane lane ∨ f.Unmeasured := by decide +kernel
  exact table f (mem_all f)

theorem Row.lane_eq (h : f.Row lane ops w) (mem : lane ∈ f.wordLanes) (gives : f.GivesLane lane) :
    f.lane ops = lane := by
  unfold GivesLane at gives
  unfold Form.lane
  cases place : f.sizing with
  | widthBit =>
    -- the first operand is a general register, whose width is that of the lanes
    rw [place] at gives
    obtain ⟨s, hs, follows⟩ := gives
    obtain ⟨fits, -⟩ := h.arg hs
    have range := (List.mem_filter.mp mem).1
    rw [place] at range
    cases s with
    | generalOfLane x c =>
      rw [← fits.kept]
      simp only [Sizing.range, List.mem_cons, List.not_mem_nil, or_false] at range
      rcases range with rfl | rfl <;> rfl
    | _ => cases follows
  | fixed | field | scalarIndex | vectorIndex | bitmask =>
    rw [place] at gives
    obtain ⟨s, hs, same⟩ := gives
    exact (h.lane_arg hs).trans same

/-- Faults and values at the lane size of the operands are those at the lane size of the word. -/
theorem Row.measured (h : f.Row lane ops w) (mem : lane ∈ f.wordLanes) {s : Slot} (hs : s ∈ f.slots) (op : Operand) :
    s.fault? (f.lane ops) op = s.fault? lane op ∧ s.values (f.lane ops) op = s.values lane op := by
  rcases gives_lane_or_unmeasured f lane mem with gives | ⟨-, unmeasured⟩
  · rw [h.lane_eq mem gives]
    exact ⟨rfl, rfl⟩
  · exact Slot.unmeasured (unmeasured s hs) _ _ _

/-! ## Checks -/

/-- **What a check asks of the operands.** -/
def Check.Passes (f : Form) (ops : List Operand) : Check → Prop
  | laneAllowed i => ∃ l ∈ f.lanes, (A64.arg ops i).lane = some l
  | laneIs i lane => (A64.arg ops i).lane = lane
  | sameLane i j => (A64.arg ops i).lane = (A64.arg ops j).lane
  | tied i j => (A64.arg ops i).reg = (A64.arg ops j).reg
  | below i count => (A64.arg ops i).reg < count
  | sameKind i => (A64.arg ops i).kind = (A64.arg ops 0).kind
  | value i => ∀ s ∈ f.slots[i]?, s.fault? (f.lane ops) (A64.arg ops i) = none

theorem Check.fault?_eq_none {c : Check} : c.fault? f ops = none ↔ c.Passes f ops := by
  cases c with
  | laneAllowed i =>
    unfold Passes fault?
    cases size : (A64.arg ops i).lane with
    | none => simp [size]
    | some l => simp [size]
  | laneIs | sameLane | tied | below | sameKind => exact ite_some_eq_none
  | value i =>
    unfold Passes fault?
    cases f.slots[i]? <;> simp

/-- What is asked of the registers of the operands. -/
theorem plainFault?_eq_none : f.plainFault? ops = none ↔
    ∀ i op, ops[i]? = some op → f.namesPlainRegister i op = true → registerFault? op = none := by
  rw [plainFault?, List.findSome?_eq_none_iff]
  constructor
  · intro h i op at_i plain
    simpa [plain] using h (op, i) (List.mk_mem_zipIdx_iff_getElem?.mpr at_i)
  · rintro h ⟨op, i⟩ mem
    have clean := h i op (List.mk_mem_zipIdx_iff_getElem?.mp mem)
    cases plain : f.namesPlainRegister i op with
    | false => simp [plain]
    | true => simp [plain, clean plain]

/-- **Operands have no fault if their registers have none and they pass every check.** -/
theorem fault?_eq_none : f.fault? ops = none ↔ f.plainFault? ops = none ∧ ∀ c ∈ f.checks, c.Passes f ops := by
  unfold Form.fault?
  cases f.plainFault? ops with
  | some fault => simp
  | none => simp [List.findSome?_eq_none_iff, Check.fault?_eq_none]

/-- **What a check asks of the slots of a form**, where the word has a lane size. -/
def Check.Justified (f : Form) (lane : Option LaneSize) : Check → Prop
  | laneAllowed i => ∃ s ∈ f.slots[i]?, ∃ l ∈ f.lanes, s.laneOf lane = some l
  | laneIs i l => ∃ s ∈ f.slots[i]?, s.laneOf lane = l
  | sameLane i j => ∃ s ∈ f.slots[i]?, ∃ t ∈ f.slots[j]?, s.laneOf lane = t.laneOf lane
  | tied i j => ∃ s ∈ f.slots[i]?, ∃ t ∈ f.slots[j]?, ∃ x ∈ s.register?, t.register? = some x
  | below i count => ∃ s ∈ f.slots[i]?, ∃ x ∈ s.register?, twoPow x.width ≤ count
  | sameKind i => ∃ s ∈ f.slots[i]?, ∃ t ∈ f.slots[0]?, s.followsLane = true ∧ t.followsLane = true
  | value _ => True

instance (f : Form) (lane : Option LaneSize) (c : Check) : Decidable (c.Justified f lane) := by
  cases c <;> unfold Check.Justified <;> exact inferInstance

/-- **Every check of every form is justified** at every lane size that a word can have. -/
theorem checks_justified (f : Form) : ∀ lane ∈ f.wordLanes, ∀ c ∈ f.checks, c.Justified f lane := by
  have table : ∀ f ∈ all, ∀ lane ∈ f.wordLanes, ∀ c ∈ f.checks, c.Justified f lane := by decide +kernel
  exact table f (mem_all f)

theorem Row.check (h : f.Row lane ops w) (mem : lane ∈ f.wordLanes) {c : Check} (just : c.Justified f lane) :
    c.Passes f ops := by
  cases c with
  | laneAllowed i =>
    obtain ⟨s, hs, l, hl, same⟩ := just
    exact ⟨l, hl, (h.lane_arg hs).trans same⟩
  | laneIs i l =>
    obtain ⟨s, hs, same⟩ := just
    exact (h.lane_arg hs).trans same
  | sameLane i j =>
    obtain ⟨s, hs, t, ht, same⟩ := just
    exact (h.lane_arg hs).trans (same.trans (h.lane_arg ht).symm)
  | tied i j =>
    obtain ⟨s, hs, t, ht, x, hx, same⟩ := just
    exact ((h.arg hs).2 x hx).trans ((h.arg ht).2 x same).symm
  | below i count =>
    obtain ⟨s, hs, x, hx, limit⟩ := just
    show (A64.arg ops i).reg < count
    rw [(h.arg hs).2 x hx]
    exact Nat.lt_of_lt_of_le (x.get_lt w) limit
  | sameKind i =>
    obtain ⟨s, hs, t, ht, first, second⟩ := just
    exact ((h.arg hs).1.kind_of_followsLane first).trans ((h.arg ht).1.kind_of_followsLane second).symm
  | value i =>
    intro s hs
    obtain ⟨fault, -⟩ := h.measured mem (List.mem_of_getElem? hs) (A64.arg ops i)
    rw [fault, (h.arg hs).1.no_fault]

/-! ## Registers of rows -/

theorem slots_narrow (f : Form) : ∀ s ∈ f.slots, s.Narrow := by
  have table : ∀ f ∈ all, ∀ s ∈ f.slots, s.Narrow := by decide +kernel
  exact table f (mem_all f)

/-- A slot names a register, or shifts one, or takes operands of other kinds. -/
theorem slots_named (f : Form) : ∀ s ∈ f.slots, s.register?.isSome = true ∨ s.shifts = true ∨ s.NoRegister := by
  have table : ∀ f ∈ all, ∀ s ∈ f.slots, s.register?.isSome = true ∨ s.shifts = true ∨ s.NoRegister := by
    decide +kernel
  exact table f (mem_all f)

theorem namesPlainRegister_of_shifts {s : Slot} {i : Nat} (hs : f.slots[i]? = some s) (shifts : s.shifts = true)
    (op : Operand) : f.namesPlainRegister i op = false := by
  cases s with
  | shifted width rotates =>
    rw [namesPlainRegister, hs]
    cases op.kind <;> rfl
  | _ => cases shifts

theorem namesPlainRegister_of_noRegister {s : Slot} (none : s.NoRegister) {op : Operand} (accepted : s.accepts op = true)
    (i : Nat) : f.namesPlainRegister i op = false := by
  have kind := none _ (Slot.accepts_kind accepted)
  unfold namesPlainRegister
  generalize op.kind = k at kind
  cases k <;> first | rfl | exact absurd kind (by decide)

theorem Row.plainFault? (h : f.Row lane ops w) : f.plainFault? ops = none := by
  refine plainFault?_eq_none.mpr fun i op at_i plain => ?_
  obtain ⟨s, hs, fits, -⟩ := row_get h.flip at_i
  have member := List.mem_of_getElem? hs
  -- a register that is shifted, and an operand of another kind, is left to the checks of the form
  rcases slots_named f s member with named | shifts | none
  · exact fits.registerFault? (slots_narrow f s member) named
  · rw [namesPlainRegister_of_shifts hs shifts op] at plain
    cases plain
  · rw [namesPlainRegister_of_noRegister none fits.accepted i] at plain
    cases plain

/-- **Operands that fit the slots of a form have no fault.** -/
theorem Row.fault? (h : f.Row lane ops w) (mem : lane ∈ f.wordLanes) : f.fault? ops = none :=
  fault?_eq_none.mpr ⟨h.plainFault?, fun c hc => h.check mem (checks_justified f lane mem c hc)⟩

end

end Form

end ArmToolkit.A64
