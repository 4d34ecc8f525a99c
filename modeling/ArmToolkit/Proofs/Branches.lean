import ArmToolkit.Proofs.Emitted

/-!
# `Proofs.Branches` — the words of branches to labels

## Contents
- **Branches.** `Branch`: the kinds of branch that go to a label, with their forms and operands (`Branch.instruction`).
- **Reach.** A branch has a word exactly if its register exists and its field holds the offset (`Branch.encode_eq_ok_iff`).
- **Words.** The word of a branch is decoded as the branch (`Branch.decode_word`), and an offset that is replaced in it
  gives the branch with the new offset (`Branch.retarget_instruction`).
-/

namespace ArmToolkit.A64

/-! ## Branches -/

/-- **A branch to a label**: a plain one, one under a condition, or one on a register being zero or not. -/
inductive Branch
  | always
  | conditional (c : Condition)
  | compare (op : ZeroTest) (r : XReg)

namespace Branch

/-- The form of a branch. -/
def form : Branch → Form
  | always => .branch
  | conditional _ => .branchCond
  | compare op r => .compareBranch op r.width

/-- The condition of a branch. -/
def condition : Branch → Condition
  | conditional c => c
  | _ => .al

/-- The operands of a branch in front of its offset. -/
def registers : Branch → List Operand
  | compare _ r => [.ofX r]
  | _ => []

/-- **The instruction of a branch** with an offset. -/
def instruction (k : Branch) (offset : BitVec 64) : Instruction :=
  ⟨some k.form, k.condition, k.registers ++ [.label offset]⟩

/-- The register of a branch exists. -/
def Exists : Branch → Prop
  | compare _ r => r.code < 32
  | _ => True

/-- The number of bits that a branch has for its offset in words. -/
def fieldWidth : Branch → Nat
  | always => 26
  | _ => 19

/-! ## Reach -/

/-- **The field of a branch holds an offset in bytes.** -/
def Reaches (k : Branch) (offset : Int) : Prop :=
  -(twoPow (k.fieldWidth + 1) : Int) ≤ offset ∧ offset < twoPow (k.fieldWidth + 1)

instance (k : Branch) (offset : Int) : Decidable (k.Reaches offset) := inferInstanceAs (Decidable (_ ∧ _))

/-- The word of a branch with an offset. -/
def word (k : Branch) (offset : BitVec 64) : Word := Instruction.word k.form k.condition (k.registers ++ [.label offset])

theorem accepts (k : Branch) (offset : BitVec 64) : k.form.accepts (k.registers ++ [.label offset]) = true := by
  cases k with
  | always => rfl
  | conditional c => rfl
  | compare op r => 
    obtain ⟨code, width⟩ := r
    cases width <;> rfl

/-- The register of a branch is checked to exist. -/
theorem plainFault?_eq_none {k : Branch} {offset : BitVec 64} :
    k.form.plainFault? (k.registers ++ [.label offset]) = none ↔ k.Exists := by
  cases k with
  | always | conditional => simp [Form.plainFault?, registers, form, Form.namesPlainRegister, Operand.label, Exists]
  | compare op r =>
    obtain ⟨code, width⟩ := r
    cases width <;>
      simp [Form.plainFault?, registers, form, Form.namesPlainRegister, Form.registerFault?, Form.slots, Operand.label,
        Operand.ofX, Exists]

/-- The slot of an offset checks that it is in its field, and a multiple of the size of an instruction. -/
theorem target_fault?_eq_none {x : Field} {lane : Option LaneSize} {offset : BitVec 64} :
    (Slot.target x).fault? lane (.label offset) = none ↔
      offset.toInt % 4 = 0 ∧ -(twoPow (x.width + 1) : Int) ≤ offset.toInt ∧ offset.toInt < twoPow (x.width + 1) :=
  ite_some_eq_none

/-- The one check of a branch is that of its offset. -/
theorem checks_eq_none {k : Branch} {offset : BitVec 64} :
    (k.form.checks.findSome? fun c => c.fault? k.form (k.registers ++ [.label offset])) = none ↔
      offset.toInt % 4 = 0 ∧ k.Reaches offset.toInt := by
  have one : ∀ (i : Nat) (x : Field), k.form.checks = [.value i] → k.form.slots[i]? = some (.target x) →
      x.width = k.fieldWidth → arg (k.registers ++ [.label offset]) i = .label offset →
      ((k.form.checks.findSome? fun c => c.fault? k.form (k.registers ++ [.label offset])) = none ↔
        offset.toInt % 4 = 0 ∧ k.Reaches offset.toInt) := by
    intro i x checks place width op
    rw [checks, List.findSome?_singleton, Form.Check.fault?_eq_none]
    simp only [Form.Check.Passes, place, op, Option.mem_def, Option.some.injEq, forall_eq', target_fault?_eq_none, width]
    rfl
  cases k with
  | always => exact one 0 ⟨0, 26⟩ rfl rfl rfl rfl
  | conditional c => exact one 0 ⟨5, 19⟩ rfl rfl rfl rfl
  | compare op r => exact one 1 ⟨5, 19⟩ rfl rfl rfl rfl

/-- **What is checked of a branch.** -/
theorem fault?_eq_none {k : Branch} {offset : BitVec 64} : k.form.fault? (k.registers ++ [.label offset]) = none ↔
    k.Exists ∧ offset.toInt % 4 = 0 ∧ k.Reaches offset.toInt := by
  rw [← plainFault?_eq_none, ← checks_eq_none]
  unfold Form.fault?
  cases k.form.plainFault? (k.registers ++ [.label offset]) with
  | none => simp
  | some fault => simp

/-- **A branch has a word** exactly if its register exists and its field holds the offset. -/
theorem encodes_iff {k : Branch} {offset : BitVec 64} :
    Instruction.Encodes k.form k.condition (k.registers ++ [.label offset]) ↔
      k.Exists ∧ offset.toInt % 4 = 0 ∧ k.Reaches offset.toInt := by
  constructor
  · intro h
    exact fault?_eq_none.mp h.clean
  · intro h
    refine ⟨k.accepts offset, ?_, fault?_eq_none.mpr h⟩
    cases k with
    | conditional c => exact .inl rfl
    | always | compare => exact .inr rfl

/-! ## Words -/

section

variable {k : Branch} {offset : BitVec 64}

theorem encode_eq_ok (h : Instruction.Encodes k.form k.condition (k.registers ++ [.label offset])) :
    (k.instruction offset).encode = .ok (k.word offset) :=
  Instruction.encode_form_eq_ok_iff.mpr ⟨h, rfl⟩

/-- A branch whose field does not hold its offset has no word. -/
theorem encode_eq_error (h : ¬ k.Reaches offset.toInt) : ∃ why, (k.instruction offset).encode = .error why := by
  cases encoded : (k.instruction offset).encode with
  | error why => exact ⟨why, rfl⟩
  | ok w =>
    obtain ⟨encodes, -⟩ := Instruction.encode_form_eq_ok_iff.mp encoded
    exact absurd (encodes_iff.mp encodes).2.2 h

/-- **The word of a branch is decoded** as the branch. -/
theorem decode_word (h : Instruction.Encodes k.form k.condition (k.registers ++ [.label offset])) :
    Instruction.decode (k.word offset) = .ok (k.instruction offset) := by
  have register : k.Exists := (encodes_iff.mp h).1
  have shaped : ∀ op ∈ k.registers ++ [.label offset], op.Shaped := by
    intro op hop
    rcases List.mem_append.mp hop with hop | hop
    · cases k with
      | always | conditional => cases hop
      | compare op r =>
        obtain rfl := List.mem_singleton.mp hop
        exact (Operand.Constructed.ofX r register).shaped
    · obtain rfl := List.mem_singleton.mp hop
      exact (Operand.Constructed.label offset).shaped
  have place : k.form.bitmaskField? = none := by cases k <;> rfl
  have bare : ∀ i s, k.form.slots[i]? = some s → s.qualified = true →
      (arg (k.registers ++ [.label offset]) i).lane = none := by
    intro i s hs qualified
    have none : ∀ s ∈ k.form.slots, s.qualified = false := by cases k <;> simp [form, Form.slots, Slot.qualified]
    rw [none s (List.mem_of_getElem? hs)] at qualified
    cases qualified
  unfold word instruction
  rw [h.decode, h.canonical_eq_self shaped place bare]

/-- **Replacing the offset** of a branch gives the branch with the new offset. -/
theorem retarget_instruction (offset' : BitVec 64) :
    Assembler.retarget (k.instruction offset) offset' = k.instruction offset' := by
  unfold Assembler.retarget instruction
  cases k with
  | always | conditional => rfl
  | compare op r =>
    obtain ⟨code, width⟩ := r
    cases width <;> rfl

end

end Branch

end ArmToolkit.A64
