import ArmToolkit.A64.Instruction
import ArmToolkit.Proofs.Fields
import Mathlib.Data.List.Pairwise

/-!
# `Proofs.FormTable` — what holds of every form in the table

The facts here are about the table as data. Each is a decidable condition, checked for all forms at once, and a general
theorem that follows from it.

## Contents
- **The table.** `Form.mem_all`: the table has every form.
- **Fields.** `Form.fields_apart`, `Form.fields_inside`, `Form.fields_clear`: the fields of a form do not meet, lie in the
  word, and are clear in its opcode.
- **One form a word.** `Form.Matches f w` says that `w` has the fixed bits of `f`. No word matches two forms
  (`Form.Matches.unique`), so every order of trying them gives the same form (`Form.find?_eq_some_iff`).
- **One form for some operands.** `Slot.Excludes`: no operand goes into both of two slots. No operands are accepted by two
  forms of one mnemonic (`Form.resolve?_of_accepts`).
-/

namespace ArmToolkit.A64

namespace Form

/-! ## The table -/

/-- Whether a form is in a list. Forms of different groups are told apart by the group alone, which keeps the search through
    the table short. -/
def listed (f : Form) : List Form → Bool
  | [] => false
  | g :: rest => (if f.ctorIdx = g.ctorIdx then decide (f = g) else false) || f.listed rest

theorem mem_of_listed {f : Form} {forms : List Form} (h : f.listed forms = true) : f ∈ forms := by
  induction forms with
  | nil => cases h
  | cons g rest ih =>
    rcases Bool.or_eq_true_iff.mp h with here | later
    · split at here
      · rw [of_decide_eq_true here]
        exact List.mem_cons_self
      · cases here
    · exact List.mem_cons_of_mem g (ih later)

theorem mem_all (f : Form) : f ∈ all := by
  apply mem_of_listed
  cases f <;>
    first
    | decide +kernel
    | (rename_i a; cases a <;> decide +kernel)
    | (rename_i a c; cases a <;> cases c <;> decide +kernel)

/-- Whether a test holds of every pair of a list. -/
def testPairs {α : Type} (test : α → α → Bool) : List α → Bool
  | [] => true
  | x :: rest => rest.all (test x) && testPairs test rest

theorem pairwise_of_testPairs {α : Type} {test : α → α → Bool} {xs : List α} (h : testPairs test xs = true) :
    xs.Pairwise fun x y => test x y = true := by
  induction xs with
  | nil => exact List.Pairwise.nil
  | cons x rest ih =>
    obtain ⟨first, later⟩ := Bool.and_eq_true_iff.mp h
    exact List.Pairwise.cons (List.all_eq_true.mp first) (ih later)

/-- What holds of the pairs of a list holds of two forms one way or the other. -/
theorem either_of_pairwise {R : Form → Form → Prop} (h : all.Pairwise R) {f g : Form} (differ : f ≠ g) :
    R f g ∨ R g f := by
  have symmetric : all.Pairwise fun a c => R a c ∨ R c a := h.imp Or.inl
  have : Std.Symm fun a c => R a c ∨ R c a := ⟨fun _ _ => Or.symm⟩
  exact List.Pairwise.forall symmetric (mem_all f) (mem_all g) differ

/-! ## Fields -/

theorem fields_apart (f : Form) : f.fields.Pairwise Field.Apart := by
  have table : ∀ f ∈ all, f.fields.Pairwise Field.Apart := by decide +kernel
  exact table f (mem_all f)

theorem fields_inside (f : Form) : ∀ x ∈ f.fields, x.Inside := by
  have table : ∀ f ∈ all, ∀ x ∈ f.fields, x.Inside := by decide +kernel
  exact table f (mem_all f)

theorem fields_clear (f : Form) : Clear f.fields f.opcode := by
  have table : ∀ f ∈ all, Clear f.fields f.opcode := by decide +kernel
  exact table f (mem_all f)

/-! ## One form a word -/

/-- **The word has the fixed bits of the form.** -/
def Matches (f : Form) (w : Word) : Prop := w &&& f.mask = f.opcode

instance (f : Form) (w : Word) : Decidable (f.Matches w) := inferInstanceAs (Decidable (_ = _))

/-- The fixed bits of a form: which they are, and what they are. -/
def fixedBits (f : Form) : Nat × Nat := (f.mask.toNat, f.opcode.toNat)

/-- Whether a bit that both fix is different. -/
def bitsDiffer (a b : Nat × Nat) : Bool := !Nat.beq ((a.2 ^^^ b.2) &&& a.1 &&& b.1) 0

/-- **Any two forms differ in a bit that both of them fix.** -/
theorem all_differ : (all.map fixedBits).Pairwise fun a b => bitsDiffer a b = true :=
  pairwise_of_testPairs (by decide +kernel)

/-- Forms that a word matches agree on the bits that both of them fix. -/
theorem Matches.agree {f g : Form} {w : Word} (hf : f.Matches w) (hg : g.Matches w) :
    bitsDiffer f.fixedBits g.fixedBits = false := by
  have bits : (f.opcode ^^^ g.opcode) &&& f.mask &&& g.mask = 0 := by
    rw [← hf, ← hg]
    apply BitVec.eq_of_getLsbD_eq
    intro j _
    simp only [BitVec.getLsbD_and, BitVec.getLsbD_xor]
    cases w.getLsbD j <;> cases f.mask.getLsbD j <;> cases g.mask.getLsbD j <;> simp
  have numbers := congrArg BitVec.toNat bits
  rw [BitVec.toNat_and, BitVec.toNat_and, BitVec.toNat_xor] at numbers
  rw [bitsDiffer, fixedBits, fixedBits, numbers]
  rfl

/-- **No word matches two forms.** -/
theorem Matches.unique {f g : Form} {w : Word} (hf : f.Matches w) (hg : g.Matches w) : f = g := by
  by_contra apart
  rcases either_of_pairwise (List.pairwise_map.mp all_differ) apart with differ | differ
  · rw [hf.agree hg] at differ
    cases differ
  · rw [hg.agree hf] at differ
    cases differ

/-- **The order of trying does not matter**: any list that has all forms finds the one that the word matches. -/
theorem find?_eq_some_iff {order : List Form} (full : ∀ f, f ∈ order) {w : Word} {f : Form} :
    order.find? (fun g => w &&& g.mask == g.opcode) = some f ↔ f.Matches w := by
  have tested : ∀ g : Form, (w &&& g.mask == g.opcode) = true ↔ g.Matches w := fun _ => beq_iff_eq
  constructor
  · intro found
    have := List.find?_some found
    exact (tested f).mp this
  · intro h
    cases found : order.find? (fun g => w &&& g.mask == g.opcode) with
    | none => exact absurd ((tested f).mpr h) (List.find?_eq_none.mp found f (full f))
    | some g =>
      have := List.find?_some found
      rw [Matches.unique ((tested g).mp this) h]

/-- The decoder finds the form that the word matches. -/
theorem formOf?_eq_some_iff {w : Word} {f : Form} : Instruction.formOf? w = some f ↔ f.Matches w := by
  have table : Instruction.formOf? w = all.find? fun g => w &&& g.mask == g.opcode := by
    rw [Instruction.formOf?, Instruction.decodeTable, List.find?_map, Option.map_map]
    exact congrFun Option.map_id _
  rw [table, find?_eq_some_iff mem_all]

end Form

/-! ## One form for some operands -/

namespace Slot

/-- The kinds of operand that a slot takes. -/
def kinds : Slot → List OperandKind
  | general _ .x _ | shifted .x _ => [.x]
  | general _ .w _ | shifted .w _ => [.w]
  | generalOfLane _ _ | term _ .reg => [.x, .w]
  | scalarAt _ _ | scalar _ _ => [.v]
  | vector _ _ => [.z]
  | predicate _ _ _ | governing _ _ => [.p]
  | again s => s.kinds
  | halfword _ | arithmetic | bitmask _ | laneBitmask | code | unsigned _ | signed _ | byte _ _ | multiplier
  | term _ .imm | scalarIndex | vectorIndex => [.imm]
  | target _ => [.label]
  | pattern => [.pattern]
  | offset _ => [.mem]
  | registerOffset | vectorOffset => [.memMulVl]

/-- The lane size that a slot fixes. -/
def givenLane? : Slot → Option LaneSize
  | scalarAt _ lane => some lane
  | again s => s.givenLane?
  | _ => none

/-- The qualifier that a slot fixes. -/
def givenQualifier? : Slot → Option (Option Qualifier)
  | predicate _ _ q => some q
  | again s => s.givenQualifier?
  | _ => none

theorem accepts_kind {s : Slot} {op : Operand} (h : s.accepts op = true) : op.kind ∈ s.kinds := by
  induction s with
  | general _ width _ => cases width <;> simpa [accepts, kinds] using h
  | shifted width _ => cases width <;> simpa [accepts, kinds] using h
  | term _ source => cases source <;> simpa [accepts, kinds, Operand.isGeneral] using h
  | again s ih => exact ih h
  | _ => simp_all [accepts, kinds, Operand.isGeneral]

theorem accepts_lane {s : Slot} {op : Operand} {l : LaneSize} (h : s.accepts op = true) (given : s.givenLane? = some l) :
    op.lane = some l := by
  induction s with
  | scalarAt f lane =>
    cases given
    exact beq_iff_eq.mp (Bool.and_eq_true_iff.mp h).2
  | again s ih => exact ih h given
  | _ => cases given

theorem accepts_qualifier {s : Slot} {op : Operand} {q : Option Qualifier} (h : s.accepts op = true)
    (given : s.givenQualifier? = some q) : op.qualifier = q := by
  induction s with
  | predicate f rule q' =>
    cases given
    exact beq_iff_eq.mp (Bool.and_eq_true_iff.mp h).2
  | again s ih => exact ih h given
  | _ => cases given

/-- Two options that are both given and differ. -/
def Conflict {α : Type} (a b : Option α) : Prop := ∃ x ∈ a, ∃ y ∈ b, x ≠ y

instance {α : Type} [DecidableEq α] (a b : Option α) : Decidable (Conflict a b) := inferInstanceAs (Decidable (∃ _ ∈ _, _))

/-- **No operand goes into both slots**: they differ in the kind, the lane size or the qualifier that they ask for. -/
def Excludes (s t : Slot) : Prop :=
  (∀ k ∈ s.kinds, k ∉ t.kinds) ∨ Conflict s.givenLane? t.givenLane? ∨ Conflict s.givenQualifier? t.givenQualifier?

instance (s t : Slot) : Decidable (s.Excludes t) := inferInstanceAs (Decidable (_ ∨ _))

theorem Excludes.not_both {s t : Slot} (h : s.Excludes t) {op : Operand} (hs : s.accepts op = true) :
    t.accepts op = false := by
  cases ht : t.accepts op with
  | false => rfl
  | true =>
    rcases h with kinds | ⟨l, hl, m, hm, differ⟩ | ⟨q, hq, r, hr, differ⟩
    · exact absurd (accepts_kind ht) (kinds _ (accepts_kind hs))
    · have := accepts_lane hs hl
      rw [accepts_lane ht hm] at this
      exact absurd (Option.some.inj this).symm differ
    · exact absurd ((accepts_qualifier hs hq).symm.trans (accepts_qualifier ht hr)) differ

end Slot

namespace Form

/-- What operands are tried against: the mnemonic and the slots. -/
def signature (f : Form) : Nat × List Slot := (f.mnemonic.ctorIdx, f.slots)

/-- Whether two forms are told apart by their mnemonics, by how many operands they take, or by an operand. -/
def signaturesDiffer (a b : Nat × List Slot) : Bool :=
  !Nat.beq a.1 b.1 || !Nat.beq a.2.length b.2.length || decide (∃ p ∈ a.2.zip b.2, p.1.Excludes p.2)

/-- **Any two forms are told apart**, whichever of them is tried first. -/
theorem all_distinct : (all.map signature).Pairwise fun a b => signaturesDiffer a b = true :=
  pairwise_of_testPairs (by decide +kernel)

/-- What a form accepts, slot by slot. -/
theorem accepts_iff {f : Form} {ops : List Operand} :
    f.accepts ops = true ↔ List.Forall₂ (fun s op => Slot.accepts s op = true) f.slots ops := by
  rw [List.forall₂_iff_zip]
  simp [accepts]

/-- Rows that are related to the same third row, place by place. -/
theorem exists_shared {α β : Type} {R : α → β → Prop} {xs ys : List α} {zs : List β} (hx : List.Forall₂ R xs zs)
    (hy : List.Forall₂ R ys zs) {p : α × α} (hp : p ∈ xs.zip ys) : ∃ z, R p.1 z ∧ R p.2 z := by
  induction hx generalizing ys with
  | nil => simp at hp
  | @cons x z xs zs head _ ih =>
    cases hy with
    | cons head' tail' =>
      rcases List.mem_cons.mp hp with rfl | rest
      · exact ⟨z, head, head'⟩
      · exact ih tail' rest

theorem not_both_accept {f g : Form} (told : signaturesDiffer f.signature g.signature = true)
    (same : f.mnemonic = g.mnemonic) {ops : List Operand} (hf : f.accepts ops = true) : g.accepts ops = false := by
  cases hg : g.accepts ops with
  | false => rfl
  | true =>
    have rowF := accepts_iff.mp hf
    have rowG := accepts_iff.mp hg
    have length : Nat.beq f.slots.length g.slots.length = true := by
      rw [rowF.length_eq.trans rowG.length_eq.symm, Nat.beq_refl]
    have mnemonic : Nat.beq f.mnemonic.ctorIdx g.mnemonic.ctorIdx = true := by rw [same, Nat.beq_refl]
    simp only [signaturesDiffer, signature, mnemonic, length, Bool.not_true, Bool.false_or] at told
    obtain ⟨p, mem, excludes⟩ := of_decide_eq_true told
    obtain ⟨op, first, second⟩ := exists_shared rowF rowG mem
    rw [excludes.not_both first] at second
    cases second

/-- **Operands belong to one form of a mnemonic**: the form that accepts them is the one that is found. -/
theorem resolve?_of_accepts {f : Form} {ops : List Operand} (h : f.accepts ops = true) :
    resolve? f.mnemonic ops = some f := by
  cases found : resolve? f.mnemonic ops with
  | none =>
    have := List.find?_eq_none.mp found f (mem_all f)
    simp [h] at this
  | some g =>
    have both := List.find?_some found
    simp only [Bool.and_eq_true, beq_iff_eq] at both
    by_contra apart
    have differ : f ≠ g := fun same => apart (congrArg some same.symm)
    rcases either_of_pairwise (List.pairwise_map.mp all_distinct) differ with told | told
    · rw [not_both_accept told both.1.symm h] at both
      exact absurd both.2 (by decide)
    · rw [not_both_accept told both.1 both.2] at h
      exact absurd h (by decide)

end Form

end ArmToolkit.A64
