import ArmToolkit.Proofs.Branches

/-!
# `Proofs.Labels` — branches that wait for their labels

## Contents
- **Calls.** `Call` is an operation of an assembler, `runs` a sequence of them, and `Permitted` what such a sequence has to
  keep to: a label is bound once, and nothing is reset while a branch waits.
- **What a call does.** `run_cases`: it emits a word, records an error, emits a branch that waits (`branch_unbound`), binds a
  label or resets.
- **Patching.** `Keeps` says at which places code may have changed. Patching changes the linked places alone
  (`foldl_patch_keeps`), and settles the branches that wait there (`settled_foldl`).
-/

namespace ArmToolkit.A64

namespace Assembler

/-! ## Calls -/

/-- **An operation of an assembler.** -/
inductive Call
  | emit (m : Mnemonic) (ops : List Operand) (cond : Condition)
  | emitInstruction (inst : Instruction)
  | word (w : Word)
  | branch (k : Branch) (name : String)
  | bind (name : String)
  | reset

/-- The number of words that the code stays below. -/
def wordLimit : Nat := 2147483648

namespace Call

/-- What a call does. -/
def run (a : Assembler) : Call → Assembler
  | emit m ops cond => a.emit m ops cond
  | emitInstruction inst => a.emitInstruction inst
  | word w => a.dc32 w
  | branch k name => a.branch k.form.mnemonic k.registers name k.condition
  | bind name => a.bind name
  | reset => a.reset

/-- **When a call may be made**: a label is bound only once, and nothing is reset while a branch waits. -/
def Allowed (a : Assembler) : Call → Prop
  | bind name => (a.label name).location = none
  | reset => ∀ name, (a.label name).links = []
  | _ => True

end Call

/-- What a sequence of calls does. -/
def runs (a : Assembler) (calls : List Call) : Assembler := calls.foldl Call.run a

/-- **Calls that may be made one after the other**, and that keep the code below the limit. -/
def Permitted (a : Assembler) : List Call → Prop
  | [] => True
  | c :: calls => c.Allowed a ∧ (c.run a).code.size < wordLimit ∧ (c.run a).Permitted calls

/-- No branch waits. Labels may be bound already. -/
structure Unlinked (a : Assembler) : Prop where
  links : ∀ name, (a.label name).links = []
  located : ∀ name j, (a.label name).location = some j → j < wordLimit

@[simp] theorem runs_nil (a : Assembler) : a.runs [] = a := rfl

@[simp] theorem runs_cons (a : Assembler) (c : Call) (calls : List Call) : a.runs (c :: calls) = (c.run a).runs calls := rfl

theorem runs_append (a : Assembler) (calls calls' : List Call) : a.runs (calls ++ calls') = (a.runs calls).runs calls' :=
  List.foldl_append

theorem permitted_append {a : Assembler} {calls calls' : List Call} :
    a.Permitted (calls ++ calls') ↔ a.Permitted calls ∧ (a.runs calls).Permitted calls' := by
  induction calls generalizing a with
  | nil => simp [Permitted, runs]
  | cons c calls ih =>
    rw [List.cons_append, Permitted, Permitted, ih, and_assoc, and_assoc]
    rfl

/-! ## Labels -/

section

variable {a : Assembler} {name name' : String}

@[simp] theorem label_setLabel (a : Assembler) (name : String) (l : Label) : (a.setLabel name l).label name = l := by
  simp [label, setLabel]

theorem lookup_filter_of_ne {labels : List (String × Label)} (h : name' ≠ name) :
    (labels.filter fun p => p.1 != name).lookup name' = labels.lookup name' := by
  induction labels with
  | nil => rfl
  | cons p labels ih =>
    obtain ⟨other, l⟩ := p
    by_cases same : other = name
    · subst same
      simp only [List.filter_cons, bne_self_eq_false, Bool.false_eq_true, if_false, List.lookup_cons, ih]
      rw [show (name' == other) = false by simpa using h]
    · rw [List.filter_cons_of_pos (by simpa using same), List.lookup_cons, List.lookup_cons, ih]

theorem label_setLabel_of_ne (h : name' ≠ name) (l : Label) : (a.setLabel name l).label name' = a.label name' := by
  unfold label setLabel
  simp only
  rw [List.lookup_cons, show (name' == name) = false by simpa using h, lookup_filter_of_ne h]

/-! ## What a call does -/

/-- **What emitting does**: it emits a word, or records an error. -/
theorem emitResult_cases (result : Except EncodeError Word) :
    (∃ w, a.emitResult result = a.dc32 w) ∨ ∃ e, a.emitResult result = a.record e := by
  cases result with
  | ok w => exact .inl ⟨w, rfl⟩
  | error why => exact .inr ⟨_, rfl⟩

/-- **Offsets are exact** below the limit. -/
theorem toInt_offsetBetween {i j : Nat} (hi : i < wordLimit) (hj : j < wordLimit) :
    (offsetBetween i j).toInt = 4 * ((j : Int) - i) := by
  unfold wordLimit at hi hj
  unfold offsetBetween
  rw [BitVec.toInt_ofInt]
  exact Int.bmod_eq_of_le (by omega) (by omega)

/-- A branch below the limit is encoded if its field holds the offset to its label. -/
theorem encodes_offsetBetween {k : Branch} {i j : Nat} (hi : i < wordLimit) (hj : j < wordLimit) (register : k.Exists)
    (reaches : k.Reaches (4 * ((j : Int) - i))) :
    Instruction.Encodes k.form k.condition (k.registers ++ [.label (offsetBetween i j)]) := by
  rw [Branch.encodes_iff, toInt_offsetBetween hi hj]
  exact ⟨register, by omega, reaches⟩

/-- The offset of a branch that waits is zero. -/
theorem encodes_zero {k : Branch} (register : k.Exists) :
    Instruction.Encodes k.form k.condition (k.registers ++ [.label 0]) := by
  have room := twoPow_pos (k.fieldWidth + 1)
  rw [Branch.encodes_iff, show (0 : BitVec 64).toInt = 0 from rfl]
  exact ⟨register, rfl, by omega, by omega⟩

/-- **A branch to a label that is bound** is emitted with the offset to it. -/
theorem branch_bound {k : Branch} {j : Nat} (bound : (a.label name).location = some j) :
    (Call.branch k name).run a = a.emitResult (k.instruction (offsetBetween a.code.size j)).encode := by
  unfold Call.run branch
  simp only [bound, emit, encode_of_accepts (k.accepts _)]
  rfl

/-- The assembler with a branch behind its code that has offset zero and waits for a label. -/
def await (a : Assembler) (k : Branch) (name : String) : Assembler :=
  (a.dc32 (k.word 0)).setLabel name { a.label name with links := (a.label name).links ++ [a.code.size] }

/-- **A branch to a label that is not bound** is emitted and waits. -/
theorem branch_unbound {k : Branch} (unbound : (a.label name).location = none) (register : k.Exists) :
    (Call.branch k name).run a = a.await k name := by
  have encoded : Instruction.encode ⟨some k.form, k.condition, k.registers ++ [.label 0]⟩ = .ok (k.word 0) :=
    Branch.encode_eq_ok (encodes_zero register)
  unfold Call.run branch await
  simp only [unbound, encode_of_accepts (k.accepts _), encoded]

/-- A branch on a register that does not exist is an error. -/
theorem branch_refused {k : Branch} (unbound : (a.label name).location = none) (register : ¬ k.Exists) :
    ∃ e, (Call.branch k name).run a = a.record e := by
  unfold Call.run branch
  simp only [unbound, encode_of_accepts (k.accepts _)]
  cases encoded : Instruction.encode ⟨some k.form, k.condition, k.registers ++ [.label 0]⟩ with
  | error why => exact ⟨_, rfl⟩
  | ok w =>
    obtain ⟨encodes, -⟩ := Instruction.encode_form_eq_ok_iff.mp encoded
    exact absurd (Branch.encodes_iff.mp encodes).1 register

/-- **What a call does**: it emits a word, records an error, emits a branch that waits, binds a label or resets. -/
theorem run_cases (a : Assembler) (c : Call) :
    (∃ w, c.run a = a.dc32 w) ∨ (∃ e, c.run a = a.record e) ∨
    (∃ k name, c = .branch k name ∧ k.Exists ∧ (a.label name).location = none ∧ c.run a = a.await k name) ∨
    (∃ name, c = .bind name) ∨ c = .reset := by
  cases c with
  | emit m ops cond =>
    rcases emitResult_cases (a := a) (encode m ops cond) with word | error
    · exact .inl word
    · exact .inr (.inl error)
  | emitInstruction inst =>
    rcases emitResult_cases (a := a) inst.encode with word | error
    · exact .inl word
    · exact .inr (.inl error)
  | word w => exact .inl ⟨w, rfl⟩
  -- a branch to a bound label is emitted like an instruction
  | branch k name =>
    cases place : (a.label name).location with
    | some j =>
      rw [branch_bound place]
      rcases emitResult_cases (a := a) (k.instruction (offsetBetween a.code.size j)).encode with word | error
      · exact .inl word
      · exact .inr (.inl error)
    | none =>
      by_cases register : k.Exists
      · exact .inr (.inr (.inl ⟨k, name, rfl, register, place, branch_unbound place register⟩))
      · exact .inr (.inl (branch_refused place register))
  | bind name => exact .inr (.inr (.inr (.inl ⟨name, rfl⟩)))
  | reset => exact .inr (.inr (.inr (.inr rfl)))

/-! ## Patching -/

section

variable {b c : Assembler} {links links' : List Nat}

/-- **What is kept of the code**: the words at all but some places, and the errors. -/
structure Keeps (a b : Assembler) (links : List Nat) : Prop where
  size : a.code.size ≤ b.code.size
  words : ∀ i < a.code.size, i ∉ links → b.code[i]? = a.code[i]?
  errors : a.errors <+: b.errors

theorem Keeps.rfl (a : Assembler) (links : List Nat) : a.Keeps a links :=
  ⟨Nat.le_refl _, fun _ _ _ => Eq.refl _, List.prefix_rfl⟩

theorem Keeps.trans (first : a.Keeps b links) (second : b.Keeps c links') : a.Keeps c (links ++ links') := by
  refine ⟨first.size.trans second.size, ?_, first.errors.trans second.errors⟩
  intro i hi unlinked
  rw [List.mem_append, not_or] at unlinked
  rw [second.words i (Nat.lt_of_lt_of_le hi first.size) unlinked.2, first.words i hi unlinked.1]

theorem keeps_dc32 (a : Assembler) (w : Word) : a.Keeps (a.dc32 w) [] := by
  refine ⟨?_, ?_, List.prefix_rfl⟩
  · simp [dc32]
  · intro i hi _
    show (a.code.push w)[i]? = a.code[i]?
    rw [Array.getElem?_push_lt hi, Array.getElem?_eq_getElem hi]

theorem keeps_record (a : Assembler) (e : AssemblyError) : a.Keeps (a.record e) [] :=
  ⟨Nat.le_refl _, fun _ _ _ => rfl, List.prefix_append _ _⟩

theorem Keeps.setLabel (keeps : a.Keeps b links) (name : String) (l : Label) : a.Keeps (b.setLabel name l) links :=
  ⟨keeps.size, keeps.words, keeps.errors⟩

/-- **What a patch does**: it changes the linked word, does nothing, or records an error. -/
theorem patch_cases (target : Nat) (a : Assembler) (link : Nat) :
    (∃ w, patch target a link = { a with code := a.code.setIfInBounds link w }) ∨ patch target a link = a ∨
      ∃ e, patch target a link = a.record e := by
  unfold patch
  split
  · exact .inr (.inl rfl)
  · split
    · exact .inl ⟨_, rfl⟩
    · exact .inr (.inr ⟨_, rfl⟩)

theorem patch_keeps (target : Nat) (a : Assembler) (link : Nat) :
    a.Keeps (patch target a link) [link] ∧ (patch target a link).labels = a.labels ∧
      (patch target a link).code.size = a.code.size := by
  rcases patch_cases target a link with ⟨w, patched⟩ | patched | ⟨e, patched⟩
  · rw [patched]
    have size : (a.code.setIfInBounds link w).size = a.code.size := Array.size_setIfInBounds
    refine ⟨⟨Nat.le_of_eq size.symm, ?_, List.prefix_rfl⟩, rfl, size⟩
    intro i _ unlinked
    rw [List.mem_singleton] at unlinked
    exact Array.getElem?_setIfInBounds_ne (Ne.symm unlinked)
  · rw [patched]
    exact ⟨.rfl a _, rfl, rfl⟩
  · rw [patched]
    refine ⟨⟨Nat.le_refl _, ?_, List.prefix_append _ _⟩, rfl, rfl⟩
    intro i _ _
    rfl

/-- **Patching places one after the other** changes the words at these places alone. -/
theorem foldl_patch_keeps (target : Nat) (a : Assembler) (links : List Nat) :
    a.Keeps (links.foldl (patch target) a) links ∧ (links.foldl (patch target) a).labels = a.labels ∧
      (links.foldl (patch target) a).code.size = a.code.size := by
  induction links generalizing a with
  | nil => exact ⟨.rfl a _, rfl, rfl⟩
  | cons link links ih =>
    obtain ⟨keeps, labels, size⟩ := patch_keeps target a link
    obtain ⟨later, labels', size'⟩ := ih (patch target a link)
    exact ⟨keeps.trans later, labels'.trans labels, size'.trans size⟩

/-- **The place holds a branch** with an offset. -/
def BranchAt (a : Assembler) (i : Nat) (k : Branch) (offset : BitVec 64) : Prop :=
  ∃ w, a.code[i]? = some w ∧ Instruction.decode w = .ok (k.instruction offset)

theorem BranchAt.lt {i : Nat} {k : Branch} {offset : BitVec 64} (h : a.BranchAt i k offset) : i < a.code.size := by
  obtain ⟨w, at_i, -⟩ := h
  exact (Array.getElem?_eq_some_iff.mp at_i).1

theorem BranchAt.keeps {i : Nat} {k : Branch} {offset : BitVec 64} (h : a.BranchAt i k offset) (keeps : a.Keeps b links)
    (unlinked : i ∉ links) : b.BranchAt i k offset := by
  have inside := h.lt
  obtain ⟨w, at_i, decoded⟩ := h
  exact ⟨w, (keeps.words i inside unlinked).trans at_i, decoded⟩

/-- **A branch that waited is settled**: it has the offset to its label, or an error says that it does not reach it. -/
def Settled (a : Assembler) (k : Branch) (i j : Nat) : Prop :=
  if k.Reaches (4 * ((j : Int) - i)) then a.BranchAt i k (offsetBetween i j)
  else a.BranchAt i k 0 ∧ ∃ why, ⟨j, .outOfRange i why⟩ ∈ a.errors

theorem Settled.lt {k : Branch} {i j : Nat} (h : a.Settled k i j) : i < a.code.size := by
  unfold Settled at h
  split at h
  · exact h.lt
  · exact h.1.lt

theorem Settled.keeps {k : Branch} {i j : Nat} (h : a.Settled k i j) (keeps : a.Keeps b links) (unlinked : i ∉ links) :
    b.Settled k i j := by
  unfold Settled at h ⊢
  split
  · rename_i reaches
    rw [if_pos reaches] at h
    exact BranchAt.keeps h keeps unlinked
  · rename_i beyond
    rw [if_neg beyond] at h
    obtain ⟨branch, why, recorded⟩ := h
    exact ⟨branch.keeps keeps unlinked, why, keeps.errors.subset recorded⟩

/-- **Patching a branch settles it.** -/
theorem settled_patch {k : Branch} {i : Nat} (branch : a.BranchAt i k 0) (register : k.Exists)
    (small : a.code.size < wordLimit) : (patch a.code.size a i).Settled k i a.code.size := by
  have inside := branch.lt
  obtain ⟨w, at_i, decoded⟩ := branch
  have read : a.code.getD i 0 = w := by
    rw [Array.getD_eq_getD_getElem?, at_i]
    rfl
  unfold Settled patch
  rw [read, decoded]
  simp only [Branch.retarget_instruction]
  split
  · rename_i reaches
    have encodes := encodes_offsetBetween (Nat.lt_trans inside small) small register reaches
    rw [Branch.encode_eq_ok encodes]
    exact ⟨_, Array.getElem?_setIfInBounds_self_of_lt inside, Branch.decode_word encodes⟩
  · rename_i beyond
    rw [← toInt_offsetBetween (Nat.lt_trans inside small) small] at beyond
    obtain ⟨why, error⟩ := Branch.encode_eq_error beyond
    rw [error]
    exact ⟨⟨w, at_i, decoded⟩, why, List.mem_append_right _ (List.mem_singleton_self _)⟩

/-- **A branch among the places that are patched** is still there when its turn comes. -/
theorem branchAt_foldl {k : Branch} {i : Nat} {done : List Nat} (target : Nat) (branch : a.BranchAt i k 0)
    (distinct : i ∉ done) : (done.foldl (patch target) a).BranchAt i k 0 :=
  branch.keeps (foldl_patch_keeps target a done).1 distinct

/-- **Patching the places that a label links** settles every branch among them. -/
theorem settled_foldl {k : Branch} {i : Nat} (branch : a.BranchAt i k 0) (register : k.Exists)
    (small : a.code.size < wordLimit) (distinct : links.Nodup) (linked : i ∈ links) :
    (links.foldl (patch a.code.size) a).Settled k i a.code.size := by
  obtain ⟨done, rest, rfl⟩ := List.append_of_mem linked
  obtain ⟨-, waiting, apart⟩ := List.nodup_append.mp distinct
  have before : i ∉ done := fun early => apart i early i List.mem_cons_self rfl
  have after : i ∉ rest := (List.nodup_cons.mp waiting).1
  obtain ⟨-, -, size⟩ := foldl_patch_keeps a.code.size a done
  rw [List.foldl_append, List.foldl_cons]
  have here := settled_patch (branchAt_foldl a.code.size branch before) register (by rwa [size])
  rw [size] at here
  exact here.keeps (foldl_patch_keeps _ _ rest).1 after

end

end

end Assembler

end ArmToolkit.A64
