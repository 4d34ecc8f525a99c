import ArmToolkit.Proofs.Labels
import Mathlib.Data.List.Induction

/-!
# `Proofs.LabelRuns` — branches reach the labels that they were emitted to

## Contents
- **The invariant.** `Linked`: what a label links are places of branches with offset zero, and no two labels link one
  place. Every call keeps this (`Linked.run`).
- **Waiting branches.** A branch that waits for a label waits until the label is bound (`Waiting.run`), and is settled
  then (`Waiting.bind`). What is settled stays so (`Settled.keeps`).
- **Sequences.** The same for sequences of calls (`Linked.runs`, `Waiting.runs`), and where linked places come from
  (`branch_of_linked`). `branches_resolved` puts all of this together.
-/

namespace ArmToolkit.A64.Assembler

/-! ## The invariant -/

/-- **A branch that waits for a label.** -/
structure Waiting (a : Assembler) (name : String) (i : Nat) (k : Branch) : Prop where
  linked : i ∈ (a.label name).links
  register : k.Exists
  branch : a.BranchAt i k 0

/-- **Labels and code are in step**: what a label links are the places of branches with offset zero, no place is linked
    twice, and a label that is bound links nothing. -/
structure Linked (a : Assembler) : Prop where
  distinct : ∀ name, (a.label name).links.Nodup
  apart : ∀ name name', name' ≠ name → ∀ i ∈ (a.label name).links, i ∉ (a.label name').links
  waiting : ∀ name, ∀ i ∈ (a.label name).links, ∃ k, a.Waiting name i k
  bound : ∀ name j, (a.label name).location = some j → (a.label name).links = [] ∧ j < wordLimit

theorem Unlinked.linked {a : Assembler} (h : a.Unlinked) : a.Linked := by
  constructor
  case distinct =>
    intro name
    rw [h.links name]
    exact List.nodup_nil
  case apart =>
    intro name name' _ i hi
    rw [h.links name] at hi
    cases hi
  case waiting =>
    intro name i hi
    rw [h.links name] at hi
    cases hi
  case bound =>
    intro name j place
    exact ⟨h.links name, h.located name j place⟩

section

variable {a b : Assembler} {name : String} {i j : Nat} {k : Branch} {c : Call}

theorem Linked.lt (linked : a.Linked) (hi : i ∈ (a.label name).links) : i < a.code.size := by
  obtain ⟨k, waiting⟩ := linked.waiting name i hi
  exact waiting.branch.lt

/-- The end of the code is not linked. -/
theorem Linked.end_unlinked (linked : a.Linked) (name : String) : a.code.size ∉ (a.label name).links := by
  intro hi
  exact absurd (linked.lt hi) (Nat.lt_irrefl _)

theorem Waiting.keeps {links : List Nat} (waiting : a.Waiting name i k) (keeps : a.Keeps b links) (unlinked : i ∉ links)
    (still : i ∈ (b.label name).links) : b.Waiting name i k :=
  ⟨still, waiting.register, waiting.branch.keeps keeps unlinked⟩

/-- An assembler with the labels of another one, and with its words. -/
theorem Linked.keeps (linked : a.Linked) (keeps : a.Keeps b []) (labels : ∀ name, b.label name = a.label name) :
    b.Linked := by
  constructor
  case distinct =>
    intro name
    rw [labels]
    exact linked.distinct name
  case apart =>
    intro name name' other i
    rw [labels, labels]
    exact linked.apart name name' other i
  case waiting =>
    intro name i hi
    rw [labels] at hi
    obtain ⟨k, waiting⟩ := linked.waiting name i hi
    exact ⟨k, waiting.keeps keeps List.not_mem_nil (by rwa [labels])⟩
  case bound =>
    intro name
    rw [labels]
    exact linked.bound name

theorem await_keeps (a : Assembler) (k : Branch) (name : String) : a.Keeps (a.await k name) [] :=
  (keeps_dc32 a _).setLabel _ _

theorem label_await (a : Assembler) (k : Branch) (name name' : String) : ((a.await k name).label name').links =
    (a.label name').links ++ if name' = name then [a.code.size] else [] := by
  unfold await
  split
  · rename_i same
    rw [same, label_setLabel]
  · rename_i other
    rw [label_setLabel_of_ne other, List.append_nil]
    rfl

theorem location_await (a : Assembler) (k : Branch) (name name' : String) :
    ((a.await k name).label name').location = (a.label name').location := by
  unfold await
  by_cases same : name' = name
  · rw [same, label_setLabel]
  · rw [label_setLabel_of_ne same]
    rfl

/-- The branch that was emitted waits. -/
theorem waiting_await (a : Assembler) (name : String) (register : k.Exists) :
    (a.await k name).Waiting name a.code.size k := by
  refine ⟨by simp [label_await], register, k.word 0, ?_, Branch.decode_word (encodes_zero register)⟩
  exact Array.getElem?_push_size

/-- What waits behind an emitted branch: what waited before, and the branch. -/
theorem mem_links_await {name' : String} : i ∈ ((a.await k name).label name').links ↔
    i ∈ (a.label name').links ∨ name' = name ∧ i = a.code.size := by
  rw [label_await, List.mem_append]
  split
  · rename_i same
    simp [same]
  · rename_i other
    simp [other]

theorem Linked.await (linked : a.Linked) (unbound : (a.label name).location = none) (register : k.Exists) :
    (a.await k name).Linked := by
  constructor
  case distinct =>
    intro name'
    rw [label_await]
    split
    · rw [List.nodup_append]
      refine ⟨linked.distinct name', by simp, ?_⟩
      intro i hi i' hi'
      rw [List.mem_singleton] at hi'
      exact fun same => linked.end_unlinked name' (hi' ▸ same ▸ hi)
    · rw [List.append_nil]
      exact linked.distinct name'
  -- the place of the new branch is the end of the code, which was linked by no label
  case apart =>
    intro name₁ name₂ other i hi hi'
    rcases mem_links_await.mp hi with old | ⟨same, rfl⟩ <;> rcases mem_links_await.mp hi' with old' | ⟨same', new⟩
    · exact linked.apart name₁ name₂ other i old old'
    · exact linked.end_unlinked name₁ (new ▸ old)
    · exact linked.end_unlinked name₂ old'
    · exact other (same'.trans same.symm)
  case waiting =>
    intro name' i hi
    rcases mem_links_await.mp hi with old | ⟨rfl, rfl⟩
    · obtain ⟨k', waiting⟩ := linked.waiting name' i old
      exact ⟨k', waiting.keeps (await_keeps a k name) List.not_mem_nil hi⟩
    · exact ⟨k, waiting_await a name' register⟩
  case bound =>
    intro name' j place
    rw [location_await] at place
    obtain ⟨none, small⟩ := linked.bound name' j place
    refine ⟨?_, small⟩
    rw [label_await, none, List.nil_append, if_neg]
    rintro rfl
    rw [unbound] at place
    cases place

/-! ### Binding -/

theorem bind_keeps (a : Assembler) (name : String) : a.Keeps (a.bind name) (a.label name).links :=
  (foldl_patch_keeps a.code.size a _).1.setLabel _ _

theorem size_bind (a : Assembler) (name : String) : (a.bind name).code.size = a.code.size :=
  (foldl_patch_keeps a.code.size a _).2.2

theorem label_bind (a : Assembler) (name : String) : (a.bind name).label name = ⟨some a.code.size, []⟩ := by
  unfold bind
  simp

theorem label_bind_of_ne {name' : String} (other : name' ≠ name) : (a.bind name).label name' = a.label name' := by
  obtain ⟨-, labels, -⟩ := foldl_patch_keeps a.code.size a (a.label name).links
  unfold bind
  simp only
  rw [label_setLabel_of_ne other]
  unfold label at labels ⊢
  rw [labels]

/-- Nothing waits for a label that was bound, and other labels are as they were. -/
theorem links_bind (a : Assembler) (name name' : String) :
    ((a.bind name).label name').links = if name' = name then [] else (a.label name').links := by
  split
  · rename_i same
    rw [same, label_bind]
  · rename_i other
    rw [label_bind_of_ne other]

theorem Linked.bind (linked : a.Linked) (small : a.code.size < wordLimit) (name : String) : (a.bind name).Linked := by
  constructor
  case distinct =>
    intro name'
    rw [links_bind]
    split
    · exact List.nodup_nil
    · exact linked.distinct name'
  case apart =>
    intro name₁ name₂ other i hi hi'
    rw [links_bind] at hi hi'
    split at hi
    · cases hi
    · split at hi'
      · cases hi'
      · exact linked.apart name₁ name₂ other i hi hi'
  -- patching changes places of the label that is bound, and the others wait at other places
  case waiting =>
    intro name' i hi
    have hi' := hi
    rw [links_bind] at hi'
    split at hi'
    · cases hi'
    · rename_i other
      obtain ⟨k, waiting⟩ := linked.waiting name' i hi'
      exact ⟨k, waiting.keeps (bind_keeps a name) (linked.apart name' name (Ne.symm other) i hi') hi⟩
  case bound =>
    intro name' j place
    by_cases same : name' = name
    · subst same
      rw [label_bind] at place ⊢
      cases place
      exact ⟨rfl, small⟩
    · rw [label_bind_of_ne same] at place ⊢
      exact linked.bound name' j place

/-- **Binding a label settles the branches that wait for it.** -/
theorem Waiting.bind (waiting : a.Waiting name i k) (linked : a.Linked) (small : a.code.size < wordLimit) :
    (a.bind name).Settled k i a.code.size :=
  (settled_foldl waiting.branch waiting.register small (linked.distinct name) waiting.linked).keeps
    (Keeps.setLabel (.rfl _ []) _ _) List.not_mem_nil

/-! ## One call -/

/-- The places that a call may change. -/
def Call.linked (a : Assembler) : Call → List Nat
  | bind name => (a.label name).links
  | _ => []

@[simp] theorem run_bind (a : Assembler) (name : String) : (Call.bind name).run a = a.bind name := rfl

/-- **A call changes no words but the linked ones**, and removes none. -/
theorem run_keeps (a : Assembler) (kept : c ≠ .reset) : a.Keeps (c.run a) (c.linked a) := by
  have plain : ∀ b, a.Keeps b [] → a.Keeps b (c.linked a) := by
    intro b keeps
    exact ⟨keeps.size, fun i hi _ => keeps.words i hi List.not_mem_nil, keeps.errors⟩
  rcases run_cases a c with ⟨w, run⟩ | ⟨e, run⟩ | ⟨k, name, -, -, -, run⟩ | ⟨name, rfl⟩ | rfl
  · rw [run]
    exact plain _ (keeps_dc32 a w)
  · rw [run]
    exact plain _ (keeps_record a e)
  · rw [run]
    exact plain _ (await_keeps a k name)
  · exact bind_keeps a name
  · exact absurd rfl kept

/-- **A call does nothing to a label that it does not bind** but to link the end of the code, where it emits a branch. -/
theorem label_run (a : Assembler) (other : c ≠ .bind name) :
    ((c.run a).label name).location = (a.label name).location ∧
      ∃ new, ((c.run a).label name).links = (a.label name).links ++ new ∧
        ∀ i ∈ new, i = a.code.size ∧ ∃ k, c = .branch k name := by
  rcases run_cases a c with ⟨w, run⟩ | ⟨e, run⟩ | ⟨k, name', rfl, -, -, run⟩ | ⟨name', rfl⟩ | rfl
  · rw [run]
    exact ⟨rfl, [], (List.append_nil _).symm, by simp⟩
  · rw [run]
    exact ⟨rfl, [], (List.append_nil _).symm, by simp⟩
  · rw [run]
    refine ⟨location_await a k name' name, _, label_await a k name' name, ?_⟩
    intro i hi
    split at hi
    · rename_i same
      exact ⟨List.mem_singleton.mp hi, k, by rw [same]⟩
    · cases hi
  · have apart : name ≠ name' := by
      rintro rfl
      exact other rfl
    rw [run_bind, label_bind_of_ne apart]
    exact ⟨rfl, [], (List.append_nil _).symm, by simp⟩
  · exact ⟨rfl, [], (List.append_nil _).symm, by simp⟩

/-- **Every call keeps labels and code in step.** -/
theorem Linked.run (linked : a.Linked) (allowed : c.Allowed a) (small : (c.run a).code.size < wordLimit) :
    (c.run a).Linked := by
  rcases run_cases a c with ⟨w, run⟩ | ⟨e, run⟩ | ⟨k, name, -, register, unbound, run⟩ | ⟨name, rfl⟩ | rfl
  · rw [run]
    exact linked.keeps (keeps_dc32 a w) fun _ => rfl
  · rw [run]
    exact linked.keeps (keeps_record a e) fun _ => rfl
  · rw [run]
    exact linked.await unbound register
  · rw [run_bind, size_bind] at small
    exact linked.bind small name
  · -- the labels stay where they are, and none of them links a place
    have unlinked : Unlinked a.reset := ⟨allowed, fun name j place => (linked.bound name j place).2⟩
    exact unlinked.linked

/-- A label that is bound stays bound. -/
theorem location_run (allowed : c.Allowed a) (bound : (a.label name).location = some j) :
    ((c.run a).label name).location = some j := by
  have other : c ≠ .bind name := by
    rintro rfl
    rw [show (a.label name).location = none from allowed] at bound
    cases bound
  rw [(label_run a other).1, bound]

/-- **A place that no label links** is not linked later. -/
theorem unlinked_run (inside : i < a.code.size) (unlinked : ∀ name, i ∉ (a.label name).links) :
    ∀ name, i ∉ ((c.run a).label name).links := by
  intro name hi
  by_cases binds : c = .bind name
  · rw [binds, run_bind, label_bind] at hi
    cases hi
  · obtain ⟨-, new, links, last⟩ := label_run a binds
    rw [links, List.mem_append] at hi
    rcases hi with old | new
    · exact unlinked name old
    · have := (last i new).1
      omega

/-- **A branch that waits for a label waits on**, unless the label is bound. -/
theorem Waiting.run (waiting : a.Waiting name i k) (linked : a.Linked) (kept : c ≠ .reset) (other : c ≠ .bind name) :
    (c.run a).Waiting name i k := by
  obtain ⟨-, new, links, -⟩ := label_run a other
  refine waiting.keeps (run_keeps a kept) ?_ (by rw [links]; exact List.mem_append_left _ waiting.linked)
  -- the place is linked by one label alone
  cases c with
  | bind name' =>
    have apart : name' ≠ name := by
      rintro rfl
      exact other rfl
    exact linked.apart name name' apart i waiting.linked
  | _ => exact List.not_mem_nil

/-! ## Sequences -/

theorem Linked.runs {calls : List Call} (linked : a.Linked) (permitted : a.Permitted calls) : (a.runs calls).Linked := by
  induction calls generalizing a with
  | nil => exact linked
  | cons c calls ih => exact ih (linked.run permitted.1 permitted.2.1) permitted.2.2

/-- A label that is bound stays bound, whatever is called. -/
theorem location_runs {calls : List Call} (permitted : a.Permitted calls)
    (bound : (a.label name).location = some j) : ((a.runs calls).label name).location = some j := by
  induction calls generalizing a with
  | nil => exact bound
  | cons c calls ih =>
    exact ih permitted.2.2 (location_run permitted.1 bound)

/-- **A place that no label links keeps its word**, unless the assembler is reset. -/
theorem keeps_runs {calls : List Call} (kept : .reset ∉ calls) (inside : i < a.code.size)
    (unlinked : ∀ name, i ∉ (a.label name).links) : ∃ links, i ∉ links ∧ a.Keeps (a.runs calls) links := by
  induction calls generalizing a with
  | nil => exact ⟨[], List.not_mem_nil, .rfl a _⟩
  | cons c calls ih =>
    simp only [List.mem_cons, not_or] at kept
    have keeps := run_keeps a (Ne.symm kept.1)
    obtain ⟨links, later, keeps'⟩ := ih kept.2 (Nat.lt_of_lt_of_le inside keeps.size)
      (unlinked_run inside unlinked)
    refine ⟨c.linked a ++ links, ?_, keeps.trans keeps'⟩
    rw [List.mem_append, not_or]
    refine ⟨?_, later⟩
    cases c with
    | bind name => exact unlinked name
    | _ => exact List.not_mem_nil

/-- **A branch that waits is settled** once its label is bound. -/
theorem Waiting.runs {calls : List Call} (waiting : a.Waiting name i k) (linked : a.Linked)
    (unbound : (a.label name).location = none) (permitted : a.Permitted calls) (kept : .reset ∉ calls)
    (bound : ((a.runs calls).label name).location = some j) : (a.runs calls).Settled k i j := by
  induction calls generalizing a with
  | nil =>
    rw [runs_nil, unbound] at bound
    cases bound
  | cons c calls ih =>
    obtain ⟨allowed, small, permitted⟩ := permitted
    simp only [List.mem_cons, not_or] at kept
    by_cases binds : c = .bind name
    · subst binds
      rw [run_bind] at small permitted
      rw [size_bind] at small
      have settled := waiting.bind linked small
      have place : ((a.bind name).label name).location = some a.code.size := by rw [label_bind]
      have same := location_runs permitted place
      rw [runs_cons, run_bind, same] at bound
      cases bound
      -- the place was linked by this label alone, which links nothing now
      have unlinked : ∀ name', i ∉ ((a.bind name).label name').links := by
        intro name' hi
        by_cases this : name' = name
        · rw [this, label_bind] at hi
          cases hi
        · rw [label_bind_of_ne this] at hi
          exact linked.apart name name' this i waiting.linked hi
      obtain ⟨links, apart, keeps⟩ := keeps_runs kept.2 settled.lt unlinked
      exact settled.keeps keeps apart
    · have other := label_run a binds
      exact ih (waiting.run linked (Ne.symm kept.1) binds) (linked.run allowed small) (other.1.trans unbound) permitted
        kept.2 bound

/-- **What a label links are places of branches that were emitted to it.** -/
theorem branch_of_linked {calls : List Call} (start : a.Unlinked) (permitted : a.Permitted calls)
    (hi : i ∈ ((a.runs calls).label name).links) :
    ∃ earlier k later, calls = earlier ++ .branch k name :: later ∧ .reset ∉ later ∧ i = (a.runs earlier).code.size := by
  -- by the last call: it binds the label, resets, or links at most its own place
  induction calls using List.reverseRecOn with
  | nil =>
    rw [runs_nil, start.links] at hi
    cases hi
  | append_singleton calls c ih =>
    have last : a.runs (calls ++ [c]) = c.run (a.runs calls) := runs_append a calls [c]
    rw [last] at hi
    obtain ⟨permitted, allowed, -⟩ := permitted_append.mp permitted
    by_cases binds : c = .bind name
    · rw [binds, run_bind, label_bind] at hi
      cases hi
    · by_cases reset : c = .reset
      · -- nothing is linked where the assembler may be reset
        subst reset
        have none : ((a.runs calls).label name).links = [] := allowed name
        rw [show (Call.reset.run (a.runs calls)).label name = (a.runs calls).label name from rfl, none] at hi
        cases hi
      · obtain ⟨-, new, links, emitted⟩ := label_run (a.runs calls) binds
        rw [links, List.mem_append] at hi
        rcases hi with old | new
        · obtain ⟨earlier, k, later, split, kept, place⟩ := ih permitted old
          refine ⟨earlier, k, later ++ [c], by simp [split], ?_, place⟩
          simpa using ⟨kept, Ne.symm reset⟩
        · obtain ⟨place, k, rfl⟩ := emitted i new
          exact ⟨calls, k, [], rfl, List.not_mem_nil, place⟩

end

/-! ## Everything together -/

/-- **What becomes of a branch** that is emitted behind some calls, where its label is bound to an index. -/
def Resolves (a : Assembler) (earlier : List Call) (k : Branch) (name : String) (later : List Call) (j : Nat) : Prop :=
  let before := a.runs earlier
  let after := a.runs (earlier ++ .branch k name :: later)
  if k.Reaches (4 * ((j : Int) - before.code.size)) then
    after.BranchAt before.code.size k (offsetBetween before.code.size j)
  else if (before.label name).location = none then
    after.BranchAt before.code.size k 0 ∧ ∃ why, ⟨j, .outOfRange before.code.size why⟩ ∈ after.errors
  else ∃ why, (Call.branch k name).run before = before.record (.encode why)

/-- **What holds of a sequence of calls.** -/
structure Consistent (a : Assembler) (calls : List Call) : Prop where
  /-- A branch has the offset to its label, wherever the label is bound, or an error says that it does not reach it. -/
  resolves : ∀ earlier k name later, calls = earlier ++ .branch k name :: later → .reset ∉ later → k.Exists →
    ∀ j, ((a.runs calls).label name).location = some j → a.Resolves earlier k name later j
  /-- No call removes a word, and only binding a label changes one: that of a branch to the label. -/
  keeps : ∀ earlier c later, calls = earlier ++ c :: later → c ≠ .reset →
    (a.runs earlier).code.size ≤ (c.run (a.runs earlier)).code.size ∧
    ∀ i < (a.runs earlier).code.size, (c.run (a.runs earlier)).code[i]? ≠ (a.runs earlier).code[i]? →
      ∃ name before k between, c = .bind name ∧ i ∈ ((a.runs earlier).label name).links ∧
        earlier = before ++ .branch k name :: between ∧ .reset ∉ between ∧ i = (a.runs before).code.size
  /-- Every word that is patched is decoded as a branch with offset zero when its turn comes. -/
  decodes : ∀ earlier name later, calls = earlier ++ .bind name :: later →
    ∀ done i rest, ((a.runs earlier).label name).links = done ++ i :: rest →
      ∃ k, (done.foldl (patch (a.runs earlier).code.size) (a.runs earlier)).BranchAt i k 0

/-- **A branch to a label that is bound already** is emitted with the offset to it, or does not reach it. -/
theorem resolves_bound {a : Assembler} {earlier later : List Call} {k : Branch} {name : String} {j : Nat}
    (linked : (a.runs earlier).Linked) (permitted : (a.runs earlier).Permitted (.branch k name :: later))
    (kept : .reset ∉ later) (register : k.Exists) (bound : ((a.runs earlier).label name).location = some j) :
    a.Resolves earlier k name later j := by
  obtain ⟨-, small, -⟩ := permitted
  have inside := Nat.lt_of_le_of_lt (run_keeps (a.runs earlier) (c := .branch k name) Call.noConfusion).size small
  have target := (linked.bound name j bound).2
  have emitted := branch_bound (k := k) bound
  unfold Resolves
  simp only [runs_append, runs_cons]
  -- the offset is known when the branch is emitted, and later calls do not touch a branch that is not linked
  split
  · rename_i reaches
    have encodes := encodes_offsetBetween inside target register reaches
    rw [Branch.encode_eq_ok encodes] at emitted
    rw [emitted]
    have here : ((a.runs earlier).dc32 (k.word (offsetBetween (a.runs earlier).code.size j))).BranchAt
        (a.runs earlier).code.size k (offsetBetween (a.runs earlier).code.size j) :=
      ⟨_, Array.getElem?_push_size, Branch.decode_word encodes⟩
    obtain ⟨links, apart, keeps⟩ := keeps_runs kept here.lt linked.end_unlinked
    exact here.keeps keeps apart
  · rename_i beyond
    rw [← toInt_offsetBetween inside target] at beyond
    obtain ⟨why, error⟩ := Branch.encode_eq_error beyond
    rw [error] at emitted
    rw [bound, if_neg (by simp)]
    exact ⟨why, emitted⟩

/-- **A branch to a label that is bound later** waits for it, and is settled then. -/
theorem resolves_unbound {a : Assembler} {earlier later : List Call} {k : Branch} {name : String} {j : Nat}
    (linked : (a.runs earlier).Linked) (permitted : (a.runs earlier).Permitted (.branch k name :: later))
    (kept : .reset ∉ later) (register : k.Exists) (unbound : ((a.runs earlier).label name).location = none)
    (bound : ((a.runs (earlier ++ .branch k name :: later)).label name).location = some j) :
    a.Resolves earlier k name later j := by
  obtain ⟨-, -, permitted⟩ := permitted
  have split : a.runs (earlier ++ .branch k name :: later) = ((a.runs earlier).await k name).runs later := by
    rw [runs_append, runs_cons, branch_unbound unbound register]
  rw [branch_unbound unbound register] at permitted
  rw [split] at bound
  have settled := (waiting_await (a.runs earlier) name register).runs (linked.await unbound register)
    ((location_await _ k name name).trans unbound) permitted kept bound
  unfold Resolves
  rw [split]
  unfold Settled at settled
  simp only [unbound, if_true]
  exact settled

/-- **Branches go to their labels**, whatever is emitted and bound in between. Resetting the assembler drops the code and
    keeps the labels, so branches behind it reach labels that were bound before it. -/
theorem branches_resolved {a : Assembler} {calls : List Call} (start : a.Unlinked) (permitted : a.Permitted calls) :
    a.Consistent calls := by
  refine ⟨?_, ?_, ?_⟩
  · rintro earlier k name later rfl kept register j bound
    obtain ⟨first, rest⟩ := permitted_append.mp permitted
    have linked := start.linked.runs first
    cases place : ((a.runs earlier).label name).location with
    | none => exact resolves_unbound linked rest kept register place bound
    | some j' =>
      -- the label stays where it is
      have still : ((a.runs (earlier ++ .branch k name :: later)).label name).location = some j' := by
        rw [runs_append]
        exact location_runs rest place
      rw [still] at bound
      cases bound
      exact resolves_bound linked rest kept register place
  · rintro earlier c later rfl kept
    have keeps := run_keeps (a.runs earlier) kept
    refine ⟨keeps.size, ?_⟩
    intro i inside changed
    have linked : i ∈ c.linked (a.runs earlier) := by
      by_contra unlinked
      exact changed (keeps.words i inside unlinked)
    cases c with
    | bind name =>
      obtain ⟨before, k, between, split, alive, place⟩ := branch_of_linked start (permitted_append.mp permitted).1 linked
      exact ⟨name, before, k, between, rfl, linked, split, alive, place⟩
    | _ => cases linked
  · rintro earlier name later rfl done i rest links
    have linked := start.linked.runs (permitted_append.mp permitted).1
    obtain ⟨k, waiting⟩ := linked.waiting name i (by simp [links])
    have distinct := linked.distinct name
    rw [links, List.nodup_append] at distinct
    have apart : i ∉ done := fun early => distinct.2.2 i early i List.mem_cons_self rfl
    exact ⟨k, branchAt_foldl _ waiting.branch apart⟩

/-- `branches_resolved` on a branch over one word. -/
theorem branches_resolved_forward :
    Unlinked {} ∧ Permitted {} [.branch .always "end", .word 0, .bind "end"] ∧
      BranchAt (runs {} [.branch .always "end", .word 0, .bind "end"]) 0 .always (offsetBetween 0 2) := by
  have start : Unlinked {} := ⟨fun _ => rfl, fun _ _ place => by cases place⟩
  have permitted : Permitted {} [.branch .always "end", .word 0, .bind "end"] :=
    ⟨trivial, by decide +kernel, trivial, by decide +kernel, rfl, by decide +kernel, trivial⟩
  have resolved := (branches_resolved start permitted).resolves [] .always "end" [.word 0, .bind "end"] rfl (by simp)
    trivial 2 (by decide +kernel)
  unfold Resolves at resolved
  rw [if_pos (by decide)] at resolved
  exact ⟨start, permitted, resolved⟩

end ArmToolkit.A64.Assembler
