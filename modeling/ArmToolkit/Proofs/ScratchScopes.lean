import ArmToolkit.Proofs.MacroFrames

/-!
# `Proofs.ScratchScopes` — scratch registers in nested scopes

## Contents
- **Calls.** `ScopeCall` is a use of the scratch registers or a macro, and `Assembler.follows` makes calls one after the
  other. `ScopeCall.depth?` counts the scopes that they leave open.
- **Macros.** A macro leaves pools and scopes as they were (`Assembler.expand_scratch`).
- **Scopes.** `Assembler.Guarded`: what is known of the pools, and of the pools that the scopes opened since will put back.
  A call keeps it (`Guarded.follow`), and so do calls (`Guarded.follows`).
- **The result.** `Assembler.scratch_scoped`.
-/

namespace ArmToolkit.A64

/-! ## Calls -/

/-- **A use of the scratch registers, or a macro.** -/
inductive ScopeCall
  | openScope
  | closeScope
  | acquire (c : ScratchClass)
  | includeScratch (c : ScratchClass) (code : Nat)
  | excludeScratch (c : ScratchClass) (code : Nat)
  | expand (call : MacroCall)

namespace ScopeCall

/-- The number of open scopes after a call; nothing if it would close one more than there are. -/
def step? : Nat → ScopeCall → Option Nat
  | n, openScope => some (n + 1)
  | 0, closeScope => none
  | n + 1, closeScope => some n
  | n, _ => some n

/-- **The number of open scopes after calls**; nothing if they would close more than there are. -/
def depth? (calls : List ScopeCall) (n : Nat) : Option Nat := calls.foldlM step? n

end ScopeCall

namespace Assembler

/-- Makes a call. -/
def follow (a : Assembler) : ScopeCall → Assembler
  | .openScope => a.openScope
  | .closeScope => a.closeScope
  | .acquire c => (a.acquire c).2
  | .includeScratch c code => a.includeScratch c code
  | .excludeScratch c code => a.excludeScratch c code
  | .expand call => a.expand call

/-- **Makes calls one after the other.** -/
def follows (a : Assembler) (calls : List ScopeCall) : Assembler := calls.foldl follow a

/-! ## Macros -/

/-- **A macro leaves pools and scopes as they were**, also where it records an error. -/
theorem expand_scratch (a : Assembler) (call : MacroCall) :
    (a.expand call).pools = a.pools ∧ (a.expand call).scopes = a.scopes :=
  ⟨(a.issues_expand call).2, (a.issues_expand call).1.scopes⟩

/-! ## Scopes -/

/-- **What is known of the pools, and of all pools that the scopes opened since put back.** The scopes that were open
    before are still there. -/
structure Guarded (a : Assembler) (P : ScratchPools → Prop) (outer : List ScratchPools) (depth : Nat) : Prop where
  pools : P a.pools
  scopes : ∃ inner, a.scopes = inner ++ outer ∧ inner.length = depth ∧ ∀ p ∈ inner, P p

variable {a : Assembler} {P : ScratchPools → Prop} {outer : List ScratchPools}

/-- **A register is taken out of its pool**, or an error is recorded and nothing else changes. -/
theorem acquire_cases (a : Assembler) (c : ScratchClass) :
    (∃ code, a.pools.lowest? c = some code ∧
      a.acquire c = (some code, { a with pools := a.pools.remove c code })) ∨
    (a.pools.lowest? c = none ∧ a.acquire c = (none, a.record (.exhausted c))) := by
  unfold acquire
  cases a.pools.lowest? c with
  | some code => exact .inl ⟨code, rfl, rfl⟩
  | none => exact .inr ⟨rfl, rfl⟩

/-- A call that changes the pools alone. -/
theorem Guarded.withPools {b : Assembler} {depth : Nat} (guarded : a.Guarded P outer depth)
    (same : b.scopes = a.scopes) (kept : P b.pools) : b.Guarded P outer depth := by
  obtain ⟨inner, scopes, length, inside⟩ := guarded.scopes
  exact ⟨kept, inner, same.trans scopes, length, inside⟩

/-- **A call keeps what is known of the pools**, if making a register unavailable and what the call includes keep it. -/
theorem Guarded.follow {depth after : Nat} {call : ScopeCall} (guarded : a.Guarded P outer depth)
    (opened : ScopeCall.step? depth call = some after) (removes : ∀ p c code, P p → P (p.remove c code))
    (adds : ∀ c code, call = .includeScratch c code → ∀ p, P p → P (p.add c code)) :
    (a.follow call).Guarded P outer after := by
  obtain ⟨inner, scopes, rfl, inside⟩ := guarded.scopes
  -- only calls for registers change the pools; the others open or close a scope, or put the pools back themselves
  cases call with
  | openScope =>
    cases opened
    refine ⟨guarded.pools, a.pools :: inner, congrArg (a.pools :: ·) scopes, rfl, ?_⟩
    exact List.forall_mem_cons.mpr ⟨guarded.pools, inside⟩
  | closeScope =>
    cases inner with
    | nil => cases opened
    | cons p inner =>
      cases opened
      obtain ⟨known, inside⟩ := List.forall_mem_cons.mp inside
      show a.closeScope.Guarded P outer inner.length
      unfold closeScope
      rw [scopes]
      exact ⟨known, inner, rfl, rfl, inside⟩
  | acquire c =>
    cases opened
    show (a.acquire c).2.Guarded P outer inner.length
    rcases acquire_cases a c with ⟨code, -, taken⟩ | ⟨-, refused⟩
    · rw [taken]
      exact guarded.withPools rfl (removes _ _ _ guarded.pools)
    · rw [refused]
      exact guarded.withPools rfl guarded.pools
  | includeScratch c code =>
    cases opened
    exact guarded.withPools rfl (adds c code rfl _ guarded.pools)
  | excludeScratch c code =>
    cases opened
    exact guarded.withPools rfl (removes _ _ _ guarded.pools)
  | expand call =>
    cases opened
    obtain ⟨pools, scopes⟩ := expand_scratch a call
    refine guarded.withPools scopes ?_
    show P (a.expand call).pools
    rw [pools]
    exact guarded.pools

/-- **Calls keep what is known of the pools.** -/
theorem Guarded.follows {depth after : Nat} {calls : List ScopeCall} (guarded : a.Guarded P outer depth)
    (opened : ScopeCall.depth? calls depth = some after)
    (removes : ∀ p c code, P p → P (p.remove c code))
    (adds : ∀ c code, .includeScratch c code ∈ calls → ∀ p, P p → P (p.add c code)) :
    (a.follows calls).Guarded P outer after := by
  induction calls generalizing a depth with
  | nil =>
    cases opened
    exact guarded
  | cons call calls ih =>
    obtain ⟨mid, first, rest⟩ := Option.bind_eq_some_iff.mp opened
    refine ih (guarded.follow first removes fun c code same => ?_) rest fun c code mem => ?_
    · exact adds c code (same ▸ List.mem_cons_self)
    · exact adds c code (List.mem_cons_of_mem _ mem)

/-- **A scope puts back the pools as they were when it was opened.** -/
theorem pools_closeScope {body : List ScopeCall} (closed : ScopeCall.depth? body 0 = some 0) :
    (a.openScope.follows body).closeScope.pools = a.pools ∧
    (a.openScope.follows body).closeScope.scopes = a.scopes := by
  have start : a.openScope.Guarded (fun _ => True) (a.pools :: a.scopes) 0 := ⟨trivial, [], rfl, rfl, by simp⟩
  obtain ⟨-, inner, scopes, length, -⟩ := start.follows closed (fun _ _ _ _ => trivial) fun _ _ _ _ _ => trivial
  obtain rfl := List.length_eq_zero_iff.mp length
  unfold closeScope
  rw [scopes]
  exact ⟨rfl, rfl⟩

/-- What is acquired was in its pool, and is taken out of it. -/
theorem acquire_eq_some {c : ScratchClass} {code : Nat} (held : (a.acquire c).1 = some code) :
    a.pools.lowest? c = some code ∧ (a.acquire c).2 = { a with pools := a.pools.remove c code } := by
  rcases acquire_cases a c with ⟨first, lowest, acquired⟩ | ⟨-, refused⟩
  · rw [acquired] at held ⊢
    obtain rfl : first = code := Option.some.inj held
    exact ⟨lowest, rfl⟩
  · rw [refused] at held
    cases held

/-- **A register that is held is not taken again**, as long as its scope is open and it is not made available. -/
theorem acquire_apart {c d : ScratchClass} {between : List ScopeCall} {code other depth : Nat} (same : c.pool = d.pool)
    (opened : ScopeCall.depth? between 0 = some depth)
    (kept : ∀ c', .includeScratch c' code ∈ between → c'.pool ≠ c.pool) (held : (a.acquire c).1 = some code)
    (taken : (((a.acquire c).2.follows between).acquire d).1 = some other) : code ≠ other := by
  -- neither the pools nor what the scopes opened since put back have the register
  have start : (a.acquire c).2.Guarded (fun p => p.has c code = false) a.scopes 0 := by
    rw [(acquire_eq_some held).2]
    exact ⟨by simp [ScratchPools.has_remove], [], rfl, rfl, by simp⟩
  have lacks := (start.follows opened
    (fun p c' code' without => by rw [ScratchPools.has_remove, without, Bool.false_and])
    fun c' code' mem p without => by
      rw [ScratchPools.has_add, without, Bool.false_or, decide_eq_false_iff_not]
      rintro ⟨pool, rfl, -⟩
      exact kept c' mem pool).pools
  have pooled := (ScratchPools.lowest?_spec (acquire_eq_some taken).1).1
  rw [← ScratchPools.has_of_pool _ _ same] at pooled
  rintro rfl
  rw [lacks] at pooled
  cases pooled

/-- **Scratch registers are kept apart by their scopes**, from any assembler on. When a scope ends, the pools are as they
    were when it was opened, whatever was done in between. A macro leaves them as they were, also where it records an
    error. A register that is acquired is none that has been acquired before from the same pool, in a scope that is still
    open, unless that one was made available in between. An acquisition fails exactly where the pool has nothing for the
    class; it then records an error and changes no pool. Governing predicates are the lowest eight. -/
theorem scratch_scoped (a : Assembler) :
    (∀ body, ScopeCall.depth? body 0 = some 0 →
      (a.openScope.follows body).closeScope.pools = a.pools ∧
      (a.openScope.follows body).closeScope.scopes = a.scopes) ∧
    (∀ call, (a.expand call).pools = a.pools ∧ (a.expand call).scopes = a.scopes) ∧
    (∀ (c d : ScratchClass) (between : List ScopeCall) (code other : Nat), c.pool = d.pool →
      (ScopeCall.depth? between 0).isSome = true →
      (∀ c', .includeScratch c' code ∈ between → c'.pool ≠ c.pool) →
      (a.acquire c).1 = some code → (((a.acquire c).2.follows between).acquire d).1 = some other → code ≠ other) ∧
    (∀ c, ((a.acquire c).1 = none ↔ ∀ code, c.Takes code → a.pools.has c code = false) ∧
      ((a.acquire c).1 = none →
        (a.acquire c).2.errors = a.errors ++ [⟨a.code.size, .exhausted c⟩] ∧ (a.acquire c).2.pools = a.pools)) ∧
    ∀ code, (a.acquire .governing).1 = some code → code < 8 := by
  refine ⟨fun body => pools_closeScope, expand_scratch a, ?_, fun c => ?_, fun code held => ?_⟩
  · intro c d between code other same opened kept held taken
    obtain ⟨depth, opened⟩ := Option.isSome_iff_exists.mp opened
    exact acquire_apart same opened kept held taken
  · rcases acquire_cases a c with ⟨code, lowest, acquired⟩ | ⟨lowest, refused⟩
    · rw [acquired, ← ScratchPools.lowest?_eq_none, lowest]
      exact ⟨by simp, by simp⟩
    · rw [refused, ← ScratchPools.lowest?_eq_none, lowest]
      exact ⟨by simp, fun _ => ⟨rfl, rfl⟩⟩
  · exact (ScratchPools.lowest?_spec (acquire_eq_some held).1).2

/-- Both general scratch registers are taken, one of them in an inner scope, where a macro then finds none. -/
theorem scratch_scoped_exhausted :
    let a : Assembler := {}
    let inner : List ScopeCall := [.openScope, .acquire .general, .expand (.insr ⟨0, some .d⟩ 5), .closeScope]
    let held : Assembler := (a.acquire .general).2
    ((held.follows inner).errors.length = 1 ∧ (a.acquire .general).1 = some 16 ∧
      ∃ other, ((held.follows inner).acquire .general).1 = some other ∧ 16 ≠ other) ∧
    (a.openScope.follows (.acquire .general :: inner)).closeScope.pools = .initial := by
  obtain ⟨restores, -, apart, -⟩ := scratch_scoped {}
  refine ⟨⟨rfl, rfl, 17, rfl, ?_⟩, (restores _ rfl).1⟩
  refine apart .general .general [.openScope, .acquire .general, .expand (.insr ⟨0, some .d⟩ 5), .closeScope] 16 17 rfl rfl
    (fun c' mem => ?_) rfl rfl
  simp at mem

end Assembler

end ArmToolkit.A64
