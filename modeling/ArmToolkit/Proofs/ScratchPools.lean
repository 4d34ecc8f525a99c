import ArmToolkit.A64.Format
import ArmToolkit.A64.Scratch

/-!
# `Proofs.ScratchPools` — which registers are in the pools

## Contents
- **Bits.** A set of codes without one of them (`getLsbD_withoutBit`), and with one more (`getLsbD_withBit`).
- **Classes.** Governing predicates come from the pool of all predicates (`ScratchClass.pool`), but not all of these are
  taken (`ScratchClass.Takes`).
- **Pools.** What is in them is told by `ScratchPools.has_remove` and `ScratchPools.has_add`, and what is taken by
  `ScratchPools.lowest?_spec` and `ScratchPools.lowest?_eq_none`.
-/

namespace ArmToolkit.A64

/-! ## Bits -/

section

variable {n : Nat} (v : BitVec n) (i j : Nat)

theorem getLsbD_withoutBit : (withoutBit v i).getLsbD j = (v.getLsbD j && !decide (i = j)) := by
  have bit : (withoutBit v i).getLsbD j = (v &&& ~~~ BitVec.twoPow n i).getLsbD j := rfl
  rw [bit, BitVec.getLsbD_and, BitVec.getLsbD_not, BitVec.getLsbD_twoPow]
  by_cases inside : j < n
  · by_cases same : i = j <;> simp [same, inside]
  · simp [BitVec.getLsbD_of_ge v j (Nat.not_lt.mp inside)]

theorem getLsbD_withBit : (withBit v i).getLsbD j = (v.getLsbD j || decide (i = j ∧ j < n)) := by
  have bit : (withBit v i).getLsbD j = (v ||| BitVec.twoPow n i).getLsbD j := rfl
  rw [bit, BitVec.getLsbD_or, BitVec.getLsbD_twoPow]
  by_cases same : i = j <;> simp [same]

variable {v}

/-- There is a lowest bit unless all are clear. -/
theorem lowestBit?_eq_none : Bits.lowest? v = none ↔ ∀ i, v.getLsbD i = false := by
  unfold Bits.lowest?
  rw [List.find?_eq_none]
  constructor
  · intro clear i
    by_cases inside : i < n
    · exact Bool.eq_false_iff.mpr (clear i (List.mem_range.mpr inside))
    · exact BitVec.getLsbD_of_ge v i (Nat.not_lt.mp inside)
  · intro clear i _
    exact Bool.eq_false_iff.mp (clear i)

end

/-! ## Classes -/

namespace ScratchClass

/-- The class whose pool a register is taken from. -/
def pool : ScratchClass → ScratchClass
  | governing => predicate
  | c => c

/-- **The codes that a class can take.** -/
def Takes : ScratchClass → Nat → Prop
  | governing, code => code < Form.governingCount
  | _, _ => True

/-- The number of registers of a class. -/
def count : ScratchClass → Nat
  | general | vector => 32
  | predicate | governing => 16

end ScratchClass

/-! ## Pools -/

namespace ScratchPools

variable (p : ScratchPools) (c d : ScratchClass) (code other : Nat)

/-- Classes with one pool see the same registers in it. -/
theorem has_of_pool {c d : ScratchClass} (same : c.pool = d.pool) : p.has c code = p.has d code := by
  cases c <;> cases d <;> first | rfl | cases same

theorem has_remove :
    (p.remove c code).has d other = (p.has d other && !decide (c.pool = d.pool ∧ code = other)) := by
  cases c <;> cases d <;> simp [remove, has, ScratchClass.pool, getLsbD_withoutBit]

/-- What is there without a register was there before. -/
theorem has_of_remove {p : ScratchPools} {c d : ScratchClass} {code other : Nat}
    (pooled : (p.remove c code).has d other = true) : p.has d other = true := by
  rw [has_remove, Bool.and_eq_true] at pooled
  exact pooled.1

theorem has_add : (p.add c code).has d other =
    (p.has d other || decide (c.pool = d.pool ∧ code = other ∧ other < c.count)) := by
  cases c <;> cases d <;> simp [add, has, ScratchClass.pool, ScratchClass.count, getLsbD_withBit]

/-- The governing predicates that are in the pool. -/
theorem getLsbD_governing :
    (p.predicate &&& 0xff).getLsbD code = (p.predicate.getLsbD code && decide (code < Form.governingCount)) := by
  have table : ∀ code < 16, (0xff : BitVec 16).getLsbD code = decide (code < Form.governingCount) := by decide
  rw [BitVec.getLsbD_and]
  by_cases inside : code < 16
  · rw [table code inside]
  · rw [BitVec.getLsbD_of_ge _ _ (Nat.not_lt.mp inside), Bool.false_and, Bool.false_and]

variable {p c code}

/-- **What is taken** is in the pool, and is a code that the class can take. -/
theorem lowest?_spec (taken : p.lowest? c = some code) : p.has c code = true ∧ c.Takes code := by
  have bit : ∀ {n : Nat} {v : BitVec n}, Bits.lowest? v = some code → v.getLsbD code = true := List.find?_some
  cases c with
  | general | vector | predicate => exact ⟨bit taken, trivial⟩
  | governing =>
    have both := bit taken
    rw [getLsbD_governing, Bool.and_eq_true, decide_eq_true_eq] at both
    exact both

/-- **Nothing is taken** where the pool has nothing that the class can take. -/
theorem lowest?_eq_none : p.lowest? c = none ↔ ∀ code, c.Takes code → p.has c code = false := by
  cases c with
  | general | vector | predicate =>
    exact lowestBit?_eq_none.trans ⟨fun clear code _ => clear code, fun clear code => clear code trivial⟩
  | governing =>
    refine lowestBit?_eq_none.trans (forall_congr' fun code => ?_)
    rw [getLsbD_governing]
    show _ ↔ (code < Form.governingCount → p.predicate.getLsbD code = false)
    cases p.predicate.getLsbD code <;> simp

/-- **A register that is not in the pool** is another one than what is taken. -/
theorem ne_of_lowest? {other : Nat} (taken : p.lowest? c = some code) (unpooled : p.has c other = false) : code ≠ other := by
  rintro rfl
  rw [(lowest?_spec taken).1] at unpooled
  cases unpooled

/-- A vector scratch register exists, and comes from the pool. -/
theorem lowest?_vector (taken : p.lowest? .vector = some code) : code < 32 ∧ p.has .vector code = true := by
  have pooled := (lowest?_spec taken).1
  exact ⟨BitVec.lt_of_getLsbD pooled, pooled⟩

/-- **The lowest general scratch register** is a register of the file where one of these is in the pool. -/
theorem lowest?_general (free : ∃ k < 31, p.has .general k = true) :
    ∃ code < 31, p.lowest? .general = some code := by
  obtain ⟨k, hk, has⟩ := free
  have some : (p.lowest? .general).isSome = true :=
    List.find?_isSome.mpr ⟨k, List.mem_range.mpr (by omega), has⟩
  obtain ⟨code, lowest⟩ := Option.isSome_iff_exists.mp some
  -- a code above `k` would not be the lowest
  refine ⟨code, Nat.lt_of_not_le fun high => ?_, lowest⟩
  obtain ⟨-, -, below⟩ := List.find?_range_eq_some.mp lowest
  have := below k (by omega)
  rw [show p.general.getLsbD k = true from has] at this
  cases this

end ScratchPools

end ArmToolkit.A64
