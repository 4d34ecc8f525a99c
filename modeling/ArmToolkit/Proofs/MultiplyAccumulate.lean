import ArmToolkit.A64.MacroCall
import ArmToolkit.Proofs.LaneWrites

/-!
# `Proofs.MultiplyAccumulate` — an addend plus a product, with any aliasing

There are two instructions with an addend and two factors. One overwrites the addend, the other one a factor. The macro
takes the one that overwrites the operand that is the destination, and copies the addend into the destination in front
where none is.

## Contents
- **Instructions.** What each of the two leaves (`Assembler.multiplyAdd_emits`, `Assembler.multiplyInto_emits`).
- **Copied addends.** `Core.Sets.accumulated`: the addend that was brought to the destination before.
- **The macro.** What its words leave in the lanes of the destination (`Assembler.multiplyAccumulate_emits`), that they are
  the same whatever scratch registers there are (`Assembler.multiplyAccumulate_withPools`), and both as one statement
  (`Assembler.multiplyAccumulate_computes`).
-/

namespace ArmToolkit.A64

/-- Lane `i` of an addend plus the product of two vectors, or minus the product. -/
def Core.accumulated (core : Core) (l : LaneSize) (negated : Bool) (za zn zm i : Nat) : BitVec l.bits :=
  Semantics.accumulate negated (core.regs.zLane za l.bits i) (core.regs.zLane zn l.bits i) (core.regs.zLane zm l.bits i)

/-- The factors can be swapped. -/
theorem Core.accumulated_comm (core : Core) (l : LaneSize) (negated : Bool) (za zn zm i : Nat) :
    core.accumulated l negated za zn zm i = core.accumulated l negated za zm zn i := by
  unfold accumulated Semantics.accumulate
  rw [BitVec.mul_comm]

/-! ## Instructions -/

namespace Assembler

variable {a : Assembler} {l : LaneSize} {zd za zn zm pg : Nat}

/-- The operands of an instruction with two sources under a predicate that merges. -/
def mergingOps (l : LaneSize) (zd pg z z' : Nat) : List Operand :=
  [.ofZ ⟨zd, some l⟩, .ofP ⟨pg, none, some .merging⟩, .ofZ ⟨z, some l⟩, .ofZ ⟨z', some l⟩]

theorem mergingOps_plain {z z' : Nat} (hzd : zd < 32) (hpg : pg < Form.governingCount) (hz : z < 32) (hz' : z' < 32) :
    ∀ op ∈ mergingOps l zd pg z z', op.IsPlain := by
  simp only [mergingOps, List.forall_mem_cons]
  exact ⟨.register (.vector _ hzd), .register (isRegister_governing hpg), .register (.vector _ hz),
    .register (.vector _ hz'), List.forall_mem_nil _⟩

/-- **The product added to the destination**, or subtracted from it. -/
theorem multiplyAdd_emits (allowed : l ∈ Form.bhsd) (hzd : zd < 32) (hpg : pg < Form.governingCount) (hzn : zn < 32)
    (hzm : zm < 32) (negated : Bool) :
    a.Emits (a.emit (if negated then .mls else .mla) (mergingOps l zd pg zn zm)) fun vl core after =>
      Core.Sets vl l core after zd (core.governed l pg zd false (core.accumulated l negated zd zn zm)) := by
  have replaces : ReplacesLanes (.multiplyAdd negated) (mergingOps l zd pg zn zm) l zd fun r i =>
      if activeLane l.bytes (r.pBits pg) i then
        Semantics.accumulate negated (r.zLane zd l.bits i) (r.zLane zn l.bits i) (r.zLane zm l.bits i)
      else r.zLane zd l.bits i :=
    ⟨rfl, mergingOps_plain hzd hpg hzn hzm, fun _ _ _ => rfl, hzd, fun _ _ => rfl⟩
  refine replaces.emits ?_
  simp only [Form.checks, List.forall_mem_cons]
  exact ⟨⟨l, allowed, rfl⟩, hpg, rfl, rfl, List.forall_mem_nil _⟩

/-- **The destination multiplied**, and the product added to an addend or subtracted from it. -/
theorem multiplyInto_emits (allowed : l ∈ Form.bhsd) (hzd : zd < 32) (hpg : pg < Form.governingCount) (hzm : zm < 32)
    (hza : za < 32) (negated : Bool) :
    a.Emits (a.emit (if negated then .msb else .mad) (mergingOps l zd pg zm za)) fun vl core after =>
      Core.Sets vl l core after zd (core.governed l pg zd false (core.accumulated l negated za zd zm)) := by
  have replaces : ReplacesLanes (.multiplyInto negated) (mergingOps l zd pg zm za) l zd fun r i =>
      if activeLane l.bytes (r.pBits pg) i then
        Semantics.accumulate negated (r.zLane za l.bits i) (r.zLane zd l.bits i) (r.zLane zm l.bits i)
      else r.zLane zd l.bits i :=
    ⟨rfl, mergingOps_plain hzd hpg hzm hza, fun _ _ _ => rfl, hzd, fun _ _ => rfl⟩
  refine replaces.emits ?_
  simp only [Form.checks, List.forall_mem_cons]
  exact ⟨⟨l, allowed, rfl⟩, hpg, rfl, rfl, List.forall_mem_nil _⟩

end Assembler

/-! ## Copied addends -/

/-- **A product added to an addend that was brought to the destination before.** The factors are other registers. -/
theorem Core.Sets.accumulated {vl : VectorLength} {l : LaneSize} {core mid after : Core} {pg zd za zn zm : Nat} {negated : Bool}
    (apart : zn ≠ zd ∧ zm ≠ zd)
    (brought : Core.Sets vl l core mid zd (core.governed l pg zd false (core.regs.zLane za l.bits)))
    (added : Core.Sets vl l mid after zd (mid.governed l pg zd false (mid.accumulated l negated zd zn zm))) :
    Core.Sets vl l core after zd (core.governed l pg zd false (core.accumulated l negated za zn zm)) := by
  refine brought.behind added fun i hi active => ?_
  have addend : mid.regs.zLane zd l.bits i = core.regs.zLane za l.bits i := by
    rw [brought.written i hi, Core.governed_active active]
  rw [Core.accumulated, addend, brought.kept zn apart.1 i hi, brought.kept zm apart.2 i hi]
  rfl

/-! ## The macro -/

namespace Assembler

variable {a : Assembler} {l : LaneSize} {zd za zn zm : Nat} {pg : PReg}

/-- **What the words of the macro leave in the lanes of the destination.** -/
theorem multiplyAccumulate_emits (allowed : l ∈ Form.bhsd) (hzd : zd < 32) (hza : za < 32) (hzn : zn < 32) (hzm : zm < 32)
    (hpg : pg.code < Form.governingCount) (negated : Bool) :
    a.Emits (a.multiplyAccumulate negated ⟨zd, some l⟩ pg ⟨za, some l⟩ ⟨zn, some l⟩ ⟨zm, some l⟩) fun vl core after =>
      Core.Sets vl l core after zd (core.governed l pg.code zd false (core.accumulated l negated za zn zm)) := by
  unfold multiplyAccumulate
  dsimp only
  by_cases addend : zd = za
  -- the destination is the addend
  · rw [if_pos addend]
    subst addend
    exact multiplyAdd_emits allowed hzd hpg hzn hzm negated
  · rw [if_neg addend]
    by_cases first : zd = zn
    -- the destination is the first factor
    · rw [if_pos first]
      subst first
      exact multiplyInto_emits allowed hzd hpg hzm hza negated
    · rw [if_neg first]
      by_cases second : zd = zm
      -- the destination is the second factor, which the instruction takes for the first one
      · rw [if_pos second]
        subst second
        refine (multiplyInto_emits allowed hzd hpg hzn hza negated).mono fun vl core after sets => ?_
        rwa [funext (core.accumulated_comm l negated za zd zn)] at sets
      -- the destination is no operand, and the addend is copied
      · rw [if_neg second]
        have copied := copyActive_emits (a := a) (q := .merging) allowed hzd hpg hza
        refine (copied.trans (multiplyAdd_emits allowed hzd hpg hzn hzm negated)).mono fun vl core after done => ?_
        obtain ⟨mid, brought, added⟩ := done
        exact brought.accumulated ⟨Ne.symm first, Ne.symm second⟩ added

/-- **The macro looks at no scratch register.** -/
theorem multiplyAccumulate_withPools (a : Assembler) (pools : ScratchPools) (negated : Bool) (zd : ZReg) (pg : PReg)
    (za zn zm : ZReg) :
    ({ a with pools } : Assembler).multiplyAccumulate negated zd pg za zn zm =
      { a.multiplyAccumulate negated zd pg za zn zm with pools } := by
  unfold multiplyAccumulate copyActive
  simp only [emit_withPools]
  split_ifs <;> rfl

/-- **An addend plus a product, or minus a product, with any aliasing.** The four vectors exist and are viewed at one lane
    size, and any of them may be the same; the predicate is one of the lowest eight, whatever its qualifier. Whatever
    scratch registers there are, also where there are none, the same words are emitted, and nothing else of the assembler
    changes: no error is recorded and no scratch register is taken. Executing the words in order, from any state with a
    vector length, leaves in every active lane of the destination the sum or the difference of the lanes as they were, and
    in every other lane what was there. No other vector changes. -/
theorem multiplyAccumulate_computes (a : Assembler) (zd : ZReg) (pg : PReg) (za zn zm : ZReg)
    (views : zd.lane = some l ∧ za.lane = some l ∧ zn.lane = some l ∧ zm.lane = some l) (allowed : l ∈ Form.bhsd)
    (codes : zd.code < 32 ∧ za.code < 32 ∧ zn.code < 32 ∧ zm.code < 32) (governs : pg.code < Form.governingCount)
    (negated : Bool) :
    ∃ ws : List Word,
      (∀ pools : ScratchPools, ({ a with pools } : Assembler).expand (.multiplyAccumulate negated zd pg za zn zm) =
        { a with pools, code := a.code ++ ws }) ∧
      ∀ (sim : Simulator) (vl : VectorLength), sim.core.regs.vl = some vl →
        ∃ after, sim.executeWords? ws = some after ∧
          (∀ i < vl.lanes l, after.core.regs.zLane zd.code l.bits i =
            if activeLane l.bytes (sim.core.regs.pBits pg.code) i then
              let product := sim.core.regs.zLane zn.code l.bits i * sim.core.regs.zLane zm.code l.bits i
              if negated then sim.core.regs.zLane za.code l.bits i - product
              else sim.core.regs.zLane za.code l.bits i + product
            else sim.core.regs.zLane zd.code l.bits i) ∧
          ∀ z, z ≠ zd.code → ∀ i < vl.lanes l, after.core.regs.zLane z l.bits i = sim.core.regs.zLane z l.bits i := by
  obtain ⟨zd, lane⟩ := zd
  obtain ⟨za, lane'⟩ := za
  obtain ⟨zn, lane''⟩ := zn
  obtain ⟨zm, lane'''⟩ := zm
  obtain ⟨rfl, rfl, rfl, rfl⟩ := views
  obtain ⟨hzd, hza, hzn, hzm⟩ := codes
  obtain ⟨ws, emitted, runs⟩ := multiplyAccumulate_emits (a := a) allowed hzd hza hzn hzm governs negated
  refine ⟨ws, ?_, ?_⟩
  -- no scratch register is taken, so the words do not depend on the pools
  · intro pools
    show ({ a with pools } : Assembler).multiplyAccumulate negated _ pg _ _ _ = _
    rw [multiplyAccumulate_withPools, emitted]
    rfl
  · intro sim vl configured
    obtain ⟨after, run, -, sets⟩ := runs sim vl configured
    exact ⟨after, run, sets.written, sets.kept⟩

/-- A difference whose destination is the second factor and the first one as well, where there is no scratch register. -/
theorem multiplyAccumulate_computes_square :
    let a : Assembler := { pools := ⟨0, 0, 0⟩ }
    let z (code : Nat) : ZReg := ⟨code, some .h⟩
    let pg : PReg := ⟨7, none, none⟩
    ∃ ws : List Word,
      a.expand (.multiplyAccumulate true (z 3) pg (z 1) (z 3) (z 3)) = { a with code := a.code ++ ws } ∧
      ∀ (sim : Simulator) (vl : VectorLength), sim.core.regs.vl = some vl →
        ∃ after, sim.executeWords? ws = some after ∧ ∀ i < vl.lanes .h, after.core.regs.zLane 3 16 i =
          if activeLane 2 (sim.core.regs.pBits 7) i then
            sim.core.regs.zLane 1 16 i - sim.core.regs.zLane 3 16 i * sim.core.regs.zLane 3 16 i
          else sim.core.regs.zLane 3 16 i := by
  intro a z pg
  obtain ⟨ws, emitted, runs⟩ := multiplyAccumulate_computes (l := .h) a (z 3) pg (z 1) (z 3) (z 3)
    ⟨rfl, rfl, rfl, rfl⟩ (by decide) (by decide) (by decide) true
  refine ⟨ws, emitted a.pools, ?_⟩
  intro sim vl configured
  obtain ⟨after, run, lanes, -⟩ := runs sim vl configured
  exact ⟨after, run, lanes⟩

end Assembler

end ArmToolkit.A64
