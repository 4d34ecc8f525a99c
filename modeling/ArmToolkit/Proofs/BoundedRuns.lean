import ArmToolkit.Proofs.Reachable
import Mathlib.Logic.Function.Iterate

/-!
# `Proofs.BoundedRuns` — every run ends within its budget

A run is a loop that steps until the program has halted or a step fails. The loop is bounded by the budget of instructions
alone: programs may loop and may write their own code.

## Contents
- **Steps.** `Simulator.Stepped` is what a step can do (`Simulator.stepped`): nothing, fail, or execute one instruction and
  count it. From it follow the count (`Stepped.count_le`) and why a program halts (`Stepped.halted_iff`).
- **The loop.** `Simulator.Loops` is the loop without a bound. It ends in one way at most (`Loops.unique`), and halted unless
  its last step has failed (`Loops.outcome`).
- **Runs.** `Simulator.run` is the loop, which ends within the budget (`Simulator.run_loops`). `Simulator.run_bounded` puts
  all of this together.
-/

namespace ArmToolkit.A64

/-! ## Steps -/

theorem TransferResult.flow_outcome {t : TransferResult} {after : Core} {flow : Flow}
    (done : t.outcome = .done after flow) : flow = .next := by
  cases t <;> cases done
  rfl

namespace Semantics

variable {f : Form} {cond : Condition} {ops : List Operand} {core after : Core} {flow : Flow}

/-- A vector instruction goes on to the next one. -/
theorem flow_executeVector {vl : VectorLength} (done : executeVector f vl ops core = .done after flow) : flow = .next := by
  cases f with
  | transferP | transferZ | ld1 | st1 => exact TransferResult.flow_outcome done
  | _ =>
    cases done
    rfl

/-- **Only a halt instruction halts.** -/
theorem flow_execute (done : execute f cond ops core = .done after flow) : flow = .halt ↔ f = .hlt := by
  by_cases vector : f.isVector = true
  · have other : f ≠ .hlt := by
      rintro rfl
      cases vector
    rw [Form.needsLength_of_isVector vector] at done
    split at done
    · rw [flow_executeVector done]
      exact iff_of_false Flow.noConfusion other
    · cases done
  · cases f with
    | hlt =>
      cases done
      exact iff_of_true rfl rfl
    | branchCond | compareBranch =>
      cases done
      refine iff_of_false ?_ Form.noConfusion
      split <;> exact Flow.noConfusion
    | transfer | transferScalar =>
      rw [TransferResult.flow_outcome done]
      exact iff_of_false Flow.noConfusion Form.noConfusion
    | moveWide | addSubImm | addSubShifted | logicalShifted | logicalImm | branch | ret | nop | readFlags | writeFlags
    | moveToScalar | moveFromScalar | moveElement =>
      cases done
      exact iff_of_false Flow.noConfusion Form.noConfusion
    | _ => exact absurd rfl vector

end Semantics

namespace Simulator

variable {sim after : Simulator} {ok : Bool}

/-- **What a step can do.** A program that has halted stays as it is. Otherwise the step fails, and an error is recorded, or
    the instruction at the program counter is executed within the budget, and the step succeeds. -/
inductive Stepped (sim : Simulator) : Simulator → Bool → Prop
  | rests (halted : sim.halted = true) : Stepped sim sim true
  | fails (running : sim.halted = false) (mem : Memory) (e : SimulationError) :
    Stepped sim { sim.withMemory mem with lastError := some e } false
  | executes (running : sim.halted = false) (budget : sim.count < sim.options.maxInstructions) {inst : Instruction} {f : Form}
    {core : Core} {flow : Flow} (current : sim.current? = some inst) (form : inst.form = some f)
    (done : Semantics.execute f inst.cond inst.ops sim.core = .done core flow) : Stepped sim (sim.advance core flow) true

/-- **Every step does one of these.** -/
theorem stepped (sim : Simulator) : sim.Stepped sim.step.sim sim.step.failure.isNone := by
  by_cases halted : sim.halted = true
  · rw [step_of_halted halted]
    exact .rests halted
  · have running : sim.halted = false := Bool.eq_false_iff.mpr halted
    cases current : sim.current? with
    | none =>
      obtain ⟨e, same, fails⟩ := step_of_refused running current
      rw [same, Option.isNone_eq_false_iff.mpr (Option.isSome_iff_ne_none.mpr fails)]
      exact .fails running sim.core.mem e
    | some inst =>
      obtain ⟨goes, -⟩ := Option.ite_none_left_eq_some.mp current
      have budget : sim.count < sim.options.maxInstructions := Nat.lt_of_not_le fun spent => goes (.inr spent)
      obtain ⟨w, f, form, step⟩ := step_of_current? current
      obtain ⟨same, fails⟩ := stepDecoded_sim sim w inst f
      rw [← Option.not_isSome, step, same, fails]
      unfold perform
      cases outcome : Semantics.execute f inst.cond inst.ops sim.core with
      | done core flow => exact .executes running budget current form outcome
      | fault why left =>
        rw [Semantics.core_of_fault outcome]
        exact .fails running left.mem _

namespace Stepped

/-- A step keeps the options. -/
theorem options (h : sim.Stepped after ok) : after.options = sim.options := by cases h <;> rfl

/-- **A successful step of a running program is counted**, and was within the budget. -/
theorem counted (h : sim.Stepped after true) (running : sim.halted = false) :
    after.count = sim.count + 1 ∧ sim.count < sim.options.maxInstructions := by
  cases h with
  | rests halted =>
    rw [running] at halted
    cases halted
  | executes _ budget => exact ⟨rfl, budget⟩

/-- **A step that fails** is not counted, does not halt, and leaves an error. -/
theorem failed (h : sim.Stepped after false) :
    after.count = sim.count ∧ after.halted = false ∧ ∃ e, after.lastError = some e := by
  cases h with
  | fails running mem e => exact ⟨rfl, running, e, rfl⟩

/-- **No step takes the count beyond the budget.** -/
theorem count_le (h : sim.Stepped after ok) : after.count ≤ max sim.count sim.options.maxInstructions := by
  cases h with
  | rests | fails => exact Nat.le_max_left ..
  | executes _ budget => exact Nat.le_trans budget (Nat.le_max_right ..)

/-- **Why a program halts**: it has executed a halt instruction, or its last instruction led to the address that halts. -/
theorem halted_iff (h : sim.Stepped after true) (running : sim.halted = false) : after.halted = true ↔
    (∃ inst, sim.current? = some inst ∧ inst.form = some .hlt) ∨ after.pc = haltAddress := by
  cases h with
  | rests halted =>
    rw [running] at halted
    cases halted
  | executes _ _ current form done =>
    rename_i inst f core flow
    have halts : (∃ i, sim.current? = some i ∧ i.form = some .hlt) ↔ flow = .halt := by
      rw [Semantics.flow_execute done]
      constructor
      · rintro ⟨i, found, halt⟩
        cases current.symm.trans found
        exact Option.some.inj (form.symm.trans halt)
      · rintro rfl
        exact ⟨inst, current, form⟩
    have flag : (sim.advance core flow).halted = (sim.halted || flow == .halt || sim.target flow == haltAddress) := rfl
    have place : (sim.advance core flow).pc = sim.target flow := rfl
    rw [halts, flag, place, running, Bool.false_or, Bool.or_eq_true, beq_iff_eq, beq_iff_eq]

end Stepped

/-! ## The loop -/

/-- **The loop of a run**, with the number of its successful steps: while the program runs it steps, until a step fails. -/
inductive Loops : Simulator → Nat → Simulator → Bool → Prop
  | halts {sim : Simulator} (halted : sim.halted = true) : Loops sim 0 sim true
  | stops {sim : Simulator} (running : sim.halted = false) (fails : sim.step.failure ≠ none) : Loops sim 0 sim.step.sim false
  | goesOn {sim after : Simulator} {n : Nat} {ok : Bool} (running : sim.halted = false) (succeeds : sim.step.failure = none)
    (rest : Loops sim.step.sim n after ok) : Loops sim (n + 1) after ok

variable {n n' : Nat} {after' : Simulator} {ok' : Bool}

/-- **The loop ends in one way.** -/
theorem Loops.unique (h : sim.Loops n after ok) (h' : sim.Loops n' after' ok') : n = n' ∧ after = after' ∧ ok = ok' := by
  induction h generalizing n' after' ok' with
  | halts halted =>
    cases h' with
    | halts => exact ⟨rfl, rfl, rfl⟩
    | stops running | goesOn running =>
      rw [halted] at running
      cases running
  | stops running fails =>
    cases h' with
    | halts halted =>
      rw [halted] at running
      cases running
    | stops => exact ⟨rfl, rfl, rfl⟩
    | goesOn _ succeeds => exact absurd succeeds fails
  | goesOn running succeeds _ ih =>
    cases h' with
    | halts halted =>
      rw [halted] at running
      cases running
    | stops _ fails => exact absurd succeeds fails
    | goesOn _ _ rest =>
      obtain ⟨rfl, same⟩ := ih rest
      exact ⟨rfl, same⟩

/-- **How the loop ends**: halted, or with an error. -/
theorem Loops.outcome (h : sim.Loops n after ok) :
    (ok = true ↔ after.halted = true) ∧ (ok = false → ∃ e, after.lastError = some e) := by
  induction h with
  | halts halted => exact ⟨iff_of_true rfl halted, Bool.noConfusion⟩
  | goesOn _ _ _ ih => exact ih
  | @stops sim running fails =>
    have step := sim.stepped
    rw [Option.isNone_eq_false_iff.mpr (Option.isSome_iff_ne_none.mpr fails)] at step
    obtain ⟨-, still, error⟩ := step.failed
    exact ⟨iff_of_false Bool.noConfusion (Bool.eq_false_iff.mp still), fun _ => error⟩

/-! ## Runs -/

/-- **Steps with enough fuel are the loop**: the budget that is left, and one more. -/
theorem runFor_loops {fuel : Nat} (enough : sim.fuel ≤ fuel) (earlier : List Log.Message) :
    ∃ n ≤ sim.options.maxInstructions - sim.count,
      sim.Loops n (runFor fuel sim earlier).sim (runFor fuel sim earlier).failure.isNone := by
  -- by the fuel, which is one more than the steps that the budget allows
  induction fuel generalizing sim earlier with
  | zero => exact absurd enough (Nat.not_succ_le_zero _)
  | succ fuel ih =>
    unfold runFor
    by_cases halted : sim.halted = true
    · rw [if_pos halted]
      exact ⟨0, Nat.zero_le _, .halts halted⟩
    · have running : sim.halted = false := Bool.eq_false_iff.mpr halted
      have step := sim.stepped
      rw [if_neg halted]
      dsimp only
      split
      · rename_i text failure
        exact ⟨0, Nat.zero_le _, .stops running (by rw [failure]; exact Option.some_ne_none _)⟩
      · rename_i succeeds
        rw [succeeds] at step
        obtain ⟨count, budget⟩ := step.counted running
        have less : sim.step.sim.options.maxInstructions - sim.step.sim.count + 1 =
            sim.options.maxInstructions - sim.count := by
          rw [step.options, count]
          omega
        have enough : sim.step.sim.fuel ≤ fuel := by
          unfold Simulator.fuel at enough ⊢
          omega
        obtain ⟨n, within, loops⟩ := ih enough (sim.step.messages.reverse ++ earlier)
        exact ⟨n + 1, by omega, .goesOn running succeeds loops⟩

/-- **A run is the loop**, which ends within the budget. -/
theorem run_loops (sim : Simulator) :
    ∃ n ≤ sim.options.maxInstructions - sim.count, sim.Loops n sim.run.sim sim.run.failure.isNone :=
  runFor_loops (Nat.le_refl _) []

/-- Any number of steps keeps the count within the budget. -/
theorem count_iterate_le (sim : Simulator) (k : Nat) :
    ((fun s : Simulator => s.step.sim)^[k] sim).count ≤ max sim.count sim.options.maxInstructions := by
  induction k generalizing sim with
  | zero => exact Nat.le_max_left ..
  | succ k ih =>
    have later := ih sim.step.sim
    rw [sim.stepped.options] at later
    have now := sim.stepped.count_le
    rw [Function.iterate_succ_apply]
    omega

/-- **Every run ends within its budget.** The loop of a run ends in one way, after at most as many successful steps as the
    budget leaves; the run succeeds exactly if it ends halted, and otherwise leaves an error. A successful step of a program
    that has not halted adds one to the count, and halts exactly if it executes a halt instruction or leads to the address
    that halts; a step that fails adds nothing. No number of steps takes the count beyond the budget, unless it was beyond it
    before. A program that has halted stays as it is. -/
theorem run_bounded (sim : Simulator) :
    (∃ n ≤ sim.options.maxInstructions - sim.count, ∀ n' after ok, sim.Loops n' after ok ↔
      n' = n ∧ after = sim.run.sim ∧ ok = sim.run.failure.isNone) ∧
      (sim.run.failure = none ↔ sim.run.sim.halted = true) ∧
      (sim.run.failure ≠ none → ∃ e, sim.run.sim.lastError = some e) ∧
      (sim.halted = false → sim.step.failure = none → sim.step.sim.count = sim.count + 1 ∧
        (sim.step.sim.halted = true ↔
          (∃ inst, sim.current? = some inst ∧ inst.form = some .hlt) ∨ sim.step.sim.pc = haltAddress)) ∧
      (sim.step.failure ≠ none → sim.step.sim.count = sim.count) ∧
      (∀ k, ((fun s : Simulator => s.step.sim)^[k] sim).count ≤ max sim.count sim.options.maxInstructions) ∧
      (sim.halted = true → sim.step = ⟨sim, [], none⟩) := by
  obtain ⟨n, within, loops⟩ := sim.run_loops
  obtain ⟨halts, fails⟩ := loops.outcome
  have step := sim.stepped
  refine ⟨⟨n, within, fun n' after ok => ⟨fun other => other.unique loops, ?_⟩⟩, ?_, ?_, ?_, ?_, sim.count_iterate_le,
    step_of_halted⟩
  · rintro ⟨rfl, rfl, rfl⟩
    exact loops
  · rw [← halts, Option.isNone_iff_eq_none]
  · intro failure
    exact fails (Option.isNone_eq_false_iff.mpr (Option.isSome_iff_ne_none.mpr failure))
  · intro running succeeds
    rw [succeeds] at step
    exact ⟨(step.counted running).1, step.halted_iff running⟩
  · intro failure
    rw [Option.isNone_eq_false_iff.mpr (Option.isSome_iff_ne_none.mpr failure)] at step
    exact step.failed.1

/-- A program that jumps to itself: its steps succeed until the budget of three is used up, and then fail. -/
theorem run_bounded_jump :
    let mem : Memory := ⟨[⟨0, 4, .ofList (bytesOf 4 (0x14000000 : Word))⟩]⟩
    let sim : Simulator := ⟨⟨128, 3, 0, false⟩, ⟨.zero (VectorLength.ofBits? 128), mem⟩, 0, false, none⟩
    let spent : Simulator := { sim with count := 3 }
    let ended : Simulator := { sim with halted := true }
    (sim.step.failure = none ∧ sim.step.sim.count = 1) ∧ (spent.step.failure ≠ none ∧ spent.step.sim.count = 3) ∧
      ended.step = ⟨ended, [], none⟩ ∧ sim.run.sim.halted = false ∧ ∃ e, sim.run.sim.lastError = some e := by
  intro mem sim spent ended
  have succeeds : sim.step.failure = none := by decide +kernel
  have refused : spent.step.failure ≠ none := by decide +kernel
  have fails : sim.run.failure ≠ none := by decide +kernel
  obtain ⟨-, halts, error, counted, -⟩ := run_bounded sim
  obtain ⟨-, -, -, -, uncounted, -⟩ := run_bounded spent
  obtain ⟨-, -, -, -, -, -, rests⟩ := run_bounded ended
  exact ⟨⟨succeeds, (counted rfl succeeds).1⟩, ⟨refused, uncounted refused⟩, rests rfl,
    Bool.eq_false_iff.mpr fun halted => fails (halts.mpr halted), error fails⟩

end Simulator

end ArmToolkit.A64
