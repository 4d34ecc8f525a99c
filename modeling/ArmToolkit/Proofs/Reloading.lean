import ArmToolkit.Proofs.Frames
import ArmToolkit.Proofs.ProgramRuns
import ArmToolkit.Proofs.Reachable

/-!
# `Proofs.Reloading` — a simulator that loads a program is as good as a new one

Loading keeps the options and the vector length, and nothing else. These are also what no call changes, so what a
simulator has done before it loads a program cannot be told from what it does afterwards.

## Contents
- **Calls.** `Simulator.Call` is what can be asked of a simulator, `Simulator.reports` what it answers.
- **Setups.** `Simulator.SameSetup`: the same options and vector length. Every call keeps them (`Simulator.setup_call`), so
  calls in a row do (`Simulator.setup_after`), and loading depends on nothing else (`Simulator.SameSetup.load_eq`).
- **Programs that can be loaded.** `Simulator.Loadable` is where they are, and `Simulator.load_eq_none_iff` says that these
  are the ones.
-/

namespace ArmToolkit.A64

open Text Log

namespace Simulator

/-! ## Calls -/

/-- **What can be asked of a simulator.** -/
inductive Call
  | load (code : List Word) (address : BitVec 64)
  | step
  | run
  | execute (inst : Instruction)

/-- **What a simulator answers**: what it is afterwards, its messages, and the failure, if it fails. -/
def call (sim : Simulator) : Call → Report
  | .load code address =>
    let (after, messages, error) := sim.load code address
    ⟨after, messages, error.map LoadError.message⟩
  | .step => sim.step
  | .run => sim.run
  | .execute inst => sim.execute inst

/-- The simulator after calls, whether they fail or not. -/
def after (sim : Simulator) (calls : List Call) : Simulator := calls.foldl (fun sim c => (sim.call c).sim) sim

/-- **The answers to calls**, one after the other. -/
def reports (sim : Simulator) : List Call → List Report
  | [] => []
  | c :: calls => sim.call c :: (sim.call c).sim.reports calls

/-! ## Setups -/

/-- **Two simulators that are set up alike**: everything else may differ. -/
structure SameSetup (sim other : Simulator) : Prop where
  options : sim.options = other.options
  length : sim.core.regs.vl = other.core.regs.vl

namespace SameSetup

variable {sim mid other : Simulator}

theorem refl (sim : Simulator) : sim.SameSetup sim := ⟨rfl, rfl⟩

theorem symm (h : sim.SameSetup other) : other.SameSetup sim := ⟨h.options.symm, h.length.symm⟩

theorem trans (h : sim.SameSetup mid) (h' : mid.SameSetup other) : sim.SameSetup other :=
  ⟨h.options.trans h'.options, h.length.trans h'.length⟩

/-- What is cleared when a program is loaded is all that simulators of one setup can differ in. -/
theorem cleared_eq (h : sim.SameSetup other) : sim.cleared = other.cleared := by
  unfold cleared Registers.reset
  rw [h.options, h.length]

/-- **Loading depends on the setup alone.** -/
theorem load_eq (h : sim.SameSetup other) (code : List Word) (address : BitVec 64) :
    sim.load code address = other.load code address := by
  unfold load
  rw [h.cleared_eq]

end SameSetup

variable (sim : Simulator)

/-- An instruction keeps the setup while it is performed, whether it succeeds or not. -/
theorem setup_perform (f : Form) (inst : Instruction) : (sim.perform f inst).1.SameSetup sim := by
  unfold perform
  split
  · rename_i core flow done
    exact ⟨rfl, (Semantics.frame_execute done).vl⟩
  · rename_i why left faults
    exact ⟨rfl, congrArg Registers.vl (Semantics.regs_of_fault faults)⟩

/-- An instruction that a host gives keeps the setup. -/
theorem setup_execute (inst : Instruction) : (sim.execute inst).sim.SameSetup sim := by
  cases form : inst.form with
  | none =>
    unfold execute
    rw [form]
    exact .refl sim
  | some f =>
    rw [(execute_sim sim inst form).1]
    exact setup_perform sim f inst

/-- A step keeps the setup. -/
theorem setup_step : sim.step.sim.SameSetup sim := by
  cases current : sim.current? with
  | none =>
    rcases step_of_idle current with ⟨same, -⟩ | ⟨e, same, -⟩
    · rw [same]
      exact .refl sim
    · rw [same]
      exact ⟨rfl, rfl⟩
  | some inst =>
    obtain ⟨w, f, -, step⟩ := step_of_current? current
    rw [step, (stepDecoded_sim sim w inst f).1]
    exact setup_perform sim f inst

/-- A run of steps keeps the setup. -/
theorem setup_runFor (fuel : Nat) (earlier : List Message) : (runFor fuel sim earlier).sim.SameSetup sim := by
  induction fuel generalizing sim earlier with
  | zero => exact .refl sim
  | succ fuel ih =>
    unfold runFor
    split
    · exact .refl sim
    · dsimp only
      split
      · exact setup_step sim
      · exact (ih _ _).trans (setup_step sim)

/-- Loading keeps the setup, also where it fails. -/
theorem setup_load (code : List Word) (address : BitVec 64) : (sim.load code address).1.SameSetup sim := by
  unfold load
  dsimp only
  split
  · exact ⟨rfl, rfl⟩
  · split
    · exact ⟨rfl, rfl⟩
    · split <;> exact ⟨rfl, rfl⟩

/-- **Every call keeps the setup.** -/
theorem setup_call (c : Call) : (sim.call c).sim.SameSetup sim := by
  cases c with
  | load code address => exact setup_load sim code address
  | step => exact setup_step sim
  | run => exact setup_runFor sim _ _
  | execute inst => exact setup_execute sim inst

/-- **So calls in a row keep it.** -/
theorem setup_after (calls : List Call) : (sim.after calls).SameSetup sim := by
  induction calls generalizing sim with
  | nil => exact .refl sim
  | cons c calls ih => exact (ih _).trans (setup_call sim c)

/-! ## Programs that can be loaded -/

/-- **Where a program can be loaded**: at an address that a program counter can have, where all of the program fits below the
    last address, with some data, and no byte of the program is one of the data. -/
structure Loadable (size : Nat) (code : List Word) (address : BitVec 64) : Prop where
  aligned : 4 ∣ address.toNat
  words : code ≠ []
  fits : address.toNat + 4 * code.length ≤ 2 ^ 64 - 1
  data : size ≠ 0
  apart : ∀ x, address.toNat ≤ x → x < address.toNat + 4 * code.length →
    ¬ (dataAddress.toNat ≤ x ∧ x < dataAddress.toNat + size)

/-- Nothing stands in the way of a program that has words and ends below the last address. -/
theorem obstacle?_program {code : List Word} {address : BitVec 64} :
    Memory.empty.obstacle? address (codeBytes code).length = none ↔
      code ≠ [] ∧ address.toNat + 4 * code.length ≤ 2 ^ 64 - 1 := by
  have limit : Memory.addressLimit = 2 ^ 64 := rfl
  rw [Memory.obstacle?_eq_none_iff, length_codeBytes, ← List.length_pos_iff]
  constructor
  · rintro ⟨words, fits, -⟩
    omega
  · rintro ⟨words, fits⟩
    exact ⟨by omega, by omega, nofun⟩

/-- **Nothing stands in the way of data** of a 32-bit size but the bytes of the program. -/
theorem obstacle?_data {code : List Word} {address : BitVec 64} (words : code ≠ []) {size : Nat}
    (small : size < twoPow 32) :
    (Memory.empty.add (programRegion address code)).obstacle? dataAddress size = none ↔
      size ≠ 0 ∧ ∀ x, address.toNat ≤ x → x < address.toNat + 4 * code.length →
        ¬ (dataAddress.toNat ≤ x ∧ x < dataAddress.toNat + size) := by
  have limit : Memory.addressLimit = 2 ^ 64 := rfl
  have data : dataAddress.toNat = 0x1000000 := rfl
  have bound : size < 4294967296 := small
  have words := List.length_pos_iff.mpr words
  have place : (programRegion address code).limit = address.toNat + 4 * code.length :=
    congrArg (address.toNat + ·) (length_codeBytes code)
  have alone : (∀ r ∈ (Memory.empty.add (programRegion address code)).regions,
      r.meets dataAddress.toNat (dataAddress.toNat + size) = false) ↔
        ¬ (dataAddress.toNat < address.toNat + 4 * code.length ∧ address.toNat < dataAddress.toNat + size) := by
    show (∀ r ∈ [programRegion address code], _) ↔ _
    rw [List.forall_mem_singleton, Region.meets, decide_eq_false_iff_not, place]
    rfl
  rw [Memory.obstacle?_eq_none_iff, alone]
  constructor
  · rintro ⟨positive, -, apart⟩
    refine ⟨by omega, fun x above below inside => apart ?_⟩
    omega
  · rintro ⟨positive, apart⟩
    refine ⟨by omega, by omega, fun meet => ?_⟩
    -- the later of the two starts is in both
    exact apart (max address.toNat dataAddress.toNat) (by omega) (by omega) ⟨by omega, by omega⟩

/-- **A program is loaded exactly where it can be.** -/
theorem load_eq_none_iff (small : sim.options.memorySize < twoPow 32) (code : List Word) (address : BitVec 64) :
    (sim.load code address).2.2 = none ↔ Loadable sim.options.memorySize code address := by
  have empty : sim.cleared.core.mem = Memory.empty := rfl
  have size : sim.cleared.options.memorySize = sim.options.memorySize := rfl
  unfold load
  dsimp only
  rw [empty, size]
  -- the checks in their order: the address, the region of the code, and then that of the data
  by_cases aligned : address.toNat % instructionSize = 0
  · rw [if_neg (not_not.mpr aligned), Memory.map?]
    cases first : Memory.empty.obstacle? address (codeBytes code).length with
    | some e =>
      refine ⟨nofun, fun loadable => ?_⟩
      rw [obstacle?_program.mpr ⟨loadable.words, loadable.fits⟩] at first
      cases first
    | none =>
      obtain ⟨words, fits⟩ := obstacle?_program.mp first
      have region : (⟨address.toNat, (codeBytes code).length, .ofList (codeBytes code)⟩ : Region) =
        programRegion address code := rfl
      dsimp only
      rw [region, Memory.mapZeros?]
      cases second : (Memory.empty.add (programRegion address code)).obstacle? dataAddress sim.options.memorySize with
      | some e =>
        refine ⟨nofun, fun loadable => ?_⟩
        rw [(obstacle?_data words small).mpr ⟨loadable.data, loadable.apart⟩] at second
        cases second
      | none =>
        obtain ⟨data, apart⟩ := (obstacle?_data words small).mp second
        exact ⟨fun _ => ⟨Nat.dvd_of_mod_eq_zero aligned, words, fits, data, apart⟩, fun _ => rfl⟩
  · rw [if_pos aligned]
    exact ⟨nofun, fun loadable => absurd (Nat.mod_eq_zero_of_dvd loadable.aligned) aligned⟩

/-- **A simulator can be reused.** Whatever two simulators of one setup are and have done, they answer alike when they load a
    program, and after that to all further calls: their registers, memories, counts and last errors are the same, and so are
    their messages and failures. A program is loaded exactly where it can be, if the size of the data has 32 bits. -/
theorem reports_reload :
    (∀ sim other : Simulator, sim.SameSetup other → ∀ earlier earlier' code address calls,
      (sim.after earlier).reports (.load code address :: calls) =
        (other.after earlier').reports (.load code address :: calls)) ∧
    ∀ (sim : Simulator) code address, sim.options.memorySize < twoPow 32 →
      ((sim.call (.load code address)).failure = none ↔ Loadable sim.options.memorySize code address) := by
  refine ⟨fun sim other h earlier earlier' code address calls => ?_, fun sim code address small => ?_⟩
  · -- what the two have done has not changed their setups
    have setup := ((setup_after sim earlier).trans h).trans (setup_after other earlier').symm
    have loaded : (sim.after earlier).call (.load code address) = (other.after earlier').call (.load code address) := by
      simp only [call, setup.load_eq code address]
    rw [reports, reports, loaded]
  · rw [← load_eq_none_iff sim small]
    exact Option.map_eq_none_iff

/-- A simulator that has halted with an error after seven instructions, with its flags set, and a new one: a program of one
    word is loaded into both, and a run of it answers the same. -/
theorem reports_reload_halted :
    let options : SimulatorOptions := ⟨256, 10, 4096, false⟩
    let fresh := (create options).1
    let used : Simulator := ⟨options, ⟨{ fresh.core.regs with flags := .ofWord 0xf0000000 }, .empty⟩, 7, true, some (.limit 7)⟩
    fresh.SameSetup used ∧ options.memorySize < twoPow 32 ∧
      fresh.reports [.load [0xd4400000] codeAddress, .run] = used.reports [.load [0xd4400000] codeAddress, .run] ∧
      (used.call (.load [0xd4400000] codeAddress)).failure = none := by
  intro options fresh used
  have setup : fresh.SameSetup used := ⟨rfl, rfl⟩
  have small : options.memorySize < twoPow 32 := by decide
  have loadable : Loadable options.memorySize [0xd4400000] codeAddress :=
    ⟨by decide, by decide, by decide, by decide, fun x _ below inside => by
      have code : codeAddress.toNat = 0x10000 := rfl
      have data : dataAddress.toNat = 0x1000000 := rfl
      simp only [List.length_singleton] at below
      omega⟩
  exact ⟨setup, small, reports_reload.1 fresh used setup [] [] _ _ _, (reports_reload.2 used _ _ small).mpr loadable⟩

end Simulator

end ArmToolkit.A64
