import ArmToolkit.Proofs.StraightLine

/-!
# `Proofs.ProgramRuns` — programs in memory, run to their end or to the end of the budget

## Contents
- **Steps.** `Simulator.Moves` is one step that does not fail, and `Simulator.Steps` counts them. Neither looks at the
  budget.
- **Runs.** A run whose steps are within the budget goes on behind them (`Simulator.Steps.runFor`), so a program that
  halts is run to its end (`Simulator.run_halts`), or fails where the budget ends (`Simulator.run_exceeds`).
- **Programs in memory.** `Memory.Holds`: the words of a program can be fetched one after the other. A program that is
  loaded is in memory (`Simulator.load_holds`).
- **Straight lines in memory.** Straight-line words that are in memory are so many steps (`Simulator.Straight.steps`).
-/

namespace ArmToolkit.A64

namespace Simulator

variable {sim mid after : Simulator}

/-! ## Steps -/

/-- An instruction that is executed is counted, and the options stay. -/
theorem executeWord?_count {w : Word} (h : sim.executeWord? w = some after) :
    after.count = sim.count + 1 ∧ after.options = sim.options := by
  unfold executeWord? at h
  cases decoded : Instruction.decode w with
  | error why =>
    rw [decoded] at h
    cases h
  | ok inst =>
    obtain ⟨f, _, _, -, form⟩ := Instruction.decode_eq_ok_iff.mp decoded
    have form : inst.form = some f := by rw [form]
    obtain ⟨executed, fails⟩ := execute_sim sim inst form
    rw [decoded] at h
    obtain ⟨succeeds, same⟩ := Option.ite_none_left_eq_some.mp h
    cases same
    rw [fails] at succeeds
    rw [executed]
    unfold perform at succeeds ⊢
    cases outcome : Semantics.execute f inst.cond inst.ops sim.core with
    | done core flow => exact ⟨rfl, rfl⟩
    | fault why mem =>
      rw [outcome] at succeeds
      exact absurd rfl succeeds

/-- **A step that does not fail**: the program has not halted, and the word at the program counter is executed. -/
structure Moves (sim after : Simulator) : Prop where
  running : sim.halted = false
  executed : ∃ w, sim.core.mem.load? sim.pc instructionSize = some w ∧ sim.executeWord? w = some after

/-- **So many steps that do not fail.** -/
inductive Steps : Simulator → Nat → Simulator → Prop
  | refl (sim : Simulator) : Steps sim 0 sim
  | head {sim mid after : Simulator} {n : Nat} (first : Moves sim mid) (rest : Steps mid n after) : Steps sim (n + 1) after

variable {n m : Nat}

theorem Moves.count (h : Moves sim after) : after.count = sim.count + 1 ∧ after.options = sim.options := by
  obtain ⟨w, -, executed⟩ := h.executed
  exact executeWord?_count executed

theorem Moves.step (h : Moves sim after) (budget : sim.count < sim.options.maxInstructions) :
    sim.step.sim = after ∧ sim.step.failure = none := by
  obtain ⟨w, fetched, executed⟩ := h.executed
  exact step_of_executeWord? h.running budget fetched executed

/-- **An instruction at the program counter** that can be executed is a step. -/
theorem Moves.of_encodes {f : Form} {cond : Condition} {ops : List Operand} {core : Core} {flow : Flow}
    (running : sim.halted = false)
    (fetched : sim.core.mem.load? sim.pc instructionSize = some (Instruction.word f cond ops))
    (encodes : Instruction.Encodes f cond ops) (shaped : ∀ op ∈ ops, op.Shaped)
    (done : Semantics.execute f cond ops sim.core = .done core flow) : Moves sim (sim.advance core flow) :=
  ⟨running, _, fetched, executeWord?_of_encodes encodes shaped done⟩

/-- A program goes on where an instruction neither halts it nor reaches the address that halts it. -/
theorem advance_running {core : Core} {flow : Flow} (running : sim.halted = false) (continues : flow ≠ .halt)
    (apart : sim.target flow ≠ haltAddress) : (sim.advance core flow).halted = false := by
  show (sim.halted || flow == .halt || sim.target flow == haltAddress) = false
  rw [running, beq_eq_false_iff_ne.mpr continues, beq_eq_false_iff_ne.mpr apart]
  rfl

theorem Moves.steps (h : Moves sim after) : Steps sim 1 after := .head h (.refl after)

theorem Steps.trans (first : Steps sim n mid) (second : Steps mid m after) : Steps sim (n + m) after := by
  induction first with
  | refl sim =>
    rw [Nat.zero_add]
    exact second
  | head first _ ih =>
    rw [Nat.succ_add]
    exact .head first (ih second)

/-- Every step is counted. -/
theorem Steps.count (h : Steps sim n after) : after.count = sim.count + n ∧ after.options = sim.options := by
  induction h with
  | refl sim => exact ⟨rfl, rfl⟩
  | head first _ ih =>
    obtain ⟨count, options⟩ := first.count
    rw [ih.1, ih.2, count, options]
    exact ⟨by omega, rfl⟩

/-- Before the last of some steps the program has not halted. -/
theorem Steps.split (h : Steps sim (n + (m + 1)) after) :
    ∃ mid, Steps sim n mid ∧ mid.halted = false := by
  induction n generalizing sim with
  | zero =>
    rw [Nat.zero_add] at h
    cases h with
    | head first _ => exact ⟨sim, .refl sim, first.running⟩
  | succ n ih =>
    rw [Nat.succ_add] at h
    cases h with
    | head first rest =>
      obtain ⟨mid, steps, running⟩ := ih rest
      exact ⟨mid, .head first steps, running⟩

/-! ## Runs -/

/-- **A run whose steps are within the budget** goes on behind them. -/
theorem Steps.runFor (h : Steps sim n after) (budget : sim.count + n ≤ sim.options.maxInstructions) (fuel : Nat)
    (earlier : List Log.Message) : ∃ messages, runFor (fuel + n) sim earlier = Simulator.runFor fuel after messages := by
  induction h generalizing earlier with
  | refl sim => exact ⟨earlier, rfl⟩
  | head first rest ih =>
    rename_i sim mid after n
    obtain ⟨count, options⟩ := first.count
    obtain ⟨stepped, succeeds⟩ := first.step (by omega)
    obtain ⟨messages, same⟩ := ih (by rw [count, options]; omega) (sim.step.messages.reverse ++ earlier)
    refine ⟨messages, ?_⟩
    rw [← Nat.add_assoc, Simulator.runFor, if_neg (by rw [first.running]; decide)]
    simp only [succeeds, stepped]
    exact same

/-- **A program that halts within the budget** is run to its end. -/
theorem run_halts (h : Steps sim n after) (halted : after.halted = true)
    (budget : sim.count + n ≤ sim.options.maxInstructions) : sim.run.sim = after ∧ sim.run.failure = none := by
  obtain ⟨messages, same⟩ := h.runFor budget (sim.options.maxInstructions - sim.count - n + 1) []
  have steps : sim.fuel = sim.options.maxInstructions - sim.count - n + 1 + n := by
    unfold fuel
    omega
  unfold run
  rw [steps, same, runFor, if_pos halted]
  exact ⟨rfl, rfl⟩

/-- **A program that needs more steps than the budget leaves** fails with the limit once they are used up. -/
theorem run_exceeds (h : Steps sim n after) (start : sim.count ≤ sim.options.maxInstructions)
    (exceeds : sim.options.maxInstructions < sim.count + n) :
    sim.run.sim.count = sim.options.maxInstructions ∧
      sim.run.sim.lastError = some (.limit sim.options.maxInstructions) ∧
      ∃ text, sim.run.failure = some ("InstructionLimit" ++ text) := by
  obtain ⟨left, leaves⟩ : ∃ left, sim.options.maxInstructions = sim.count + left := Nat.exists_eq_add_of_le start
  obtain ⟨more, rfl⟩ : ∃ more, n = left + (more + 1) := ⟨n - left - 1, by omega⟩
  obtain ⟨mid, steps, running⟩ := h.split
  obtain ⟨count, options⟩ := steps.count
  obtain ⟨messages, same⟩ := steps.runFor (by omega) 1 []
  have fuel : sim.fuel = 1 + left := by
    unfold fuel
    omega
  have used : mid.options.maxInstructions ≤ mid.count := by rw [options, count, leaves]
  have fails : mid.step = mid.failed (.limit sim.options.maxInstructions) 0 noText := by
    rw [step, if_neg (by rw [running]; decide), if_pos used, options]
  unfold run
  rw [fuel, same, runFor, if_neg (by rw [running]; decide), fails]
  refine ⟨by rw [leaves]; exact count, rfl, ?_⟩
  show ∃ text, some ((SimulationError.limit sim.options.maxInstructions).kind ++ _ ++ _ ++ _ ++ _ ++ _ ++ _ ++ _ ++ _) = _
  rw [show (SimulationError.limit sim.options.maxInstructions).kind = "InstructionLimit" from rfl]
  simp only [String.append_assoc]
  exact ⟨_, rfl⟩

end Simulator

/-! ## Programs in memory -/

/-- **The bytes of a row that was put at its start.** -/
theorem SparseBytes.slice_ofList (bs : List Text.Byte) {i n : Nat} (h : i + n ≤ bs.length) :
    (ofList bs).slice i n = (bs.drop i).take n := by
  apply List.ext_getElem
  · simp [slice]
    omega
  · intro k hk hk'
    have inside : k < n := by simpa [slice] using hk
    have place : i + k < bs.length := by omega
    simp [slice, ofList, get_put, place]

namespace Simulator

theorem length_codeBytes (code : List Word) : (codeBytes code).length = 4 * code.length := by
  induction code with
  | nil => rfl
  | cons w code ih =>
    have step : codeBytes (w :: code) = bytesOf 4 w ++ codeBytes code := List.flatMap_cons
    rw [step, List.length_append, length_bytesOf, ih, List.length_cons]
    omega

/-- The bytes of one word of a program. -/
theorem codeBytes_word {code : List Word} {i : Nat} {w : Word} (h : code[i]? = some w) :
    ((codeBytes code).drop (4 * i)).take 4 = bytesOf 4 w := by
  induction code generalizing i with
  | nil => cases h
  | cons v code ih =>
    have step : codeBytes (v :: code) = bytesOf 4 v ++ codeBytes code := List.flatMap_cons
    have four : (bytesOf 4 v).length = 4 := length_bytesOf 4 v
    rw [step]
    cases i with
    | zero =>
      obtain rfl : v = w := Option.some.inj h
      exact List.take_left' four
    | succ i =>
      rw [show 4 * (i + 1) = (bytesOf 4 v).length + 4 * i by omega, List.drop_length_add_append]
      exact ih h

end Simulator

/-- **The words of a program can be fetched** one after the other from an address on. -/
def Memory.Holds (mem : Memory) (address : BitVec 64) (ws : List Word) : Prop :=
  ∀ (i : Nat) (w : Word), ws[i]? = some w →
    mem.load? (address + BitVec.ofNat 64 (4 * i)) Simulator.instructionSize = some w

namespace Memory

variable {mem : Memory} {address : BitVec 64} {ws ws' : List Word}

theorem Holds.left (h : mem.Holds address (ws ++ ws')) : mem.Holds address ws := by
  intro i w place
  have inside : i < ws.length := (List.getElem?_eq_some_iff.mp place).1
  exact h i w (by rw [List.getElem?_append_left inside, place])

theorem Holds.right (h : mem.Holds address (ws ++ ws')) :
    mem.Holds (address + BitVec.ofNat 64 (4 * ws.length)) ws' := by
  intro i w place
  have whole : (ws ++ ws')[ws.length + i]? = some w := by
    rw [List.getElem?_append_right (Nat.le_add_right _ _), Nat.add_sub_cancel_left, place]
  have there := h _ w whole
  rw [Nat.mul_add, BitVec.ofNat_add, ← BitVec.add_assoc] at there
  exact there

end Memory

namespace Simulator

/-- The region of a program. -/
def programRegion (address : BitVec 64) (code : List Word) : Region :=
  ⟨address.toNat, (codeBytes code).length, .ofList (codeBytes code)⟩

/-- **The region of a program holds it**, if it is the first one. -/
theorem holds_programRegion {code : List Word} {address : BitVec 64}
    (fits : address.toNat + 4 * code.length < Memory.addressLimit) (others : List Region) :
    (⟨programRegion address code :: others⟩ : Memory).Holds address code := by
  intro i w place
  have inside : i < code.length := (List.getElem?_eq_some_iff.mp place).1
  have fits : address.toNat + 4 * code.length < 2 ^ 64 := fits
  have size : (programRegion address code).limit = address.toNat + 4 * code.length :=
    congrArg (address.toNat + ·) (length_codeBytes code)
  -- the sum does not wrap, since the program ends inside the address space
  have place' : (address + BitVec.ofNat 64 (4 * i)).toNat = address.toNat + 4 * i := by
    rw [BitVec.toNat_add, BitVec.toNat_ofNat]
    omega
  have contains : (programRegion address code).contains (address + BitVec.ofNat 64 (4 * i)).toNat 4 = true := by
    unfold Region.contains
    rw [decide_eq_true_eq, place', size]
    show address.toNat ≤ _ ∧ _
    omega
  have bytes : (programRegion address code).slice (address + BitVec.ofNat 64 (4 * i)).toNat 4 = bytesOf 4 w := by
    have whole := length_codeBytes code
    unfold Region.slice programRegion
    rw [place', Nat.add_sub_cancel_left, SparseBytes.slice_ofList _ (by omega), codeBytes_word place]
  have read : (⟨programRegion address code :: others⟩ : Memory).read? (address + BitVec.ofNat 64 (4 * i)) 4 =
      some (bytesOf 4 w) := by
    unfold Memory.read?
    rw [List.find?_cons, contains]
    exact congrArg some bytes
  exact (congrArg (Option.map (ofBytes 32)) read).trans (congrArg some (ofBytes_bytesOf 4 w))

/-- **A program that lies below the data region is loaded**: it is in memory, and the registers are those of a start. -/
theorem load_holds (sim : Simulator) {code : List Word} {address : BitVec 64} (aligned : address.toNat % 4 = 0)
    (nonempty : code ≠ []) (below : address.toNat + 4 * code.length ≤ dataAddress.toNat)
    (data : 0 < sim.options.memorySize) (bounded : dataAddress.toNat + sim.options.memorySize < Memory.addressLimit) :
    ∃ mem messages, mem.Holds address code ∧
      sim.load code address = ({ sim.cleared with core := ⟨sim.cleared.startRegisters address, mem⟩ }, messages, none) := by
  have words : 0 < code.length := List.length_pos_iff.mpr nonempty
  have size := length_codeBytes code
  have first : sim.cleared.core.mem.map? address (codeBytes code) = .ok ⟨[programRegion address code]⟩ := by
    unfold Memory.map? Memory.obstacle?
    dsimp only
    rw [if_neg (by omega)]
    rfl
  have apart : (programRegion address code).meets dataAddress.toNat (dataAddress.toNat + sim.options.memorySize) = false := by
    unfold Region.meets
    rw [decide_eq_false_iff_not]
    show ¬ (dataAddress.toNat < address.toNat + (codeBytes code).length ∧ _)
    omega
  have second : (⟨[programRegion address code]⟩ : Memory).mapZeros? dataAddress sim.options.memorySize =
      .ok ⟨[programRegion address code, ⟨dataAddress.toNat, sim.options.memorySize, .zeros⟩]⟩ := by
    unfold Memory.mapZeros? Memory.obstacle?
    dsimp only
    rw [if_neg (by omega), List.find?_cons, apart]
    rfl
  refine ⟨_, (sim.load code address).2.1,
    holds_programRegion (by omega) [⟨dataAddress.toNat, sim.options.memorySize, .zeros⟩], ?_⟩
  unfold load
  dsimp only
  rw [if_neg (by show ¬ address.toNat % 4 ≠ 0; omega), first]
  dsimp only
  rw [show sim.cleared.options.memorySize = sim.options.memorySize from rfl, second]

/-! ## Straight lines in memory -/

variable {sim after : Simulator}

/-- **Straight-line words that are in memory** are so many steps, if they end below the address that halts. -/
theorem Straight.steps {ws : List Word} (straight : sim.Straight ws after) (running : sim.halted = false)
    (held : sim.core.mem.Holds sim.pc ws) (below : sim.pc.toNat + 4 * ws.length < haltAddress.toNat) :
    sim.Steps ws.length after ∧ after.halted = false ∧ after.pc = sim.pc + BitVec.ofNat 64 (4 * ws.length) ∧
      after.core.mem = sim.core.mem := by
  -- by the words that are left: each is fetched where the program counter has come to
  induction straight with
  | nil sim =>
    refine ⟨.refl sim, running, ?_, rfl⟩
    simp
  | cons regs first rest ih =>
    rename_i sim after w ws
    rw [List.length_cons] at below ⊢
    have fits : haltAddress.toNat < 2 ^ 64 := haltAddress.isLt
    have next : sim.nextPc.toNat = sim.pc.toNat + 4 := by
      unfold nextPc
      rw [BitVec.toNat_add, show (BitVec.ofNat 64 instructionSize).toNat = 4 from rfl]
      omega
    have goesOn : (sim.advance { sim.core with regs } .next).halted = false := by
      refine advance_running running Flow.noConfusion ?_
      intro same
      rw [show sim.nextPc = haltAddress from same] at next
      omega
    have fetched : sim.core.mem.load? sim.pc instructionSize = some w := by
      have there := held 0 w rfl
      rw [Nat.mul_zero, BitVec.add_zero] at there
      exact there
    have rest' : sim.core.mem.Holds sim.nextPc ws := @Memory.Holds.right _ _ [w] ws held
    obtain ⟨steps, running', pc, mem⟩ := ih goesOn rest' (by show sim.nextPc.toNat + _ < _; omega)
    refine ⟨.head ⟨running, w, fetched, first⟩ steps, running', ?_, mem⟩
    rw [pc, Nat.mul_add, Nat.add_comm (4 * ws.length), BitVec.ofNat_add, ← BitVec.add_assoc]
    rfl

end Simulator

end ArmToolkit.A64
