import ArmToolkit.Proofs.Labels
import ArmToolkit.Proofs.LaneWrites
import ArmToolkit.Proofs.ProgramRuns
import ArmToolkit.Runner.SelfTest

/-!
# `Proofs.SelfTest` — the self test passes exactly within its budget

The loop is run three steps an iteration, and `Progress` is what every iteration preserves: the sums are what they have
to be after so many iterations, and the counter holds what is left. The budget is left aside until the end, where the
run of the whole program is compared with it.

## Contents
- **Instructions.** The instructions of the program are encoded.
- **The program.** Its words: the start, the moves of the counter, and the loop (`selfTestProgram_eq`).
- **Iterations.** `Progress`, which the start sets up (`start_straight`) and the body of the loop preserves
  (`body_straight`).
- **The loop.** `Looped` adds where the program stands. An iteration is three steps (`Looped.iteration`), and after
  all of them the return ends the run (`program_steps`).
- **Settings.** Settings that were loaded can be used (`usable_load`).
- **The self test.** `selfTest_passes_iff`.
-/

namespace ArmToolkit.Runner

open A64

/-! ## Instructions -/

/-- The operands of the numbers from one on. -/
def indexOps : List Operand := [.ofZ stepVector, .ofImm 1, .ofImm 1]

/-- The operands of the copy of zero. -/
def clearOps : List Operand := [.ofZ sumVector, .shiftedImm 0 0]

/-- The operands of the count down. -/
def countOps : List Operand := [.ofX counter, .ofX counter, .ofImm 1]

theorem index_replaces : ReplacesLanes (.index .imm .imm) indexOps .s stepVector.code fun _ i =>
    (1 + 1 * BitVec.ofNat 64 i).setWidth 32 where
  accepted := rfl
  plain := by
    simp only [indexOps, List.forall_mem_cons]
    exact ⟨.register (.vector _ (by decide)), .immediate 1 0, .immediate 1 0, List.forall_mem_nil _⟩
  vector _ _ _ := rfl
  code := by decide
  writes _ _ := rfl

theorem index_encodes : Instruction.Encodes (.index .imm .imm) .al indexOps := by
  refine index_replaces.encodes ?_
  simp only [Form.checks, List.forall_mem_cons]
  refine ⟨⟨.s, by decide, rfl⟩, ?_, ?_, List.forall_mem_nil _⟩
  · rintro s ⟨⟩
    rfl
  · rintro s ⟨⟩
    rfl

theorem clear_encodes : Instruction.Encodes .dupImm .al clearOps := by
  have replaces := dupImm_replaces (l := .s) (by decide : sumVector.code < 32) 0 0
  refine replaces.encodes ?_
  simp only [Form.checks, List.forall_mem_cons]
  refine ⟨⟨.s, by decide, rfl⟩, ?_, List.forall_mem_nil _⟩
  rintro s ⟨⟩
  rfl

/-- The operands of the sum. -/
def sumOps : List Operand := vectorOps .s sumVector.code sumVector.code stepVector.code

theorem sum_replaces : ReplacesLanes (.unpredicated .add) sumOps .s sumVector.code fun r i =>
    r.zLane sumVector.code 32 i + r.zLane stepVector.code 32 i :=
  unpredicated_replaces (l := .s) (by decide) (by decide) (by decide) .add

theorem sum_encodes : Instruction.Encodes (.unpredicated .add) .al sumOps := by
  refine sum_replaces.encodes ?_
  simp only [Form.checks, List.forall_mem_cons]
  exact ⟨⟨.s, by decide, rfl⟩, rfl, rfl, List.forall_mem_nil _⟩

theorem countOps_plain : ∀ op ∈ countOps, op.IsPlain := by
  simp only [countOps, List.forall_mem_cons]
  exact ⟨.general counter (by decide), .general counter (by decide), .immediate 1 0, List.forall_mem_nil _⟩

theorem count_encodes : Instruction.Encodes (.addSubImm .subs .x) .al countOps := by
  refine .of_plain rfl countOps_plain ?_
  simp only [Form.checks, List.forall_mem_cons]
  refine ⟨?_, List.forall_mem_nil _⟩
  rintro s ⟨⟩
  rfl

/-- The offset from the branch to the start of the loop. -/
def backwards : BitVec 64 := BitVec.ofInt 64 (-8)

theorem branch_encodes : Instruction.Encodes .branchCond .ne [.label backwards] := by
  have reaches : (Branch.conditional .ne).Exists ∧ backwards.toInt % 4 = 0 ∧
      (Branch.conditional .ne).Reaches backwards.toInt := ⟨trivial, by decide, by decide⟩
  exact Branch.encodes_iff.mpr reaches

theorem branch_shaped : ∀ op ∈ [Operand.label backwards], op.Shaped := by
  simp only [List.forall_mem_cons]
  exact ⟨(Operand.Constructed.label backwards).shaped, List.forall_mem_nil _⟩

theorem retOps_plain : ∀ op ∈ [Operand.ofX .link], op.IsPlain := by
  simp only [List.forall_mem_cons]
  exact ⟨.general .link (by decide), List.forall_mem_nil _⟩

theorem ret_encodes : Instruction.Encodes .ret .al [.ofX .link] :=
  .of_plain rfl retOps_plain (List.forall_mem_nil _)

/-- The words of the loop: the sum, the count down, the branch, and what stands behind them. -/
def loopWords : List Word :=
  [Instruction.word (.unpredicated .add) .al sumOps, Instruction.word (.addSubImm .subs .x) .al countOps,
    Instruction.word .branchCond .ne [.label backwards], Instruction.word .ret .al [.ofX .link]]

/-- The words in front of the moves of the counter. -/
def startWords : List Word :=
  [Instruction.word (.index .imm .imm) .al indexOps, Instruction.word .dupImm .al clearOps]

/-! ## The program -/

section

variable {a : Assembler}

theorem index_eq_append : a.index stepVector 1 1 = a.append [Instruction.word (.index .imm .imm) .al indexOps] :=
  Assembler.inScope_eq_append (Assembler.emit_of_encodes index_encodes)

theorem dup_eq_append : a.dup sumVector 0 = a.append [Instruction.word .dupImm .al clearOps] := by
  have found : Assembler.byteImmediate? .dup [.ofZ sumVector] (some .s) 0 =
      some (Instruction.word .dupImm .al clearOps) := by
    unfold Assembler.byteImmediate?
    rw [show [Operand.ofZ sumVector] ++ [.ofImm 0] = clearOps from rfl,
      show Mnemonic.dup = Form.dupImm.mnemonic from rfl, Assembler.tryEncode?_of_encodes clear_encodes]
    rfl
  have cut : laneSigned sumVector.lane 0 = 0 := by decide
  unfold Assembler.dup
  dsimp only
  rw [cut, show sumVector.lane = some .s from rfl, found]
  exact Assembler.dc32_eq_append _

/-- A label that has not been used is bound without a patch. -/
theorem bind_eq_setLabel (fresh : a.labels = []) (name : String) :
    a.bind name = a.setLabel name { location := some a.code.size, links := [] } := by
  have none : a.label name = {} := by
    unfold Assembler.label
    rw [fresh]
    rfl
  unfold Assembler.bind
  rw [none]
  rfl

/-- The branch back over the two words of the loop. -/
theorem offset_back (position : Nat) : Assembler.offsetBetween (position + 2) position = backwards := by
  unfold Assembler.offsetBetween backwards
  congr 1
  omega

/-- **The loop behind its label**: the sum, the count down, the branch back and the return. -/
theorem loop_eq_append (bound : (a.label "loop").location = some a.code.size) :
    (((a.unpredicatedBinary .add sumVector sumVector stepVector).emit .subs countOps).branch .bCond [] "loop" .ne).emit
      .ret [.ofX .link] = a.append loopWords := by
  have sum : a.unpredicatedBinary .add sumVector sumVector stepVector =
      a.append [Instruction.word (.unpredicated .add) .al sumOps] := Assembler.emit_of_encodes sum_encodes
  have count : ∀ a : Assembler,
      a.emit .subs countOps = a.append [Instruction.word (.addSubImm .subs .x) .al countOps] :=
    fun _ => Assembler.emit_of_encodes count_encodes
  have branch : ∀ b : Assembler, (b.label "loop").location = some a.code.size → b.code.size = a.code.size + 2 →
      b.branch .bCond [] "loop" .ne = b.append [Instruction.word .branchCond .ne [.label backwards]] := by
    intro b located size
    unfold Assembler.branch
    simp only [located, size, offset_back]
    exact Assembler.emit_of_encodes branch_encodes
  have ret : ∀ a : Assembler, a.emit .ret [.ofX .link] = a.append [Instruction.word .ret .al [.ofX .link]] :=
    fun _ => Assembler.emit_of_encodes ret_encodes
  rw [sum, count, Assembler.append_append, branch, ret, Assembler.append_append, Assembler.append_append]
  · rfl
  · exact bound
  · simp [Assembler.append]

end

/-- **The program of the self test**: its start, the moves of the counter, and the loop. No error is recorded. -/
theorem selfTestProgram_eq {n : Nat} {moves : List Word}
    (moved : ∀ a : Assembler, a.moveImmediate counter (BitVec.ofNat 64 n) = a.append moves) :
    (selfTestProgram n).code.toList = startWords ++ (moves ++ loopWords) ∧ (selfTestProgram n).errors = [] := by
  let a : Assembler := ({} : Assembler).append (startWords ++ moves)
  have front : (((({} : Assembler).index stepVector 1 1).dup sumVector 0).moveImmediate counter
      (BitVec.ofNat 64 n)) = a := by
    rw [index_eq_append, dup_eq_append, moved, Assembler.append_append, Assembler.append_append]
    rfl
  have whole : selfTestProgram n =
      (a.setLabel "loop" { location := some a.code.size, links := [] }).append loopWords := by
    rw [← loop_eq_append (by rw [Assembler.label_setLabel]; rfl), ← bind_eq_setLabel rfl, ← front]
    rfl
  rw [whole]
  constructor
  · show (#[] ++ (startWords ++ moves) ++ loopWords : Array Word).toList = _
    simp
  · rfl

/-! ## Iterations -/

/-- **The registers after `k` of `n` iterations.** -/
structure Progress (vl : VectorLength) (n k : Nat) (r : Registers) : Prop where
  length : r.vl = some vl
  steps : ∀ i < vl.lanes .s, r.zLane stepVector.code 32 i = BitVec.ofNat 32 (i + 1)
  sums : ∀ i < vl.lanes .s, r.zLane sumVector.code 32 i = expectedLane k i
  left : r.read counter.code .zero = BitVec.ofNat 64 (n - k)
  link : r.read XReg.link.code .zero = Simulator.haltAddress

/-- The numbers from one on, cut to a lane. -/
theorem number_eq (i : Nat) : ((1 + 1 * BitVec.ofNat 64 i : BitVec 64)).setWidth 32 = BitVec.ofNat 32 (i + 1) := by
  apply BitVec.eq_of_toNat_eq
  simp only [BitVec.ofNat_eq_ofNat, BitVec.one_mul, BitVec.toNat_setWidth, BitVec.toNat_add, BitVec.toNat_ofNat]
  omega

/-- The start of the program fills the vectors and moves the number of iterations into the counter. -/
theorem start_straight {sim : Simulator} {vl : VectorLength} {n : Nat} {moves : List Word}
    (configured : sim.core.regs.vl = some vl) (link : sim.core.regs.read XReg.link.code .zero = Simulator.haltAddress)
    (runs : ∀ sim : Simulator, ∃ after, sim.Straight moves after ∧
      sim.core.regs.Wrote after.core.regs counter.code (BitVec.ofNat 64 n)) :
    ∃ after, sim.Straight (startWords ++ moves) after ∧ Progress vl n 0 after.core.regs := by
  have cleared := dupImm_replaces (l := .s) (by decide : sumVector.code < 32) 0 0
  obtain ⟨indexed, first, numbers⟩ := index_replaces.straight index_encodes configured
  obtain ⟨zeroed, second, zeros⟩ := cleared.straight clear_encodes (numbers.length.trans configured)
  obtain ⟨after, third, wrote⟩ := runs zeroed
  refine ⟨after, (first.trans second).trans third, ?_⟩
  -- each part of the start leaves what the parts before it have made
  constructor
  case length =>
    rw [wrote.same.2.2, zeros.length, numbers.length, configured]
  case steps =>
    intro i hi
    rw [wrote.zLane]
    exact (zeros.kept _ (by decide) i hi).trans ((numbers.written i hi).trans (number_eq i))
  case sums =>
    intro i hi
    rw [wrote.zLane]
    refine (zeros.written i hi).trans ?_
    unfold expectedLane
    rw [Nat.mul_zero]
    rfl
  case left =>
    exact wrote.read (by decide) .zero
  case link =>
    rw [wrote.read_of_ne (by decide) (by decide : counter.code ≠ XReg.link.code), zeros.general, numbers.general, link]

/-- Counting down subtracts one, and the flags tell whether nothing is left. -/
theorem countOps_writes (r : Registers) :
    ∃ flags : Flags, flags.z = ((r.read counter.code .zero - 1).toNat == 0) ∧
      Semantics.addSubImm .subs .x countOps r =
        ({ r with flags } : Registers).write counter.code (r.read counter.code .zero - 1) .zero := by
  have one : (Semantics.shiftedValue (arg countOps 2)).setWidth 64 = 1 := by decide
  have held : (r.general (.ofX counter) .stack).setWidth 64 = r.read counter.code .zero :=
    (BitVec.setWidth_eq _).trans ((Registers.general_ofX ..).trans (Width.cut_x _))
  let sum := addWithCarry (r.read counter.code .zero) (~~~1) true
  have difference : sum.1 = r.read counter.code .zero - 1 := by
    rw [addWithCarry_sum, BitVec.add_assoc, show (~~~1 : BitVec 64) + BitVec.ofNat 64 true.toNat = -1 by decide,
      BitVec.sub_eq_add_neg]
  have written : Semantics.addSubImm .subs .x countOps r = Semantics.writeSum .subs (.ofX counter) .zero sum r := by
    show Semantics.writeSum .subs (.ofX counter) .zero (Semantics.addSub .subs
      ((r.general (.ofX counter) .stack).setWidth 64) ((Semantics.shiftedValue (arg countOps 2)).setWidth 64)) r = _
    rw [one, held]
    rfl
  refine ⟨sum.2, ?_, ?_⟩
  · rw [← difference]
    rfl
  · rw [written, Semantics.writeSum, Registers.setGeneral_ofX, ← difference]
    exact congrArg (Registers.write _ _ · _) ((Width.cut_x _).trans (BitVec.setWidth_eq _))

theorem count_straight (sim : Simulator) :
    ∃ after, sim.Straight [Instruction.word (.addSubImm .subs .x) .al countOps] after ∧
      ({ sim.core.regs with flags := after.core.regs.flags } : Registers).Wrote after.core.regs counter.code
        (sim.core.regs.read counter.code .zero - 1) ∧
      after.core.regs.flags.z = ((sim.core.regs.read counter.code .zero - 1).toNat == 0) := by
  obtain ⟨flags, zero, writes⟩ := countOps_writes sim.core.regs
  have done := congrArg (Semantics.registersOnly sim.core) writes
  exact ⟨_, .one count_encodes countOps_plain done, ⟨sim.nextPc, rfl⟩, zero⟩

/-- One more iteration adds the number of a lane once more. -/
theorem expectedLane_succ (k i : Nat) : expectedLane k i + BitVec.ofNat 32 (i + 1) = expectedLane (k + 1) i := by
  unfold expectedLane
  rw [← BitVec.ofNat_add, ← Nat.mul_succ]

/-- What is left behind one more iteration. -/
theorem left_succ {n k : Nat} (more : k < n) : BitVec.ofNat 64 (n - k) - 1 = BitVec.ofNat 64 (n - (k + 1)) := by
  have one : n - k = n - (k + 1) + 1 := by omega
  rw [one, BitVec.ofNat_add]
  exact BitVec.add_sub_cancel _ _

/-- The program counter is no part of the progress. -/
theorem Progress.withPc {vl : VectorLength} {n k : Nat} {r : Registers} (h : Progress vl n k r) (pc : BitVec 64) :
    Progress vl n k { r with pc } := ⟨h.length, h.steps, h.sums, h.left, h.link⟩

/-- **The body of the loop** adds the numbers to the sums and counts down. -/
theorem body_straight {sim : Simulator} {vl : VectorLength} {n k : Nat} (progress : Progress vl n k sim.core.regs)
    (more : k < n) :
    ∃ after, sim.Straight (loopWords.take 2) after ∧ Progress vl n (k + 1) after.core.regs ∧
      after.core.regs.flags.z = ((BitVec.ofNat 64 (n - (k + 1))).toNat == 0) := by
  obtain ⟨summed, first, sums⟩ := sum_replaces.straight sum_encodes progress.length
  obtain ⟨after, second, wrote, zero⟩ := count_straight summed
  rw [sums.general, progress.left, left_succ more] at wrote zero
  refine ⟨after, first.trans second, ?_, zero⟩
  constructor
  case length =>
    exact wrote.same.2.2.trans (sums.length.trans progress.length)
  case steps =>
    intro i hi
    rw [wrote.zLane]
    exact (sums.kept _ (by decide) i hi).trans (progress.steps i hi)
  case sums =>
    intro i hi
    rw [wrote.zLane]
    refine (sums.written i hi).trans ?_
    rw [← expectedLane_succ, ← progress.sums i hi, ← progress.steps i hi]
  case left =>
    exact wrote.read (by decide) .zero
  case link =>
    rw [wrote.read_of_ne (by decide) (by decide : counter.code ≠ XReg.link.code)]
    exact (sums.general _ _).trans progress.link

/-! ## The loop -/

/-- **A simulator behind `k` of `n` iterations**: it goes on with the next one, or with the return. -/
structure Looped (vl : VectorLength) (n k : Nat) (loop : BitVec 64) (sim : Simulator) : Prop where
  progress : Progress vl n k sim.core.regs
  running : sim.halted = false
  held : sim.core.mem.Holds loop loopWords
  pc : sim.pc = loop + BitVec.ofNat 64 (if k < n then 0 else 12)

section

variable {sim : Simulator} {vl : VectorLength} {n k : Nat} {loop : BitVec 64}

/-- **The branch behind the body** goes back to the loop unless nothing was left, and changes nothing else. -/
theorem branch_moves (behind : sim.pc = loop + BitVec.ofNat 64 8) (held : sim.core.mem.Holds loop loopWords)
    (running : sim.halted = false) (below : loop.toNat + 16 < Simulator.haltAddress.toNat) :
    ∃ after, sim.Moves after ∧ after.halted = false ∧ after.core =
      { sim.core with regs := { sim.core.regs with
        pc := loop + BitVec.ofNat 64 (if sim.core.regs.flags.z then 12 else 0) } } := by
  have fetched : sim.core.mem.load? sim.pc Simulator.instructionSize =
      some (Instruction.word .branchCond .ne [.label backwards]) := by
    rw [behind]
    exact held 2 _ rfl
  have goesBack : sim.pc + backwards = loop := by
    rw [behind, BitVec.add_assoc, show BitVec.ofNat 64 8 + backwards = 0 by decide]
    exact BitVec.add_zero loop
  -- the branch is taken unless the count went down to zero
  let flow : A64.Flow := if sim.core.regs.flags.z then .next else .jump loop
  have done : Semantics.execute .branchCond .ne [.label backwards] sim.core = .done sim.core flow := by
    show Outcome.done sim.core (if !sim.core.regs.flags.z then .jump (sim.pc + backwards) else .next) = _
    rw [goesBack]
    simp only [flow]
    cases sim.core.regs.flags.z <;> rfl
  have goal : sim.target flow = loop + BitVec.ofNat 64 (if sim.core.regs.flags.z then 12 else 0) := by
    simp only [flow]
    cases sim.core.regs.flags.z with
    | false => exact (BitVec.add_zero loop).symm
    | true =>
      show sim.pc + BitVec.ofNat 64 Simulator.instructionSize = _
      rw [behind, BitVec.add_assoc]
      rfl
  have apart : sim.target flow ≠ Simulator.haltAddress := by
    intro same
    have address := congrArg BitVec.toNat (goal.symm.trans same)
    rw [BitVec.toNat_add, BitVec.toNat_ofNat] at address
    split at address <;> omega
  have continues : flow ≠ .halt := by
    simp only [flow]
    split <;> exact A64.Flow.noConfusion
  refine ⟨_, .of_encodes running fetched branch_encodes branch_shaped done,
    Simulator.advance_running running continues apart, ?_⟩
  rw [← goal]
  rfl

/-- **An iteration** is three steps. -/
theorem Looped.iteration (h : Looped vl n k loop sim) (more : k < n) (fits : n < 4294967296)
    (below : loop.toNat + 16 < Simulator.haltAddress.toNat) :
    ∃ after, sim.Steps 3 after ∧ Looped vl n (k + 1) loop after := by
  have pc : sim.pc = loop := by
    rw [h.pc, if_pos more]
    exact BitVec.add_zero loop
  obtain ⟨counted, straight, progress, zero⟩ := body_straight h.progress more
  obtain ⟨steps, running, pc', mem⟩ := straight.steps h.running
    (by rw [pc]; exact @Memory.Holds.left _ _ (loopWords.take 2) (loopWords.drop 2) h.held)
    (by rw [pc]; show loop.toNat + 8 < _; omega)
  have held : counted.core.mem.Holds loop loopWords := mem ▸ h.held
  obtain ⟨after, moves, goesOn, core⟩ := branch_moves (by rw [pc', pc]; rfl) held running below
  -- nothing is left exactly where this was the last iteration
  have place : (if counted.core.regs.flags.z then 12 else 0) = if k + 1 < n then 0 else 12 := by
    rw [zero, BitVec.toNat_ofNat, Nat.mod_eq_of_lt (by omega)]
    by_cases again : k + 1 < n
    · rw [if_pos again, if_neg (by rw [beq_iff_eq]; omega)]
    · rw [if_neg again, if_pos (by rw [beq_iff_eq]; omega)]
  rw [place] at core
  refine ⟨after, steps.trans moves.steps, ?_, goesOn, ?_, ?_⟩
  · rw [core]
    exact progress.withPc _
  · rw [core]
    exact held
  · rw [Simulator.pc, core]

/-- **So many iterations** are three steps each. -/
theorem Looped.iterations (h : Looped vl n 0 loop sim) (fits : n < 4294967296)
    (below : loop.toNat + 16 < Simulator.haltAddress.toNat) (few : k ≤ n) :
    ∃ after, sim.Steps (3 * k) after ∧ Looped vl n k loop after := by
  induction k with
  | zero => exact ⟨sim, .refl sim, h⟩
  | succ k ih =>
    obtain ⟨mid, steps, looped⟩ := ih (Nat.le_of_succ_le few)
    obtain ⟨after, three, looped⟩ := looped.iteration few fits below
    exact ⟨after, steps.trans three, looped⟩

/-- **Behind the last iteration** the return ends the run. -/
theorem Looped.returns (h : Looped vl n n loop sim) :
    ∃ after, sim.Steps 1 after ∧ after.halted = true ∧ Progress vl n n after.core.regs := by
  have pc : sim.pc = loop + BitVec.ofNat 64 12 := by rw [h.pc, if_neg (Nat.lt_irrefl n)]
  have fetched : sim.core.mem.load? sim.pc Simulator.instructionSize =
      some (Instruction.word .ret .al [.ofX .link]) := by
    rw [pc]
    exact h.held 3 _ rfl
  have link : sim.core.regs.general (.ofX .link) .zero = Simulator.haltAddress :=
    (Registers.general_ofX ..).trans ((Width.cut_x _).trans h.progress.link)
  have done : Semantics.execute .ret .al [.ofX .link] sim.core = .done sim.core (.jump Simulator.haltAddress) := by
    rw [← link]
    rfl
  have moves := Simulator.Moves.of_encodes h.running fetched ret_encodes
    (fun op hop => (retOps_plain op hop).shaped) done
  refine ⟨_, moves.steps, ?_, h.progress.withPc _⟩
  show (sim.halted || A64.Flow.jump Simulator.haltAddress == .halt ||
    Simulator.haltAddress == Simulator.haltAddress) = true
  rw [beq_self_eq_true, Bool.or_true]

/-- **The program from its start to its end.** -/
theorem program_steps {moves : List Word} (positive : 1 ≤ n) (fits : n < 4294967296)
    (configured : sim.core.regs.vl = some vl) (link : sim.core.regs.read XReg.link.code .zero = Simulator.haltAddress)
    (runs : ∀ sim : Simulator, ∃ after, sim.Straight moves after ∧
      sim.core.regs.Wrote after.core.regs counter.code (BitVec.ofNat 64 n))
    (running : sim.halted = false) (held : sim.core.mem.Holds sim.pc (startWords ++ moves ++ loopWords))
    (below : sim.pc.toNat + 4 * (startWords ++ moves ++ loopWords).length < Simulator.haltAddress.toNat) :
    ∃ after, sim.Steps (2 + moves.length + 3 * n + 1) after ∧ after.halted = true ∧
      Progress vl n n after.core.regs := by
  have start : (startWords ++ moves).length = 2 + moves.length := List.length_append
  have size : (startWords ++ moves ++ loopWords).length = 2 + moves.length + 4 :=
    List.length_append.trans (congrArg (· + 4) start)
  obtain ⟨front, straight, progress⟩ := start_straight configured link runs
  obtain ⟨steps, running, pc, mem⟩ := straight.steps running held.left (by omega)
  have inside : (sim.pc + BitVec.ofNat 64 (4 * (startWords ++ moves).length)).toNat =
      sim.pc.toNat + 4 * (startWords ++ moves).length := by
    have limit := Simulator.haltAddress.isLt
    rw [BitVec.toNat_add, BitVec.toNat_ofNat]
    omega
  -- there is at least one iteration, so the start ends in front of the sum
  have looped : Looped vl n 0 front.pc front := by
    refine ⟨progress, running, ?_, ?_⟩
    · rw [pc, mem]
      exact held.right
    · rw [if_pos (show 0 < n from positive)]
      exact (BitVec.add_zero _).symm
  obtain ⟨behind, rounds, looped⟩ := looped.iterations fits (by rw [pc, inside]; omega) (Nat.le_refl n)
  obtain ⟨after, last, halted, progress⟩ := looped.returns
  rw [start] at steps
  exact ⟨after, (steps.trans rounds).trans last, halted, progress⟩

end

/-! ## Settings -/

/-- **Settings that programs can run with**: a vector length, and a data region that lies in memory. -/
structure Usable (c : Settings) : Prop where
  length : isVectorLength c.vectorLength = true
  memory : 0 < c.memorySize
  bounded : c.memorySize < 4294967296

/-- A number that was read is a number of its type. -/
theorem holds_of_read? {k : Text.IntKind} {base : Nat} {text : String} {z : Int} (h : k.read? base text = some z) :
    k.holds z = true := by
  obtain ⟨⟨z, rest⟩, scanned, rfl⟩ := Option.map_eq_some_iff.mp h
  unfold Text.IntKind.scan at scanned
  dsimp only at scanned
  split at scanned
  · cases scanned
  · obtain ⟨holds, same⟩ := Option.ite_none_right_eq_some.mp scanned
    cases same
    exact holds

theorem nat?_lt {s : Store} {k : SettingKey} {n : Nat} (h : s.nat? k = some n) : n < 4294967296 := by
  obtain ⟨z, read, rfl⟩ := Option.map_eq_some_iff.mp h
  obtain ⟨text, -, read⟩ := Option.bind_eq_some_iff.mp read
  have holds := holds_of_read? read
  rw [Text.IntKind.holds, decide_eq_true_eq] at holds
  obtain ⟨-, high⟩ : 0 ≤ z ∧ z ≤ 4294967295 := holds
  omega

/-- **Settings that were loaded can be used**, whatever the store holds. -/
theorem usable_load (s : Store) : Usable (Settings.load s) where
  length := by
    show isVectorLength (VectorLength.clamp _) = true
    unfold isVectorLength VectorLength.clamp
    rw [decide_eq_true_eq]
    omega
  memory := Nat.lt_of_lt_of_le Nat.one_pos (Nat.le_max_right _ _)
  bounded := by
    have read : (s.nat? Settings.memorySizeKey).getD ({} : Settings).memorySize < 4294967296 := by
      cases found : s.nat? Settings.memorySizeKey with
      | none => decide
      | some n => exact nat?_lt found
    exact Nat.max_lt.mpr ⟨read, by decide⟩

/-! ## The self test -/

/-- **The number of instructions of the self test**: the two that fill the vectors, the moves of the counter, three an
    iteration, and the return. -/
def selfTestCount (n : Nat) : Nat :=
  2 + (({} : Assembler).moveImmediate counter (BitVec.ofNat 64 n)).code.size + 3 * n + 1

/-- **The program is assembled, loaded and run to its end**, if the budget is left aside. -/
theorem selfTest_steps {c : Settings} (usable : Usable c) {n : Nat} (positive : 1 ≤ n) (fits : n < 4294967296) :
    (selfTestProgram n).firstError? = none ∧ ∃ sim messages after,
      (Simulator.create (simulatorOptions c)).1.load (selfTestProgram n).code.toList Simulator.codeAddress =
        (sim, messages, none) ∧
      sim.count = 0 ∧ sim.options = simulatorOptions c ∧ sim.Steps (selfTestCount n) after ∧ after.halted = true ∧
      Progress ⟨c.vectorLength, usable.length⟩ n n after.core.regs := by
  have loads : Assembler.Loads (fun a => a.moveImmediate counter (BitVec.ofNat 64 n)) counter.code
      (BitVec.ofNat 64 n) := by
    have moved := Assembler.moveImmediate_loads (by decide : counter.code < 31) (BitVec.ofNat 64 n)
    rwa [show counter.width.cut (BitVec.ofNat 64 n) = _ from Width.cut_x _] at moved
  obtain ⟨moves, moved, runs⟩ := loads
  have size : (({} : Assembler).moveImmediate counter (BitVec.ofNat 64 n)).code.size = moves.length := by
    rw [show ({} : Assembler).moveImmediate counter (BitVec.ofNat 64 n) = _ from moved {}]
    simp [Assembler.append]
  -- code and data are both loaded, which needs a bound on the words of the moves
  have few : moves.length ≤ 4 := size ▸ (Assembler.size_moveImmediate {} (by decide) (BitVec.ofNat 64 n)).2
  obtain ⟨code, errors⟩ := selfTestProgram_eq moved
  rw [← List.append_assoc] at code
  have length : (startWords ++ moves ++ loopWords).length = 2 + moves.length + 4 := by
    rw [List.length_append, List.length_append]
    rfl
  have assembled : (selfTestProgram n).firstError? = none := by
    unfold Assembler.firstError?
    rw [errors]
    rfl
  refine ⟨assembled, ?_⟩
  rw [code, selfTestCount, size]
  let sim := (Simulator.create (simulatorOptions c)).1
  obtain ⟨mem, messages, held, loaded⟩ := sim.load_holds (by decide : Simulator.codeAddress.toNat % 4 = 0)
    (List.append_ne_nil_of_right_ne_nil (startWords ++ moves) (by decide : loopWords ≠ []))
    (by rw [length]; show 65536 + _ ≤ 16777216; omega) usable.memory
    (by show 16777216 + c.memorySize < 18446744073709551616; have := usable.bounded; omega)
  let start : Simulator := { sim.cleared with core := ⟨sim.cleared.startRegisters Simulator.codeAddress, mem⟩ }
  have configured : start.core.regs.vl = some ⟨c.vectorLength, usable.length⟩ := dif_pos usable.length
  have link : start.core.regs.read XReg.link.code .zero = Simulator.haltAddress :=
    (Registers.read_write _ 30 30 _ (by decide) (by decide) .zero .zero).trans (if_pos rfl)
  obtain ⟨after, steps, halted, progress⟩ := program_steps positive fits configured link runs rfl held
    (by rw [length]; show 65536 + _ < 18446744073709551612; omega)
  exact ⟨start, messages, after, loaded, rfl, rfl, steps, halted, progress⟩

/-- No lane is wrong where every lane is what it has to be. -/
theorem wrongLane?_eq_none {regs : Registers} {n lanes : Nat} :
    wrongLane? regs n lanes = none ↔ ∀ i < lanes, regs.zLane sumVector.code 32 i = expectedLane n i := by
  unfold wrongLane?
  rw [List.find?_eq_none]
  simp only [List.mem_range, bne_iff_ne, ne_eq, Decidable.not_not]

/-- **The outcome of a self test** that is assembled and loaded: its run must not fail, and no lane may be wrong. -/
theorem selfTest_outcome {c : Settings} {n : Nat} {sim : Simulator} {messages : List Log.Message}
    (assembled : (selfTestProgram n).firstError? = none)
    (loaded : (Simulator.create (simulatorOptions c)).1.load (selfTestProgram n).code.toList Simulator.codeAddress =
      (sim, messages, none)) (elapsed : String) :
    (selfTest c n elapsed).2 = true ↔ sim.run.failure = none ∧ wrongLane? sim.run.sim.core.regs n
      ((sim.run.sim.core.regs.vl.map fun vl => vl.lanes .s).getD 0) = none := by
  rcases made : Simulator.create (simulatorOptions c) with ⟨start, created⟩
  rw [made] at loaded
  unfold selfTest
  dsimp only
  rw [assembled, made]
  dsimp only
  rw [loaded]
  dsimp only
  cases sim.run.failure with
  | some e => simp
  | none =>
    cases wrongLane? sim.run.sim.core.regs n ((sim.run.sim.core.regs.vl.map fun vl => vl.lanes .s).getD 0) with
    | some i => simp
    | none => simp

/-- **The self test passes exactly where the budget is enough for it.** It is assembled without an error and loaded,
    whatever the settings that were read. Where the budget is enough, the run ends without a failure after that many
    instructions, and every lane of the sums is what it has to be, wrapped to 32 bits; otherwise the run fails with the
    limit. -/
theorem selfTest_passes_iff (s : Store) (n : Nat) (elapsed : String) (positive : 1 ≤ n) (fits : n < 4294967296) :
    (selfTestProgram n).firstError? = none ∧ ∃ sim messages,
      (Simulator.create (simulatorOptions (Settings.load s))).1.load (selfTestProgram n).code.toList
        Simulator.codeAddress = (sim, messages, none) ∧
      (selfTestCount n ≤ (Settings.load s).maxInstructions →
        sim.run.failure = none ∧ sim.run.sim.halted = true ∧ sim.run.sim.count = selfTestCount n ∧
        ∃ vl, sim.run.sim.core.regs.vl = some vl ∧ vl.bits = (Settings.load s).vectorLength ∧
          ∀ i < vl.lanes .s, sim.run.sim.core.regs.zLane sumVector.code 32 i = BitVec.ofNat 32 ((i + 1) * n)) ∧
      ((Settings.load s).maxInstructions < selfTestCount n →
        sim.run.sim.lastError = some (.limit (Settings.load s).maxInstructions) ∧
          ∃ text, sim.run.failure = some ("InstructionLimit" ++ text)) ∧
      ((selfTest (Settings.load s) n elapsed).2 = true ↔ selfTestCount n ≤ (Settings.load s).maxInstructions) := by
  have usable := usable_load s
  generalize Settings.load s = c at usable ⊢
  obtain ⟨assembled, sim, messages, after, loaded, count, options, steps, halted, progress⟩ :=
    selfTest_steps usable positive fits
  have budget : sim.options.maxInstructions = c.maxInstructions := by
    rw [options]
    rfl
  have enough : selfTestCount n ≤ c.maxInstructions → sim.run.sim = after ∧ sim.run.failure = none := fun enough =>
    Simulator.run_halts steps halted (by rw [count, budget]; omega)
  -- a run that would need more than the budget is stopped by it
  have short : c.maxInstructions < selfTestCount n →
      sim.run.sim.lastError = some (.limit c.maxInstructions) ∧
        ∃ text, sim.run.failure = some ("InstructionLimit" ++ text) := by
    intro short
    rw [← budget] at short ⊢
    exact (Simulator.run_exceeds steps (by omega) (by omega)).2
  have outcome := selfTest_outcome assembled loaded elapsed
  refine ⟨assembled, sim, messages, loaded, fun h => ?_, short, outcome.trans ⟨?_, fun h => ?_⟩⟩
  · obtain ⟨same, succeeds⟩ := enough h
    rw [same]
    refine ⟨succeeds, halted, ?_, _, progress.length, rfl, progress.sums⟩
    rw [steps.count.1, count, Nat.zero_add]
  · rintro ⟨succeeds, -⟩
    by_contra exceeds
    obtain ⟨-, text, fails⟩ := short (Nat.lt_of_not_le exceeds)
    rw [succeeds] at fails
    cases fails
  · obtain ⟨same, succeeds⟩ := enough h
    refine ⟨succeeds, ?_⟩
    rw [same, progress.length]
    exact wrongLane?_eq_none.mpr progress.sums

/-- The sums of all lanes but the first three wrap, and the greatest budget that a store can hold is hardly enough. -/
theorem selfTest_passes_within_budget :
    (1 ≤ 1431655763 ∧ 1431655763 < 4294967296) ∧
      (selfTest (Settings.load ⟨[(Settings.maxInstructionsKey, "4294967294")]⟩) 1431655763 "0.01").2 = true ∧
      (selfTest (Settings.load ⟨[(Settings.maxInstructionsKey, "4294967293")]⟩) 1431655763 "0.01").2 ≠ true := by
  have count : selfTestCount 1431655763 = 4294967294 := by decide +kernel
  have budget : (Settings.load ⟨[(Settings.maxInstructionsKey, "4294967294")]⟩).maxInstructions = 4294967294 := by
    decide +kernel
  have budget' : (Settings.load ⟨[(Settings.maxInstructionsKey, "4294967293")]⟩).maxInstructions = 4294967293 := by
    decide +kernel
  obtain ⟨-, -, -, -, -, -, passes⟩ :=
    selfTest_passes_iff ⟨[(Settings.maxInstructionsKey, "4294967294")]⟩ 1431655763 "0.01" (by decide) (by decide)
  obtain ⟨-, -, -, -, -, -, fails⟩ :=
    selfTest_passes_iff ⟨[(Settings.maxInstructionsKey, "4294967293")]⟩ 1431655763 "0.01" (by decide) (by decide)
  rw [count, budget] at passes
  rw [count, budget'] at fails
  exact ⟨by decide, passes.mpr (by decide), fun h => absurd (fails.mp h) (by decide)⟩

end ArmToolkit.Runner
