import ArmToolkit.A64.Assembler
import ArmToolkit.Proofs.Executed

/-!
# `Proofs.Emitted` — emitted words, and what they do one after the other

## Contents
- **Emitting.** Operands that can be encoded are emitted as one word (`Assembler.emit_of_encodes`), and nothing else of
  the assembler changes (`Assembler.append`).
- **Executing.** `Simulator.executeWords?` decodes and executes words in order. A word of an instruction does what the
  instruction does (`Simulator.executeWord?_of_encodes`).
- **Plain operands.** `Operand.IsPlain`: registers that exist, immediates and patterns. An instruction on them is encoded
  where its checks pass (`Instruction.Encodes.of_plain`).
- **Words that do something.** `Assembler.Emits` says what executing the words of a macro does. It is composed along the
  macro (`Assembler.Emits.trans`) from single instructions (`Assembler.emit_registers`).
-/

namespace ArmToolkit.A64

/-! ## Emitting -/

namespace Assembler

variable {a : Assembler}

/-- The assembler with words behind its code. -/
def append (a : Assembler) (ws : List Word) : Assembler := { a with code := a.code ++ ws }

@[simp] theorem append_nil : a.append [] = a := by simp [append]

@[simp] theorem append_append (ws ws' : List Word) : (a.append ws).append ws' = a.append (ws ++ ws') := by
  have same : a.code ++ ws ++ ws' = a.code ++ (ws ++ ws') := Array.ext' (by simp)
  simp only [append, same]

theorem size_append (ws : List Word) : (a.append ws).code.size = a.code.size + ws.length := by
  rw [append, ← Array.length_toList, Array.toList_appendList, List.length_append, Array.length_toList]

theorem dc32_eq_append (w : Word) : a.dc32 w = a.append [w] := by simp [dc32, append]

/-- A part of a macro that only emits may run in a scope of its own. -/
theorem inScope_eq_append {body : Assembler → Assembler} {pools : ScratchPools} {ws : List Word}
    (h : body a = { a with pools }.append ws) : a.inScope body = a.append ws := by
  unfold inScope
  rw [h]
  rfl

/-- Where a scratch register is free, the lowest is taken. -/
theorem withScratch_of_lowest {c : ScratchClass} {code : Nat} (lowest : a.pools.lowest? c = some code)
    (body : Nat → Assembler → Assembler) :
    a.withScratch c body = body code { a with pools := a.pools.remove c code } := by
  rw [withScratch, acquire, lowest]

/-- **Operands that a form accepts** are encoded in that form. -/
theorem encode_of_accepts {f : Form} {ops : List Operand} (h : f.accepts ops = true) (cond : Condition) :
    encode f.mnemonic ops cond = Instruction.encode ⟨some f, cond, ops⟩ := by
  -- no form has more operands than an instruction may have
  have table : ∀ f ∈ Form.all, f.slots.length ≤ maxOperands := by decide +kernel
  have few : ¬ maxOperands < ops.length := by
    have := table f (Form.mem_all f)
    rw [(Form.accepts_iff.mp h).length_eq] at this
    omega
  unfold encode Instruction.make
  rw [if_neg few, Form.resolve?_of_accepts h]
  rfl

/-- **Operands that can be encoded are emitted** as one word. -/
theorem emit_of_encodes {f : Form} {cond : Condition} {ops : List Operand} (h : Instruction.Encodes f cond ops) :
    a.emit f.mnemonic ops cond = a.append [Instruction.word f cond ops] := by
  have encoded : Instruction.encode ⟨some f, cond, ops⟩ = .ok (Instruction.word f cond ops) :=
    Instruction.encode_form_eq_ok_iff.mpr ⟨h, rfl⟩
  unfold emit
  rw [encode_of_accepts h.accepted, encoded]
  exact dc32_eq_append _

end Assembler

/-! ## Executing -/

namespace Simulator

variable {sim : Simulator}

/-- **Executes a word**: the instruction that it holds, if it holds one and the instruction does not fail. -/
def executeWord? (sim : Simulator) (w : Word) : Option Simulator :=
  match Instruction.decode w with
  | .error _ => none
  | .ok inst => if (sim.execute inst).failure.isSome then none else some (sim.execute inst).sim

/-- **A step executes the word at the program counter**, if it can be executed. -/
theorem step_of_executeWord? {after : Simulator} {w : Word} (running : sim.halted = false)
    (budget : sim.count < sim.options.maxInstructions)
    (fetched : sim.core.mem.load? sim.pc instructionSize = some w) (h : sim.executeWord? w = some after) :
    sim.step.sim = after ∧ sim.step.failure = none := by
  unfold executeWord? at h
  cases decoded : Instruction.decode w with
  | error why =>
    rw [decoded] at h
    cases h
  | ok inst =>
    obtain ⟨f, _, _, -, form⟩ := Instruction.decode_eq_ok_iff.mp decoded
    have form : inst.form = some f := by rw [form]
    obtain ⟨stepped, fails⟩ := stepDecoded_sim sim w inst f
    obtain ⟨executed, failure⟩ := execute_sim sim inst form
    rw [decoded] at h
    obtain ⟨succeeds, same⟩ := Option.ite_none_left_eq_some.mp h
    cases same
    rw [step_of_decode running budget fetched decoded form, stepped, executed]
    exact ⟨rfl, Option.not_isSome_iff_eq_none.mp (by rw [fails, ← failure]; exact succeeds)⟩

/-- **A word that is executed** is one of an instruction, which is done. -/
theorem done_of_executeWord? {after : Simulator} {w : Word} {f : Form} {cond : Condition} {ops : List Operand}
    (decoded : Instruction.decode w = .ok ⟨some f, cond, ops⟩) (h : sim.executeWord? w = some after) :
    ∃ core flow, Semantics.execute f cond ops sim.core = .done core flow ∧ after = sim.advance core flow := by
  obtain ⟨same, fails⟩ := execute_sim sim ⟨some f, cond, ops⟩ rfl
  unfold executeWord? at h
  rw [decoded] at h
  obtain ⟨succeeds, same'⟩ := Option.ite_none_left_eq_some.mp h
  rw [fails] at succeeds
  rw [same] at same'
  unfold perform at same' succeeds
  cases outcome : Semantics.execute f cond ops sim.core with
  | done core flow =>
    rw [outcome] at same'
    exact ⟨core, flow, rfl, (Option.some.inj same').symm⟩
  | fault why mem =>
    rw [outcome] at succeeds
    exact absurd rfl succeeds

/-- **Executes words one after the other**, if each of them can be executed. -/
def executeWords? (sim : Simulator) : List Word → Option Simulator
  | [] => some sim
  | w :: ws => (sim.executeWord? w).bind fun sim => sim.executeWords? ws

theorem executeWords?_append (sim : Simulator) (ws ws' : List Word) :
    sim.executeWords? (ws ++ ws') = (sim.executeWords? ws).bind fun sim => sim.executeWords? ws' := by
  induction ws generalizing sim with
  | nil => rfl
  | cons w ws ih =>
    rw [List.cons_append, executeWords?, executeWords?, Option.bind_assoc]
    exact congrArg _ (funext ih)

theorem executeWords?_singleton (sim : Simulator) (w : Word) : sim.executeWords? [w] = sim.executeWord? w := by
  rw [executeWords?]
  exact Option.bind_fun_some _

/-- **The word of an instruction does what the instruction does.** -/
theorem executeWord?_of_encodes {f : Form} {cond : Condition} {ops : List Operand}
    (h : Instruction.Encodes f cond ops) (shaped : ∀ op ∈ ops, op.Shaped) {core : Core} {flow : Flow}
    (done : Semantics.execute f cond ops sim.core = .done core flow) :
    sim.executeWord? (Instruction.word f cond ops) = some (sim.advance core flow) := by
  have same := Semantics.execute_canonical h shaped cond sim.core
  rw [done] at same
  have performed : sim.perform f ⟨some f, cond, f.canonical ops⟩ = (sim.advance core flow, none) := by
    rw [perform, same]
  obtain ⟨after, fails⟩ := execute_sim sim ⟨some f, cond, f.canonical ops⟩ rfl
  rw [performed] at after fails
  rw [executeWord?, h.decode]
  show (if (sim.execute ⟨some f, cond, f.canonical ops⟩).failure.isSome then none else _) = _
  rw [after, fails]
  rfl

end Simulator

/-! ## Plain operands -/

/-- **A vector or a predicate register** that exists, as an operand. -/
inductive Operand.IsRegister : Operand → Prop
  | vector (r : ZReg) (code : r.code < 32) : IsRegister (.ofZ r)
  | predicate (r : PReg) (code : r.code < 16) : IsRegister (.ofP r)

namespace Operand.IsRegister

variable {op : Operand}

theorem shaped (h : op.IsRegister) : op.Shaped := by
  cases h with
  | vector r code => exact (Constructed.ofZ r code).shaped
  | predicate r code => exact (Constructed.ofP r code).shaped

theorem registerFault? (h : op.IsRegister) : Form.registerFault? op = none := by
  cases h with
  | vector r code => simp [Form.registerFault?, ofZ, Nat.not_le.mpr code]
  | predicate r code => simp [Form.registerFault?, ofP, Nat.not_le.mpr code, show ¬ 32 ≤ r.code by omega]

end Operand.IsRegister

/-- **An operand whose registers exist and are not shifted.** -/
inductive Operand.IsPlain : Operand → Prop
  | register {op : Operand} (h : op.IsRegister) : IsPlain op
  | general (r : XReg) (code : r.code < 32) : IsPlain (.ofX r)
  | immediate (value : BitVec 64) (shift : Nat) : IsPlain (.shiftedImm value shift)
  | pattern (bits : Nat) : IsPlain (.ofPattern bits)
  | memory (base : Nat) (offset : BitVec 64) (code : base < 32) : IsPlain (.mulVl base offset)

namespace Operand.IsPlain

variable {op : Operand}

theorem shaped (h : op.IsPlain) : op.Shaped := by
  cases h with
  | register h => exact h.shaped
  | general r code => exact (Constructed.ofX r code).shaped
  | immediate value shift => exact (Constructed.shiftedImm value shift).shaped
  | pattern bits => exact (Constructed.ofPattern bits).shaped
  | memory base offset code => exact (Constructed.mulVl base offset code).shaped

/-- A plain operand is no register, or one without a fault. -/
theorem registerFault? (h : op.IsPlain) {f : Form} {i : Nat} (named : f.namesPlainRegister i op = true) :
    Form.registerFault? op = none := by
  cases h with
  | register h => exact h.registerFault?
  | general r code =>
    obtain ⟨n, width⟩ := r
    cases width <;> simp [Form.registerFault?, ofX, Nat.not_le.mpr code]
  | immediate value shift => cases named
  | pattern bits => cases named
  | memory base offset code => cases named

end Operand.IsPlain

/-- **An instruction on plain operands is encoded** where its operands are accepted and its checks pass. -/
theorem Instruction.Encodes.of_plain {f : Form} {ops : List Operand} (accepted : f.accepts ops = true)
    (plain : ∀ op ∈ ops, op.IsPlain) (checks : ∀ c ∈ f.checks, c.Passes f ops) : Encodes f .al ops := by
  have faultless : f.plainFault? ops = none := Form.plainFault?_eq_none.mpr fun i op at_i named =>
    (plain op (List.mem_of_getElem? at_i)).registerFault? named
  exact ⟨accepted, .inr rfl, Form.fault?_eq_none.mpr ⟨faultless, checks⟩⟩

/-- **An instruction on plain operands is decoded again**, if its form has no qualified predicate and no bitmask. -/
theorem Instruction.Encodes.decode_of_plain {f : Form} {ops : List Operand} (h : Instruction.Encodes f .al ops)
    (plain : ∀ op ∈ ops, op.IsPlain) (unmasked : f.bitmaskField? = none)
    (unqualified : ∀ s ∈ f.slots, s.qualified = false) :
    Instruction.decode (Instruction.word f .al ops) = .ok ⟨some f, .al, ops⟩ := by
  have read := h.canonical_eq_self (fun op hop => (plain op hop).shaped) unmasked fun i s hs qualified => by
    rw [unqualified s (List.mem_of_getElem? hs)] at qualified
    cases qualified
  rw [h.decode, read]

/-! ## Words that do something -/

/-- A vector instruction is executed at the vector length that is configured. -/
theorem Form.NeedsLength.execute {f : Form} (vector : f.NeedsLength) (c : Condition) (ops : List Operand) {core : Core}
    {vl : VectorLength} (configured : core.regs.vl = some vl) :
    Semantics.execute f c ops core = Semantics.executeVector f vl ops core := by
  rw [vector, configured]

namespace Assembler

variable {a b c : Assembler}

/-- **One assembler is the other with words behind its code**, and executing the words from any state with a vector
    length does something to the registers and the memory. The vector length stays. -/
def Emits (a b : Assembler) (effect : VectorLength → Core → Core → Prop) : Prop :=
  ∃ ws, b = a.append ws ∧ ∀ (sim : Simulator) (vl : VectorLength), sim.core.regs.vl = some vl →
    ∃ after, sim.executeWords? ws = some after ∧ after.core.regs.vl = some vl ∧ effect vl sim.core after.core

variable {P Q : VectorLength → Core → Core → Prop}

theorem Emits.nothing (a : Assembler) : a.Emits a fun _ core after => after = core :=
  ⟨[], append_nil.symm, fun sim _ configured => ⟨sim, rfl, configured, rfl⟩⟩

theorem Emits.mono (h : a.Emits b P) (weaker : ∀ vl core after, P vl core after → Q vl core after) : a.Emits b Q := by
  obtain ⟨ws, emitted, runs⟩ := h
  refine ⟨ws, emitted, fun sim vl configured => ?_⟩
  obtain ⟨after, run, kept, effect⟩ := runs sim vl configured
  exact ⟨after, run, kept, weaker vl _ _ effect⟩

/-- **What is emitted later is executed later.** -/
theorem Emits.trans (first : a.Emits b P) (second : b.Emits c Q) :
    a.Emits c fun vl core after => ∃ mid, P vl core mid ∧ Q vl mid after := by
  obtain ⟨ws, rfl, runs⟩ := first
  obtain ⟨ws', rfl, runs'⟩ := second
  refine ⟨ws ++ ws', append_append ws ws', fun sim vl configured => ?_⟩
  obtain ⟨mid, run, kept, effect⟩ := runs sim vl configured
  obtain ⟨after, run', kept', effect'⟩ := runs' mid vl kept
  refine ⟨after, ?_, kept', mid.core, effect, effect'⟩
  rw [Simulator.executeWords?_append, run]
  exact run'

/-- What is emitted in a scope of its own is emitted behind the code. -/
theorem Emits.inScope {body : Assembler → Assembler} (pools : ScratchPools)
    (h : { a with pools }.Emits (body a) P) : a.Emits (a.inScope body) P := by
  obtain ⟨ws, emitted, runs⟩ := h
  exact ⟨ws, inScope_eq_append emitted, runs⟩

/-- **The word of a vector instruction that writes registers alone** is executed. -/
theorem word_emits {f : Form} {ops : List Operand} (write : VectorLength → Registers → Registers)
    (encodes : Instruction.Encodes f .al ops) (plain : ∀ op ∈ ops, op.IsPlain) (vector : f.NeedsLength)
    (writes : ∀ vl core, Semantics.executeVector f vl ops core = Semantics.registersOnly core (write vl core.regs))
    (kept : ∀ vl r, (write vl r).vl = r.vl) :
    a.Emits (a.append [Instruction.word f .al ops]) fun vl core after =>
      ∃ pc, after = { core with regs := { write vl core.regs with pc } } := by
  refine ⟨_, rfl, fun sim vl configured => ?_⟩
  have done := (vector.execute .al ops configured).trans (writes vl sim.core)
  have run := Simulator.executeWord?_of_encodes encodes (fun op hop => (plain op hop).shaped) done
  rw [← Simulator.executeWords?_singleton] at run
  exact ⟨_, run, (kept vl sim.core.regs).trans configured, sim.nextPc, rfl⟩

/-- **A vector instruction on registers** that writes registers alone is emitted and executed. -/
theorem emit_registers {f : Form} {ops : List Operand} (write : VectorLength → Registers → Registers)
    (accepted : f.accepts ops = true) (registers : ∀ op ∈ ops, op.IsRegister)
    (checks : ∀ c ∈ f.checks, c.Passes f ops) (vector : f.NeedsLength)
    (writes : ∀ vl core, Semantics.executeVector f vl ops core = Semantics.registersOnly core (write vl core.regs))
    (kept : ∀ vl r, (write vl r).vl = r.vl) :
    a.Emits (a.emit f.mnemonic ops) fun vl core after =>
      ∃ pc, after = { core with regs := { write vl core.regs with pc } } := by
  have plain : ∀ op ∈ ops, op.IsPlain := fun op hop => .register (registers op hop)
  have encodes := Instruction.Encodes.of_plain accepted plain checks
  rw [emit_of_encodes encodes]
  exact word_emits write encodes plain vector writes kept

end Assembler

end ArmToolkit.A64
