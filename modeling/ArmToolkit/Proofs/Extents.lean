import ArmToolkit.Proofs.Emitted
import ArmToolkit.Proofs.Frames

/-!
# `Proofs.Extents` — how far words can reach

Some words are only known to be encodings of a few mnemonics with a few first operands. What they leave alone follows from
that, wherever execution ends.

## Contents
- **Extents.** `Extent` bounds what may change: some registers, perhaps the flags, perhaps memory. `Core.Within` says that
  nothing else has changed.
- **Single words.** `Extent.Allows` looks at a mnemonic and at its first operand alone. A word that it allows stays within
  the extent, also where it faults (`Simulator.within_attempt`).
- **Words in order.** `Simulator.executeUntilFault` executes words until one faults; what stays within an extent word by
  word does so as a whole (`Simulator.within_executeUntilFault`).
-/

namespace ArmToolkit.A64

/-! ## Extents -/

/-- An instruction that neither sets the flags nor stores. -/
def Mnemonic.Quiet (m : Mnemonic) : Prop := m ∉ flagSetting ∧ m ∉ storing

instance (m : Mnemonic) : Decidable m.Quiet := inferInstanceAs (Decidable (_ ∧ _))

/-- **What may change**: the registers in some places, the flags, the memory. -/
structure Extent where
  place : Place → Prop
  flags : Prop
  memory : Prop

namespace Extent

variable (e : Extent)

/-- Whatever the operand names may change. -/
def Writes (op : Operand) : Prop := ∀ q, op.Names q → e.place q

/-- **An instruction that has no other way to change anything**, by its mnemonic and its first operand. -/
structure Allows (m : Mnemonic) (op : Operand) : Prop where
  writes : m ∉ Mnemonic.silent → e.Writes op
  flags : m ∈ Mnemonic.flagSetting → e.flags
  memory : m ∈ Mnemonic.storing → e.memory

/-- The word of an instruction that is allowed. -/
def AllowsWord (w : Word) : Prop :=
  ∃ m ops, Assembler.encode m ops = .ok w ∧ e.Allows m (arg ops 0)

variable {e}

/-- A quiet instruction can do no more than write its first operand. -/
theorem Allows.ofWrites {m : Mnemonic} {op : Operand} (writes : e.Writes op) (quiet : m.Quiet) : e.Allows m op :=
  ⟨fun _ => writes, fun sets => absurd sets quiet.1, fun stores => absurd stores quiet.2⟩

theorem writes_ofZ {code : Nat} {lane : Option LaneSize} (vector : e.place (.vector code)) :
    e.Writes (.ofZ ⟨code, lane⟩) := by
  intro q names
  cases q with
  | general code | stack => exact absurd names.1 Bool.false_ne_true
  | vector code =>
    obtain ⟨-, rfl⟩ := names
    exact vector
  | predicate code => exact OperandKind.noConfusion names.1

theorem writes_ofP {code : Nat} {lane : Option LaneSize} {q : Option Qualifier} (predicate : e.place (.predicate code)) :
    e.Writes (.ofP ⟨code, lane, q⟩) := by
  intro q names
  cases q with
  | general code | stack => exact absurd names.1 Bool.false_ne_true
  | vector code => exact names.1.elim OperandKind.noConfusion OperandKind.noConfusion
  | predicate code =>
    obtain ⟨-, rfl⟩ := names
    exact predicate

/-- Code 31 may be the stack pointer. -/
theorem writes_ofX {code : Nat} {width : Width} (general : e.place (.general code)) (last : code = 31 → e.place .stack) :
    e.Writes (.ofX ⟨code, width⟩) := by
  intro q names
  cases q with
  | general d =>
    obtain ⟨-, rfl⟩ := names
    exact general
  | stack => exact last names.2
  | vector d => cases width <;> exact names.1.elim OperandKind.noConfusion OperandKind.noConfusion
  | predicate d => cases width <;> exact OperandKind.noConfusion names.1

end Extent

/-- **Only what an extent covers has changed**, and the program counter. -/
structure Core.Within (e : Extent) (core after : Core) : Prop where
  general : ∀ code, ¬ e.place (.general code) → after.regs.read code .zero = core.regs.read code .zero
  stack : ¬ e.place .stack → after.regs.sp = core.regs.sp
  vector : ∀ code, ¬ e.place (.vector code) → after.regs.zBits code = core.regs.zBits code
  predicate : ∀ code, ¬ e.place (.predicate code) → after.regs.pBits code = core.regs.pBits code
  flags : ¬ e.flags → after.regs.flags = core.regs.flags
  memory : ¬ e.memory → after.mem = core.mem
  ffr : after.regs.ffr = core.regs.ffr
  length : after.regs.vl = core.regs.vl

namespace Core.Within

variable {e : Extent} {core mid after : Core}

theorem refl (e : Extent) (core : Core) : core.Within e core :=
  ⟨fun _ _ => rfl, fun _ => rfl, fun _ _ => rfl, fun _ _ => rfl, fun _ => rfl, fun _ => rfl, rfl, rfl⟩

theorem trans (first : core.Within e mid) (second : mid.Within e after) : core.Within e after where
  general code other := (second.general code other).trans (first.general code other)
  stack other := (second.stack other).trans (first.stack other)
  vector code other := (second.vector code other).trans (first.vector code other)
  predicate code other := (second.predicate code other).trans (first.predicate code other)
  flags other := (second.flags other).trans (first.flags other)
  memory other := (second.memory other).trans (first.memory other)
  ffr := second.ffr.trans first.ffr
  length := second.length.trans first.length

/-- A change of memory alone, as a fault makes one. -/
theorem withMemory {mem : Memory} (kept : ¬ e.memory → mem = core.mem) : core.Within e { core with mem } :=
  ⟨fun _ _ => rfl, fun _ => rfl, fun _ _ => rfl, fun _ _ => rfl, fun _ => rfl, kept, rfl, rfl⟩

/-- The frame of one instruction, in an extent that covers the place it writes. -/
theorem ofFrame {place : Option Place} {setsFlags : Bool} (frame : core.regs.Frame place setsFlags after.regs)
    (covered : ∀ q, place = some q → e.place q) (flags : setsFlags = true → e.flags)
    (memory : ¬ e.memory → after.mem = core.mem) : core.Within e after where
  general _ other := frame.read _ fun written => other (covered _ written)
  stack other := frame.sp fun written => other (covered _ written)
  vector _ other := frame.zBits _ fun written => other (covered _ written)
  predicate _ other := frame.pBits _ fun written => other (covered _ written)
  flags other := frame.flags (Bool.eq_false_iff.mpr fun sets => other (flags sets))
  memory := memory
  ffr := frame.ffr
  length := frame.vl

end Core.Within

/-! ## Single words -/

/-- What is encoded has the form of its mnemonic that accepts the operands. -/
theorem Assembler.encode_eq_ok {m : Mnemonic} {ops : List Operand} {cond : Condition} {w : Word}
    (encoded : encode m ops cond = .ok w) :
    ∃ f : Form, f.mnemonic = m ∧ Instruction.Encodes f cond ops ∧ w = Instruction.word f cond ops := by
  unfold encode Instruction.make at encoded
  split at encoded
  · cases encoded
  · split at encoded
    · rename_i f found
      obtain ⟨encodes, word⟩ :=
        Instruction.encode_form_eq_ok_iff.mp (show Instruction.encode ⟨some f, cond, ops⟩ = .ok w from encoded)
      have fits := List.find?_some (p := fun f : Form => f.mnemonic == m && f.accepts ops) found
      exact ⟨f, beq_iff_eq.mp (Bool.and_eq_true_iff.mp fits).1, encodes, word⟩
    · cases encoded

/-- A word that is allowed is that of an instruction. -/
theorem Extent.AllowsWord.decodes {e : Extent} {w : Word} (allowed : e.AllowsWord w) :
    ∃ inst, Instruction.decode w = .ok inst := by
  obtain ⟨m, ops, encoded, -⟩ := allowed
  obtain ⟨f, -, encodes, rfl⟩ := Assembler.encode_eq_ok encoded
  exact ⟨_, encodes.decode⟩

/-- **The register that is written is read back** from the word. -/
theorem Instruction.Encodes.destination {f : Form} {cond : Condition} {ops : List Operand} (h : Encodes f cond ops) :
    f.destination.place (arg (f.canonical ops) 0) = f.destination.place (arg ops 0) := by
  have table : ∀ f ∈ Form.all, f.destination ≠ .nothing → ∃ s ∈ f.slots[0]?, s.register?.isSome = true := by
    decide +kernel
  by_cases writes : f.destination = .nothing
  · rw [writes]
    rfl
  · obtain ⟨s, hs, named⟩ := table f (Form.mem_all f) writes
    obtain ⟨x, field⟩ := Option.isSome_iff_exists.mp named
    obtain ⟨op, at_0, -⟩ := Form.row_get (Form.accepts_iff.mp h.accepted) hs
    have fits := (h.keepsRegister hs x field).1
    rw [Form.arg_of_getElem? at_0] at fits ⊢
    have read : (f.canonical ops)[0]? = some (s.canonical (f.lane ops) (f.wordLane ops) op) := by
      rw [Form.canonical, List.getElem?_zipWith, show f.slots[0]? = some s from hs, at_0]
    have same : (arg (f.canonical ops) 0).reg = op.reg := by
      rw [Form.arg_of_getElem? read, Slot.reg_canonical field, Nat.mod_eq_of_lt fits]
    cases f.destination with
    | nothing => rfl
    | general c => exact congrArg c.place same
    | vector | predicate => exact congrArg (some ∘ _) same

namespace Simulator

variable {e : Extent} {sim : Simulator}

/-- **The simulator when a word has been tried**: behind its instruction, or where that has faulted. -/
def attempt (sim : Simulator) (w : Word) : Simulator :=
  match Instruction.decode w with
  | .error _ => sim
  | .ok inst => (sim.execute inst).sim

theorem attempt_of_executeWord? {after : Simulator} {w : Word} (done : sim.executeWord? w = some after) :
    sim.attempt w = after := by
  unfold executeWord? at done
  unfold attempt
  cases decoded : Instruction.decode w with
  | error why =>
    rw [decoded] at done
    cases done
  | ok inst =>
    rw [decoded] at done
    exact Option.some.inj (Option.ite_none_left_eq_some.mp done).2

/-- **A word that is allowed stays within the extent**, whether its instruction is done or faults. -/
theorem within_attempt {w : Word} (allowed : e.AllowsWord w) : sim.core.Within e (sim.attempt w).core := by
  obtain ⟨m, ops, encoded, allows⟩ := allowed
  obtain ⟨f, rfl, encodes, rfl⟩ := Assembler.encode_eq_ok encoded
  have performed : sim.attempt (Instruction.word f .al ops) = (sim.perform f ⟨some f, .al, f.canonical ops⟩).1 := by
    unfold attempt
    rw [encodes.decode]
    exact (execute_sim sim ⟨some f, .al, f.canonical ops⟩ rfl).1
  have covered : ∀ q, f.destination.place (arg ops 0) = some q → e.place q := by
    intro q written
    refine allows.writes (fun silent => ?_) q (Form.names_of_place encodes.accepted written)
    rw [Form.destination_of_silent f silent] at written
    cases written
  have effect := Semantics.effect_execute f .al (f.canonical ops) sim.core
  have memory : ¬ e.memory → f.stores = false := fun other =>
    Bool.eq_false_iff.mpr fun stores => other (allows.memory (Form.mem_storing f stores))
  rw [performed]
  unfold perform
  cases outcome : Semantics.execute f .al (f.canonical ops) sim.core with
  | done core flow =>
    have frame := Semantics.frame_execute outcome
    rw [encodes.destination] at frame
    have within : sim.core.Within e core := .ofFrame frame covered
      (fun sets => allows.flags (Form.mem_flagSetting f sets)) fun other => by
        have kept := effect.mem_eq (memory other)
        rwa [outcome] at kept
    -- the program counter is no part of an extent
    exact { within with }
  | fault why left =>
    rw [Semantics.core_of_fault outcome]
    refine .withMemory fun other => ?_
    have kept := effect.mem_eq (memory other)
    rwa [outcome] at kept

/-! ## Words in order -/

/-- **Executes words one after the other**, until the end or until one faults. -/
def executeUntilFault (sim : Simulator) : List Word → Simulator
  | [] => sim
  | w :: ws =>
    match sim.executeWord? w with
    | some after => after.executeUntilFault ws
    | none => sim.attempt w

/-- **Words that are allowed stay within the extent**, wherever execution ends. -/
theorem within_executeUntilFault {ws : List Word} (allowed : ∀ w ∈ ws, e.AllowsWord w) (sim : Simulator) :
    sim.core.Within e (sim.executeUntilFault ws).core := by
  induction ws generalizing sim with
  | nil => exact .refl e sim.core
  | cons w ws ih =>
    obtain ⟨first, rest⟩ := List.forall_mem_cons.mp allowed
    unfold executeUntilFault
    split
    · rename_i after done
      have tried : sim.core.Within e (sim.attempt w).core := within_attempt first
      rw [attempt_of_executeWord? done] at tried
      exact tried.trans (ih rest after)
    · exact within_attempt first

end Simulator

end ArmToolkit.A64
