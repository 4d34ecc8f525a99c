import ArmToolkit.Proofs.Reachable

/-!
# `Proofs.Frames` — what an instruction leaves alone

## Contents
- **The flags register.** It holds the flags in its top four bits, whatever is written to it (`Flags.word_ofWord`).
- **Places.** `Registers.Frame`: all registers but one are as they were, and the flags unless they are set. Each way of
  writing a register has its frame.
- **Forms.** Which register a form writes (`Form.destination`) and whether it sets the flags (`Form.setsFlags`). No
  instruction does more (`Semantics.frame_execute`).
- **Operands.** The register that is written is the one that the first operand names (`Form.names_of_place`).
- **Simulators.** `Simulator.execute_framed` says what an instruction leaves alone by its mnemonic and its operands.
-/

namespace ArmToolkit.Flags

/-! ## The flags register -/

/-- The flags stand in the top four bits of their register. -/
theorem word_and_low (flags : Flags) : flags.word &&& 0x0fffffff = 0 := by
  obtain ⟨n, z, c, v⟩ := flags
  revert n z c v
  decide

/-- **What is written to the flags register** keeps its top four bits. -/
theorem word_ofWord (w : BitVec 32) : (ofWord w).word = w &&& 0xf0000000 := by
  have top : ∀ k : BitVec 4,
      (Flags.mk (k.getLsbD 3) (k.getLsbD 2) (k.getLsbD 1) (k.getLsbD 0)).word = (k ++ 0#28 : BitVec 32) := by decide
  have mask : ∀ j < 32, (0xf0000000 : BitVec 32).getLsbD j = decide (28 ≤ j) := by decide
  have same : ofWord w = ⟨(w.extractLsb' 28 4).getLsbD 3, (w.extractLsb' 28 4).getLsbD 2, (w.extractLsb' 28 4).getLsbD 1,
      (w.extractLsb' 28 4).getLsbD 0⟩ := by
    simp [ofWord]
  rw [same, top]
  apply BitVec.eq_of_getLsbD_eq
  intro j hj
  rw [BitVec.getLsbD_and, mask j hj, BitVec.getLsbD_append]
  by_cases low : j < 28
  · simp [low, Nat.not_le.mpr low]
  · have high : j - 28 < 4 := by omega
    simp [low, Nat.not_lt.mp low, high, Nat.add_sub_cancel' (Nat.not_lt.mp low)]

end ArmToolkit.Flags

namespace ArmToolkit.A64

open Text (Byte)

/-! ## Places -/

/-- **A register that an instruction can write**, apart from flags and program counter. -/
inductive Place
  | general (code : Nat)
  | stack
  | vector (code : Nat)
  | predicate (code : Nat)
  deriving DecidableEq

/-- The place that a general register is written in. -/
def Code31.place (c : Code31) (code : Nat) : Option Place :=
  if code = 31 then
    match c with
    | .zero => none
    | .stack => some .stack
  else some (.general code)

/-- **What is done with the first operand** of an instruction: it may be the register that is written. -/
inductive Destination
  | nothing
  | general (c : Code31)
  | vector
  | predicate
  deriving DecidableEq

/-- The place that is written, for the first operand. -/
def Destination.place (d : Destination) (op : Operand) : Option Place :=
  match d with
  | nothing => none
  | general c => c.place op.reg
  | vector => some (.vector op.reg)
  | predicate => some (.predicate op.reg)

theorem Code31.place_eq_some {c : Code31} {code : Nat} {q : Place} (h : c.place code = some q) :
    (code = 31 ∧ c = .stack ∧ q = .stack) ∨ (code ≠ 31 ∧ q = .general code) := by
  unfold place at h
  by_cases last : code = 31
  · rw [if_pos last] at h
    cases c <;> cases h
    exact .inl ⟨last, rfl, rfl⟩
  · rw [if_neg last] at h
    cases h
    exact .inr ⟨last, rfl⟩

namespace Registers

/-- **All registers but the one in a place are as they were**, and the flags unless they are set. -/
structure Frame (place : Option Place) (setsFlags : Bool) (r after : Registers) : Prop where
  read : ∀ code, place ≠ some (.general code) → after.read code .zero = r.read code .zero
  sp : place ≠ some .stack → after.sp = r.sp
  zBits : ∀ code, place ≠ some (.vector code) → after.zBits code = r.zBits code
  pBits : ∀ code, place ≠ some (.predicate code) → after.pBits code = r.pBits code
  flags : setsFlags = false → after.flags = r.flags
  ffr : after.ffr = r.ffr
  vl : after.vl = r.vl

namespace Frame

variable {place : Option Place} {setsFlags : Bool} {r after : Registers}

/-- The stack pointer is read as code 31. -/
theorem read_stack (h : Frame place setsFlags r after) {code : Nat} (general : place ≠ some (.general code))
    (stack : place ≠ some .stack) : after.read code .stack = r.read code .stack := by
  by_cases last : code = 31
  · unfold Registers.read
    rw [if_pos last, if_pos last]
    exact h.sp stack
  · have same := h.read code general
    unfold Registers.read at same ⊢
    rwa [if_neg last, if_neg last] at same ⊢

theorem refl (place : Option Place) (setsFlags : Bool) (r : Registers) : Frame place setsFlags r r where
  read _ _ := rfl
  sp _ := rfl
  zBits _ _ := rfl
  pBits _ _ := rfl
  flags _ := rfl
  ffr := rfl
  vl := rfl

/-- A frame allows flags to be set before the register is written. -/
theorem ofFlags {flags : Flags} (h : Frame place setsFlags { r with flags } after) : Frame place true r after where
  read := h.read
  sp := h.sp
  zBits := h.zBits
  pBits := h.pBits
  flags := Bool.noConfusion
  ffr := h.ffr
  vl := h.vl

/-- A frame allows flags to be set after the register is written. -/
theorem withFlags (h : Frame place setsFlags r after) (flags : Flags) : Frame place true r { after with flags } where
  read := h.read
  sp := h.sp
  zBits := h.zBits
  pBits := h.pBits
  flags := Bool.noConfusion
  ffr := h.ffr
  vl := h.vl

/-- Writing a general register writes one place. -/
theorem write (r : Registers) (op : Operand) (value : BitVec 64) (c : Code31) (setsFlags : Bool) :
    Frame ((Destination.general c).place op) setsFlags r (r.write op.reg value c) := by
  show Frame (c.place op.reg) setsFlags r _
  unfold Code31.place Registers.write
  by_cases last : op.reg = 31
  · rw [if_pos last, if_pos last]
    cases c with
    | zero => exact refl ..
    | stack =>
      exact ⟨fun _ _ => rfl, fun moved => absurd rfl moved, fun _ _ => rfl, fun _ _ => rfl, fun _ => rfl, rfl, rfl⟩
  · rw [if_neg last, if_neg last]
    refine ⟨?_, fun _ => rfl, fun _ _ => rfl, fun _ _ => rfl, fun _ => rfl, rfl, rfl⟩
    intro d other
    have apart : op.reg ≠ d := fun same => other (congrArg (some ∘ Place.general) same)
    by_cases inFile : d < 31
    · simp [Registers.read, Array.getD, inFile, apart]
    · simp [Registers.read, Array.getD, inFile]

theorem setZ (r : Registers) (code : Nat) (v : ZBits) (setsFlags : Bool) :
    Frame (some (.vector code)) setsFlags r (r.setZ code v) := by
  refine ⟨fun _ _ => rfl, fun _ => rfl, ?_, fun _ _ => rfl, fun _ => rfl, rfl, rfl⟩
  intro d other
  rw [zBits_setZ, if_neg fun same => other (congrArg (some ∘ Place.vector) same.1)]

theorem setP (r : Registers) (code : Nat) (v : PBits) (setsFlags : Bool) :
    Frame (some (.predicate code)) setsFlags r (r.setP code v) := by
  refine ⟨fun _ _ => rfl, fun _ => rfl, fun _ _ => rfl, ?_, fun _ => rfl, rfl, rfl⟩
  intro d other
  rw [pBits_setP, if_neg fun same => other (congrArg (some ∘ Place.predicate) same.1)]

end Frame

end Registers

/-! ## Forms -/

namespace Form

/-- **What a form writes.** -/
def destination : Form → Destination
  | branch | branchCond | compareBranch _ _ | ret | hlt | nop | writeFlags | transfer .store _ | transferScalar .store _
  | transferP .store | transferZ .store | st1 _ | ptest | cterm _ => .nothing
  | addSubImm op _ => .general (destination31 op.setsFlags)
  | logicalImm op _ => .general (destination31 (op == .ands))
  | addvl => .general .stack
  | moveWide _ _ | addSubShifted _ _ | logicalShifted _ _ | readFlags | transfer .load _ | moveFromScalar _ | rdvl
  | elementCount _ _ | cntp | countX _ | countW _ | countExtended _ => .general .zero
  | compare _ | compareUnsigned _ | compareSigned _ | predicateLogic _ | pfirst | pnext | pfalse | ptrue _
  | transferP .load => .predicate
  | transferScalar .load _ | moveToScalar _ | moveElement | predicated _ | reduction _ | multiplyAdd _ | multiplyInto _
  | unpredicated _ | permute _ | bitwise _ | movprfx | movprfxPredicated | index _ _ | dupScalar | insrScalar | insrSimd
  | rev | dupIndex | sel | cpyScalar | cpySimd | cpyImm | bitmask _ | dupm | immediate _ | dupImm | countZ _
  | transferZ .load | ld1 _ => .vector

/-- **Whether a form sets the flags.** -/
def setsFlags : Form → Bool
  | addSubImm op _ | addSubShifted op _ => op.setsFlags
  | logicalShifted op _ | logicalImm op _ => op == .ands
  | predicateLogic op => op == .ands
  | ptrue sets => sets
  | writeFlags | compare _ | compareUnsigned _ | compareSigned _ | ptest | pfirst | pnext | cterm _ => true
  | _ => false

end Form

namespace Semantics

open Registers (Frame)

theorem frame_writeSum {n : Nat} (op : AddSubOp) (rd : Operand) (c : Code31) (sum : BitVec n × Flags) (r : Registers) :
    r.Frame ((Destination.general c).place rd) op.setsFlags (writeSum op rd c sum r) := by
  unfold writeSum
  cases op.setsFlags with
  | true => exact (Frame.write _ _ _ _ true).ofFlags
  | false => exact Frame.write ..

theorem frame_writeLogical {n : Nat} (op : LogicalOp) (rd : Operand) (c : Code31) (a b : BitVec n) (r : Registers) :
    r.Frame ((Destination.general c).place rd) (op == .ands) (writeLogical op rd c a b r) := by
  unfold writeLogical
  cases op with
  | ands => exact (Frame.write _ _ _ _ true).ofFlags
  | and | orr | eor => exact Frame.write ..

/-- A predicate that is written with the flags that describe it. -/
theorem frame_setTested (vl : VectorLength) (r : Registers) (l : LaneSize) (pd : Nat) (governing result : PBits) :
    r.Frame (some (.predicate pd)) true (setTested vl r l pd governing result) :=
  (Frame.setP r pd result false).withFlags _

/-- The registers after a load are those that its bytes make. -/
theorem loading_done {core after : Core} {address : BitVec 64} {n : Nat} {use : List Byte → Registers}
    (done : loading core address n use = .done after) : ∃ bytes, after.regs = use bytes := by
  unfold loading at done
  split at done <;> cases done
  exact ⟨_, rfl⟩

/-- A store leaves the registers as they are. -/
theorem storing_done {core after : Core} {address : BitVec 64} {bytes : List Byte}
    (done : storing core address bytes = .done after) : after.regs = core.regs := by
  unfold storing at done
  split at done <;> cases done
  rfl

theorem storeLanes_done {l : LaneSize} {v : ZBits} {base : BitVec 64} {core after : Core} {lanes : List Nat}
    (done : storeLanes l v base core lanes = .done after) : after.regs = core.regs := by
  induction lanes generalizing core with
  | nil =>
    cases done
    rfl
  | cons i lanes ih =>
    unfold storeLanes at done
    split at done
    · rename_i stored
      exact (ih done).trans (storing_done stored)
    · cases done

theorem outcome_done {t : TransferResult} {after : Core} {flow : Flow} (done : t.outcome = .done after flow) :
    t = .done after := by
  cases t <;> cases done
  rfl

section

variable {f : Form} {vl : VectorLength} {ops : List Operand} {core after : Core} {flow : Flow}

/-- The frame of a vector instruction. -/
theorem frame_executeVector (vector : f.isVector = true) (done : executeVector f vl ops core = .done after flow) :
    core.regs.Frame (f.destination.place (arg ops 0)) f.setsFlags after.regs := by
  -- transfers may fault, and are done after that; the others write the register of their form or the flags
  cases f with
  | transferP a | transferZ a =>
    have done := outcome_done done
    cases a with
    | load =>
      obtain ⟨bytes, regs⟩ := loading_done done
      rw [regs]
      first | exact Frame.setP .. | exact Frame.setZ ..
    | store =>
      rw [storing_done done]
      exact Frame.refl ..
  | ld1 e =>
    have done := outcome_done done
    unfold loadElements at done
    dsimp only at done
    split at done <;> cases done
    exact Frame.setZ ..
  | st1 e =>
    rw [storeLanes_done (outcome_done done)]
    exact Frame.refl ..
  | unpredicated op | bitwise op =>
    cases done
    rw [unpredicated_eq_lanewise]
    exact Frame.setZ ..
  | predicateLogic op =>
    cases done
    cases op with
    | ands => exact frame_setTested ..
    | _ => exact Frame.setP ..
  | ptrue sets =>
    cases done
    cases sets with
    | true => exact frame_setTested ..
    | false => exact Frame.setP ..
  | compare | compareUnsigned | compareSigned | pfirst | pnext =>
    cases done
    exact frame_setTested ..
  | pfalse =>
    cases done
    exact Frame.setP ..
  | ptest | cterm =>
    cases done
    exact (Frame.refl none false core.regs).withFlags _
  | addvl | rdvl | elementCount | cntp | countX | countW | countExtended =>
    cases done
    exact Frame.write ..
  | predicated | reduction | multiplyAdd | multiplyInto | permute | movprfx | movprfxPredicated | index | dupScalar
  | insrScalar | insrSimd | rev | dupIndex | sel | cpyScalar | cpySimd | cpyImm | bitmask | dupm | immediate | dupImm
  | countZ =>
    cases done
    exact Frame.setZ ..
  | _ => cases vector

/-- **An instruction writes one register at most**, and sets the flags if its form does. -/
theorem frame_execute {cond : Condition} (done : execute f cond ops core = .done after flow) :
    core.regs.Frame (f.destination.place (arg ops 0)) f.setsFlags after.regs := by
  -- a vector instruction is done only where a length is configured
  by_cases vector : f.isVector = true
  · rw [Form.needsLength_of_isVector vector] at done
    split at done
    · exact frame_executeVector vector done
    · cases done
  · cases f with
    | addSubImm op | addSubShifted op =>
      cases done
      exact frame_writeSum ..
    | logicalShifted op =>
      cases done
      exact frame_writeLogical ..
    | logicalImm op =>
      cases done
      cases op <;> exact frame_writeLogical ..
    | transfer a | transferScalar a =>
      have done := outcome_done done
      cases a with
      | load =>
        obtain ⟨bytes, regs⟩ := loading_done done
        rw [regs]
        first | exact Frame.write .. | exact Frame.setZ ..
      | store =>
        rw [storing_done done]
        exact Frame.refl ..
    | moveWide | readFlags | moveFromScalar =>
      cases done
      exact Frame.write ..
    | moveToScalar | moveElement =>
      cases done
      exact Frame.setZ ..
    | writeFlags =>
      cases done
      exact (Frame.refl none false core.regs).withFlags _
    | branch | branchCond | compareBranch | ret | hlt | nop =>
      cases done
      exact Frame.refl ..
    | _ => exact absurd rfl vector

end

end Semantics

/-! ## Operands -/

/-- **The register that an operand names.** Code 31 may name the stack pointer. -/
def Operand.Names (op : Operand) : Place → Prop
  | .general code => op.isGeneral = true ∧ op.reg = code
  | .stack => op.isGeneral = true ∧ op.reg = 31
  | .vector code => (op.kind = .z ∨ op.kind = .v) ∧ op.reg = code
  | .predicate code => op.kind = .p ∧ op.reg = code

/-- The kinds of operands that name the register that is written. -/
def Destination.kinds : Destination → List OperandKind
  | nothing => []
  | general _ => [.x, .w]
  | vector => [.z, .v]
  | predicate => [.p]

namespace Form

variable {f : Form} {ops : List Operand}

/-- The first operand has the kind of the register that is written. -/
theorem kind_mem_destination (accepted : f.accepts ops = true) (writes : f.destination ≠ .nothing) :
    (arg ops 0).kind ∈ f.destination.kinds := by
  have table : ∀ f ∈ all, f.destination ≠ .nothing → ∃ s ∈ f.slots[0]?, ∀ k ∈ s.kinds, k ∈ f.destination.kinds := by
    decide +kernel
  obtain ⟨s, hs, kinds⟩ := table f (mem_all f) writes
  obtain ⟨op, at_0, takes⟩ := row_get (accepts_iff.mp accepted) hs
  rw [arg_of_getElem? at_0]
  exact kinds _ (Slot.accepts_kind takes)

/-- **The register that is written is the one that the first operand names.** -/
theorem names_of_place (accepted : f.accepts ops = true) {q : Place}
    (written : f.destination.place (arg ops 0) = some q) : (arg ops 0).Names q := by
  have writes : f.destination ≠ .nothing := by
    intro none
    rw [none] at written
    cases written
  have kind := kind_mem_destination accepted writes
  cases destination : f.destination with
  | nothing => exact absurd destination writes
  | general c =>
    rw [destination] at written kind
    have general : (arg ops 0).isGeneral = true := by
      unfold Operand.isGeneral
      simpa [Destination.kinds] using kind
    rcases Code31.place_eq_some written with ⟨last, -, rfl⟩ | ⟨-, rfl⟩
    · exact ⟨general, last⟩
    · exact ⟨general, rfl⟩
  | vector =>
    rw [destination] at written kind
    cases written
    exact ⟨by simpa [Destination.kinds] using kind, rfl⟩
  | predicate =>
    rw [destination] at written kind
    cases written
    exact ⟨by simpa [Destination.kinds] using kind, rfl⟩

/-- Whether a form may write the stack pointer. -/
def writesStack : Form → Bool
  | addSubImm op _ => op == .add || op == .sub
  | logicalImm op _ => op == .and || op == .orr || op == .eor
  | addvl => true
  | _ => false

theorem writesStack_of_place {op : Operand} (written : f.destination.place op = some .stack) : f.writesStack = true := by
  have table : ∀ f ∈ all, f.destination = .general .stack → f.writesStack = true := by decide +kernel
  apply table f (mem_all f)
  cases destination : f.destination with
  | general c =>
    rw [destination] at written
    rcases Code31.place_eq_some written with ⟨-, rfl, -⟩ | ⟨-, other⟩
    · rfl
    · cases other
  | nothing | vector | predicate =>
    rw [destination] at written
    cases written

end Form

/-! ## Simulators -/

namespace Mnemonic

/-- The instructions that set the flags. -/
def flagSetting : List Mnemonic :=
  [adds, subs, ands, msr, cmpeq, cmpne, cmpgt, cmpge, cmplt, cmple, cmphi, cmphs, cmplo, cmpls, ptest, ptrues, pfirst, pnext,
    ctermeq, ctermne]

/-- The instructions that store. -/
def storing : List Mnemonic := [str, strb, strh, st1b, st1h, st1w, st1d]

/-- The instructions that write no register. -/
def silent : List Mnemonic := storing ++ [b, bCond, cbz, cbnz, ret, hlt, nop, msr, ptest, ctermeq, ctermne]

end Mnemonic

namespace Form

theorem mem_flagSetting (f : Form) (sets : f.setsFlags = true) : f.mnemonic ∈ Mnemonic.flagSetting := by
  have table : ∀ f ∈ all, f.setsFlags = true → f.mnemonic ∈ Mnemonic.flagSetting := by decide +kernel
  exact table f (mem_all f) sets

theorem mem_storing (f : Form) (stores : f.stores = true) : f.mnemonic ∈ Mnemonic.storing := by
  have table : ∀ f ∈ all, f.stores = true → f.mnemonic ∈ Mnemonic.storing := by decide +kernel
  exact table f (mem_all f) stores

theorem destination_of_silent (f : Form) (silent : f.mnemonic ∈ Mnemonic.silent) : f.destination = .nothing := by
  have table : ∀ f ∈ all, f.mnemonic ∈ Mnemonic.silent → f.destination = .nothing := by decide +kernel
  exact table f (mem_all f) silent

end Form

namespace Simulator

/-- **What an instruction leaves alone**, by its form and its operands. -/
structure Framed (sim : Simulator) (f : Form) (ops : List Operand) (after : Simulator) : Prop where
  general : ∀ code, ¬ (arg ops 0).Names (.general code) → after.core.regs.read code .zero = sim.core.regs.read code .zero
  vector : ∀ code, ¬ (arg ops 0).Names (.vector code) → after.core.regs.zBits code = sim.core.regs.zBits code
  predicate : ∀ code, ¬ (arg ops 0).Names (.predicate code) → after.core.regs.pBits code = sim.core.regs.pBits code
  stack : after.core.regs.sp ≠ sim.core.regs.sp → (arg ops 0).Names .stack ∧ f.writesStack = true
  flags : after.core.regs.flags ≠ sim.core.regs.flags → f.mnemonic ∈ Mnemonic.flagSetting
  memory : after.core.mem ≠ sim.core.mem → f.mnemonic ∈ Mnemonic.storing
  ffr : after.core.regs.ffr = sim.core.regs.ffr
  length : after.core.regs.vl = sim.core.regs.vl
  silent : f.mnemonic ∈ Mnemonic.silent →
    (∀ code, after.core.regs.read code .zero = sim.core.regs.read code .zero) ∧
    (∀ code, after.core.regs.zBits code = sim.core.regs.zBits code) ∧
    ∀ code, after.core.regs.pBits code = sim.core.regs.pBits code

variable {sim : Simulator} {f : Form} {ops : List Operand} {core : Core} {flow : Flow}

/-- What is left alone is what the form and the kinds of its operands say. -/
theorem framed_of_done {cond : Condition} (accepted : f.accepts ops = true)
    (done : Semantics.execute f cond ops sim.core = .done core flow) : sim.Framed f ops (sim.advance core flow) := by
  have frame := Semantics.frame_execute done
  have apart : ∀ q, ¬ (arg ops 0).Names q → f.destination.place (arg ops 0) ≠ some q :=
    fun q other written => other (Form.names_of_place accepted written)
  have still : f.mnemonic ∈ Mnemonic.silent → ∀ q, f.destination.place (arg ops 0) ≠ some q := by
    intro silent q written
    rw [Form.destination_of_silent f silent] at written
    cases written
  refine ⟨fun _ other => frame.read _ (apart _ other), fun _ other => frame.zBits _ (apart _ other),
    fun _ other => frame.pBits _ (apart _ other), ?_, ?_, ?_, frame.ffr, frame.vl,
    fun silent => ⟨fun _ => frame.read _ (still silent _), fun _ => frame.zBits _ (still silent _),
      fun _ => frame.pBits _ (still silent _)⟩⟩
  · intro moved
    have written : f.destination.place (arg ops 0) = some .stack := Decidable.byContradiction fun other => moved (frame.sp other)
    exact ⟨Form.names_of_place accepted written, Form.writesStack_of_place written⟩
  · intro changed
    exact Form.mem_flagSetting f ((Bool.eq_false_or_eq_true _).resolve_right fun keeps => changed (frame.flags keeps))
  · intro changed
    refine Form.mem_storing f ((Bool.eq_false_or_eq_true _).resolve_right fun keeps => changed ?_)
    have mem := (Semantics.effect_execute f cond ops sim.core).mem_eq keeps
    rw [done] at mem
    exact mem

/-- **An instruction leaves everything alone** that its mnemonic and its first operand do not give away; and the flags
    register holds nothing but the flags, whatever is written to it. -/
theorem execute_framed :
    (∀ (sim : Simulator) inst w, Instruction.encode inst = .ok w → (sim.execute inst).failure = none →
      ∃ f, inst.form = some f ∧ sim.Framed f inst.ops (sim.execute inst).sim) ∧
      (∀ sim : Simulator, sim.Reachable → sim.core.regs.flags.word &&& 0x0fffffff = 0) ∧
      ∀ (sim : Simulator) inst, inst.form = some .writeFlags → (sim.execute inst).sim.core.regs.flags.word =
        (sim.core.regs.general (arg inst.ops 0) .zero).setWidth 32 &&& 0xf0000000 := by
  refine ⟨?_, fun _ _ => Flags.word_and_low _, ?_⟩
  · intro sim inst w encoded succeeds
    obtain ⟨f, form, passes, -⟩ := Instruction.encode_eq_ok_iff.mp encoded
    obtain ⟨same, failure⟩ := execute_sim sim inst form
    refine ⟨f, form, ?_⟩
    rw [same]
    rw [succeeds] at failure
    unfold perform at failure ⊢
    cases outcome : Semantics.execute f inst.cond inst.ops sim.core with
    | done core flow => exact framed_of_done passes.accepted outcome
    | fault why mem =>
      rw [outcome] at failure
      cases failure
  · intro sim inst form
    rw [(execute_sim sim inst form).1]
    exact Flags.word_ofWord _

/-- A general register that is copied to the lanes of a vector register leaves all others alone, and one that is copied to
    the flags register leaves its low bits clear. -/
theorem execute_framed_dup :
    let sim : Simulator := (Simulator.create ⟨128, 1, 0, false⟩).1
    let dup : Instruction := ⟨some .dupScalar, .al, [.ofZ ⟨3, some .s⟩, .ofX ⟨1, .w⟩]⟩
    let msr : Instruction := ⟨some .writeFlags, .al, [.ofX ⟨1, .x⟩]⟩
    ((∃ w, dup.encode = .ok w) ∧ (sim.execute dup).failure = none ∧
      ∀ code, code ≠ 3 → (sim.execute dup).sim.core.regs.zBits code = sim.core.regs.zBits code) ∧
      sim.core.regs.flags.word &&& 0x0fffffff = 0 ∧
      (sim.execute msr).sim.core.regs.flags.word = (sim.core.regs.read 1 .zero).setWidth 32 &&& 0xf0000000 := by
  intro sim dup msr
  have encoded : Instruction.encode ⟨some .dupScalar, .al, [.ofZ ⟨3, some .s⟩, .ofX ⟨1, .w⟩]⟩ = .ok 0x05a03823 := rfl
  have succeeds : (sim.execute dup).failure = none := by decide
  obtain ⟨framed, low, written⟩ := execute_framed
  refine ⟨⟨⟨_, encoded⟩, succeeds, ?_⟩, low sim (.create _), written sim msr rfl⟩
  intro code other
  obtain ⟨f, form, framed⟩ := framed sim dup _ encoded succeeds
  exact framed.vector code fun names => other names.2.symm

end Simulator

end ArmToolkit.A64
