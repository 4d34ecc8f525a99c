import ArmToolkit.Proofs.Emissions
import ArmToolkit.Proofs.MacroFrames

/-!
# `Proofs.Refusals` — what a call that records an error has emitted

A single instruction is emitted, or its error is recorded. A macro of several instructions goes on after one that cannot
be encoded, and takes nothing back: what was emitted before stays. Whoever assembles looks for errors at the end.

## Contents
- **Calls.** `EmittingCall`: an instruction, a branch to a label, or a macro, and the list of instructions that each of them
  comes to (`EmittingCall.emissions`).
- **Lists of emissions.** The words and the errors of a list, and that they are what is appended (`Assembler.Reports`).
- **Moves of immediates.** All of the words or none (`moveImmediate_whole`).
- **The result.** `Assembler.issue_reports`.
-/

namespace ArmToolkit.A64

/-! ## Calls -/

/-- **A call that emits instructions.** -/
inductive EmittingCall
  | instruction (m : Mnemonic) (ops : List Operand) (cond : Condition)
  | prepared (inst : Instruction)
  | branch (m : Mnemonic) (ops : List Operand) (label : String) (cond : Condition)
  | expansion (call : MacroCall)

namespace Assembler

/-- The offset that a branch to a label is emitted with. -/
def offsetTo (a : Assembler) (name : String) : BitVec 64 :=
  match (a.label name).location with
  | some target => offsetBetween a.code.size target
  | none => 0

/-- Makes a call. -/
def issue (a : Assembler) : EmittingCall → Assembler
  | .instruction m ops cond => a.emit m ops cond
  | .prepared inst => a.emitInstruction inst
  | .branch m ops label cond => a.branch m ops label cond
  | .expansion call => a.expand call

end Assembler

namespace EmittingCall

/-- **The instructions of a call**, with what each of them comes to. -/
def emissions (a : Assembler) : EmittingCall → List Emission
  | instruction m ops cond => [.ofOperands m ops cond]
  | prepared inst => [inst.encode.mapError .encode]
  | branch m ops name cond => [.ofOperands m (ops ++ [.label (a.offsetTo name)]) cond]
  | expansion call => call.emissions a.pools

/-- **A call that emits nothing where it records an error**: it comes to at most one instruction, or moves an immediate. -/
def IsWhole (a : Assembler) (call : EmittingCall) : Prop :=
  (call.emissions a).length ≤ 1 ∨ ∃ rd imm, call = expansion (.moveImmediate rd imm)

end EmittingCall

/-! ## Lists of emissions -/

namespace Emission

/-- The words of a list of emissions. -/
def words : List Emission → List Word
  | [] => []
  | .ok w :: es => w :: words es
  | .error _ :: es => words es

/-- The errors of a list of emissions behind some number of words. -/
def errors (n : Nat) : List Emission → List RecordedError
  | [] => []
  | .ok _ :: es => errors (n + 1) es
  | .error why :: es => ⟨n, why⟩ :: errors n es

theorem eq_ok_of_mem_words {result : Except EncodeError Word} {w : Word}
    (emitted : w ∈ words [result.mapError .encode]) : result = .ok w := by
  cases result with
  | ok w' => rw [List.mem_singleton.mp emitted]
  | error why => cases emitted

/-- A list of one emission has a word or an error. -/
theorem words_eq_nil_of_errors {es : List Emission} {n : Nat} (short : es.length ≤ 1) (some : errors n es ≠ []) :
    words es = [] := by
  match es with
  | [] => rfl
  | [.error why] => rfl
  | [.ok w] => exact absurd rfl some
  | _ :: _ :: _ => simp at short

end Emission

namespace Assembler

variable {a b : Assembler} {call : MacroCall}

/-- **What emissions leave**: the scratch registers and the scopes as they were, and the words and errors behind what was
    there. The labels change only where a word is emitted. -/
structure Reports (a : Assembler) (es : List Emission) (b : Assembler) : Prop where
  pools : b.pools = a.pools
  scopes : b.scopes = a.scopes
  code : b.code = a.code ++ Emission.words es
  errors : b.errors = a.errors ++ Emission.errors a.code.size es
  labels : Emission.words es = [] → b.labels = a.labels

theorem reports_foldl (a : Assembler) (es : List Emission) : a.Reports es (es.foldl report a) := by
  -- by the emissions that are left: each error counts the words in front of it
  induction es generalizing a with
  | nil => exact ⟨rfl, rfl, by simp [Emission.words], by simp [Emission.errors], fun _ => rfl⟩
  | cons e es ih =>
    cases e with
    | ok w =>
      obtain ⟨pools, scopes, code, errors, labels⟩ := ih (a.dc32 w)
      refine ⟨pools, scopes, ?_, ?_, fun none => nomatch none⟩
      · rw [List.foldl_cons]
        exact code.trans (by simp [dc32, Emission.words])
      · rw [List.foldl_cons]
        exact errors.trans (by simp [dc32, Emission.errors])
    | error why =>
      obtain ⟨pools, scopes, code, errors, labels⟩ := ih (a.record why)
      refine ⟨pools, scopes, code, ?_, labels⟩
      rw [List.foldl_cons]
      exact errors.trans (by simp [record, Emission.errors])

/-- **A branch** reports like an instruction. It touches its label only where it is emitted. -/
theorem reports_branch (a : Assembler) (m : Mnemonic) (ops : List Operand) (name : String) (cond : Condition) :
    a.Reports [.ofOperands m (ops ++ [.label (a.offsetTo name)]) cond] (a.branch m ops name cond) := by
  unfold branch offsetTo
  dsimp only
  cases (a.label name).location with
  | some target =>
    show a.Reports _ (a.emitResult _)
    rw [emitResult_eq]
    exact reports_foldl a [_]
  | none =>
    unfold Emission.ofOperands
    cases encode m (ops ++ [.label 0]) cond with
    | error why => exact reports_foldl a [.error (.encode why)]
    | ok w =>
      obtain ⟨pools, scopes, code, errors, -⟩ := reports_foldl a [.ok w]
      exact ⟨pools, scopes, code, errors, fun none => nomatch none⟩

/-- **A call appends the words and the errors of its instructions.** -/
theorem reports_issue (a : Assembler) (call : EmittingCall) : a.Reports (call.emissions a) (a.issue call) := by
  cases call with
  | instruction m ops cond =>
    show a.Reports _ (a.emitResult _)
    rw [emitResult_eq]
    exact reports_foldl a [_]
  | prepared inst =>
    show a.Reports _ (a.emitResult _)
    rw [emitResult_eq]
    exact reports_foldl a [_]
  | branch m ops name cond => exact reports_branch a m ops name cond
  | expansion call =>
    show a.Reports _ (a.expand call)
    rw [expand_eq]
    exact reports_foldl a _

/-! ## Moves of immediates -/

/-- **A part that records no error**, from any assembler. -/
def Completes (body : Assembler → Assembler) : Prop := ∀ a, ∃ ws, body a = a.append ws

/-- **A part that emits nothing**, from any assembler. -/
def Refuses (body : Assembler → Assembler) : Prop := ∀ a, (body a).code = a.code

theorem Completes.andThen {f g : Assembler → Assembler} (first : Completes f) (second : Completes g) :
    Completes fun a => g (f a) := by
  intro a
  obtain ⟨ws, emitted⟩ := first a
  obtain ⟨ws', emitted'⟩ := second (a.append ws)
  refine ⟨ws ++ ws', ?_⟩
  show g (f a) = _
  rw [emitted, emitted', append_append]

theorem Refuses.andThen {f g : Assembler → Assembler} (first : Refuses f) (second : Refuses g) :
    Refuses fun a => g (f a) := fun a => (second (f a)).trans (first a)

/-- An instruction whose first operand is a register that does not exist is refused. -/
theorem refuses_emit {f : Form} {ops : List Operand} {s : Slot} (accepted : f.accepts ops = true)
    (first : f.slots[0]? = some s) (named : s.register?.isSome = true)
    (missing : Form.registerFault? (arg ops 0) ≠ none) : Refuses fun a => a.emit f.mnemonic ops := by
  intro a
  show (a.emitResult (encode f.mnemonic ops .al)).code = _
  cases encoded : encode f.mnemonic ops .al with
  | error why => rfl
  | ok w =>
    rw [encode_of_accepts accepted] at encoded
    obtain ⟨encodes, -⟩ := Instruction.encode_form_eq_ok_iff.mp encoded
    exact absurd (encodes.registerFault? first named) missing

/-- **An immediate is moved by all of its words or by none**: a register that does not exist is in all of them. -/
theorem moveImmediate_whole (rd : XReg) (imm : BitVec 64) :
    Completes (fun a => a.moveImmediate rd imm) ∨ Refuses fun a => a.moveImmediate rd imm := by
  -- the register is the first operand of every instruction of the move
  by_cases hrd : rd.code < 32
  · refine .inl (moveImmediate_of_parts .andThen (fun op p fits a => ?_) (fun imm encoded a => ?_) imm)
    · exact ⟨_, emit_of_encodes (fits.encodes op hrd)⟩
    · exact ⟨_, emit_of_encodes (mask_encodes hrd imm encoded)⟩
  · have missing : ∀ ops, Form.registerFault? (arg (.ofX rd :: ops) 0) ≠ none := by
      intro ops
      obtain ⟨code, width⟩ := rd
      cases width <;> simp [arg, Operand.ofX, Form.registerFault?, Nat.not_lt.mp hrd]
    refine .inr (moveImmediate_of_parts .andThen (fun op p fits => ?_) (fun imm encoded => ?_) imm)
    · obtain ⟨code, width⟩ := rd
      have accepted : (Form.moveWide op width).accepts (moveOps16 ⟨code, width⟩ p) = true := by cases width <;> rfl
      exact refuses_emit accepted rfl rfl (missing _)
    · obtain ⟨code, width⟩ := rd
      have accepted : (Form.logicalImm .orr width).accepts (maskOps ⟨code, width⟩ (width.cut imm)) = true := by
        cases width <;> rfl
      exact refuses_emit accepted rfl rfl (missing _)

/-! ## The result -/

theorem decodes_of_encode {m : Mnemonic} {ops : List Operand} {cond : Condition} {w : Word}
    (encoded : encode m ops cond = .ok w) : ∃ inst, Instruction.decode w = .ok inst := by
  obtain ⟨f, -, encodes, rfl⟩ := encode_eq_ok encoded
  exact ⟨_, encodes.decode⟩

theorem words_inj {code : Array Word} {ws ws' : List Word} (same : code ++ ws = code ++ ws') : ws = ws' := by
  simpa using congrArg Array.toList same

/-- **All that a call emits is instructions.** -/
theorem decodes_of_mem_words {call : EmittingCall} {w : Word} (emitted : w ∈ Emission.words (call.emissions a)) :
    ∃ inst, Instruction.decode w = .ok inst := by
  cases call with
  | instruction m ops cond => exact decodes_of_encode (Emission.eq_ok_of_mem_words emitted)
  | prepared inst =>
    obtain ⟨f, -, encodes, rfl⟩ := Instruction.encode_eq_ok_iff.mp (Emission.eq_ok_of_mem_words emitted)
    exact ⟨_, encodes.decode⟩
  | branch m ops name cond => exact decodes_of_encode (Emission.eq_ok_of_mem_words emitted)
  | expansion call =>
    obtain ⟨issues, -⟩ := a.issues_expand call
    obtain ⟨ws, code, allowed⟩ := issues.words
    have appended : a.code ++ Emission.words (call.emissions a.pools) = a.code ++ ws :=
      (a.reports_issue (.expansion call)).code.symm.trans code
    rw [← words_inj appended] at allowed
    exact (allowed w emitted).decodes

/-- **What a call that records an error has emitted.** Every call emits each of its instructions or records its error, one
    after the other, and takes nothing back: the words and the errors are appended in their order, each error with the
    number of words before it. The scratch registers and the scopes are as they were, and all words are instructions. A call
    of at most one instruction, or the move of an immediate, emits nothing if it records an error, and leaves the labels
    alone. -/
theorem issue_reports (a : Assembler) (call : EmittingCall) :
    (a.issue call).pools = a.pools ∧ (a.issue call).scopes = a.scopes ∧
    (a.issue call).code = a.code ++ Emission.words (call.emissions a) ∧
    (a.issue call).errors = a.errors ++ Emission.errors a.code.size (call.emissions a) ∧
    (∀ w ∈ Emission.words (call.emissions a), ∃ inst, Instruction.decode w = .ok inst) ∧
    (call.IsWhole a → a.errors.length < (a.issue call).errors.length →
      (a.issue call).code = a.code ∧ (a.issue call).labels = a.labels) := by
  obtain ⟨pools, scopes, code, errors, labels⟩ := a.reports_issue call
  refine ⟨pools, scopes, code, errors, fun w emitted => decodes_of_mem_words emitted, fun whole grown => ?_⟩
  -- a call that has grown the errors has one of its own
  have some : Emission.errors a.code.size (call.emissions a) ≠ [] := by
    intro none
    rw [errors, none, List.append_nil] at grown
    exact absurd grown (Nat.lt_irrefl _)
  have nothing : Emission.words (call.emissions a) = [] := by
    rcases whole with short | ⟨rd, imm, rfl⟩
    · exact Emission.words_eq_nil_of_errors short some
    · rcases moveImmediate_whole rd imm with completes | refuses
      · obtain ⟨ws, emitted⟩ := completes a
        have same : (a.issue (.expansion (.moveImmediate rd imm))).errors = a.errors := congrArg (·.errors) emitted
        rw [same] at grown
        exact absurd grown (Nat.lt_irrefl _)
      · have same : (a.issue (.expansion (.moveImmediate rd imm))).code = a.code := refuses a
        exact words_inj (code.symm.trans (same.trans (by simp)))
  refine ⟨?_, labels nothing⟩
  rw [code, nothing]
  simp

/-- A difference of sets that has to save a source, with no vector scratch register: an error, and no code. -/
theorem issue_reports_exhausted :
    let a : Assembler := ({} : Assembler).excludeScratch .vector 31
    let z (code : Nat) : ZReg := ⟨code, some .s⟩
    let b := a.issue (.expansion (.predicated .bic (z 4) ⟨0, none, none⟩ (z 1) (z 4)))
    b.errors ≠ [] ∧ b.code = #[] ∧ b.pools = a.pools := by
  intro a z b
  let call : EmittingCall := .expansion (.predicated .bic (z 4) ⟨0, none, none⟩ (z 1) (z 4))
  have one : (call.emissions a).length = 1 := by decide
  have recorded : b.errors.length = 1 := by decide
  obtain ⟨pools, -, -, -, -, whole⟩ := issue_reports a call
  obtain ⟨nothing, -⟩ := whole (.inl (Nat.le_of_eq one)) (Nat.lt_of_lt_of_eq Nat.zero_lt_one recorded.symm)
  exact ⟨List.ne_nil_of_length_pos (by rw [recorded]; exact Nat.zero_lt_one), nothing, pools⟩

/-- **A macro of two instructions is not emitted as a whole**: there is no division of bytes, but the copy in front of it
    has been emitted when that is found. -/
theorem issue_divided :
    let a : Assembler := {}
    let z (code : Nat) : ZReg := ⟨code, some .b⟩
    let b := a.issue (.expansion (.predicated .sdiv (z 0) ⟨0, none, none⟩ (z 1) (z 2)))
    a.errors.length < b.errors.length ∧ b.code ≠ a.code := by
  intro a z b
  have recorded : b.errors.length = 1 := rfl
  have emitted : b.code.size = 1 := rfl
  refine ⟨by rw [recorded]; decide, fun same => ?_⟩
  rw [same] at emitted
  cases emitted

end Assembler

end ArmToolkit.A64
