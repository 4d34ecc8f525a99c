import ArmToolkit.A64.MacroCall
import ArmToolkit.Proofs.Extents
import ArmToolkit.Proofs.LaneWrites
import ArmToolkit.Proofs.ScratchPools

/-!
# `Proofs.MacroFrames` — what macros leave alone

A macro takes scratch registers, emits other macros and looks at aliases, immediates and pools on its way. Which words it
emits depends on all of these; which registers these words can write does not.

## Contents
- **Parts of macros.** `Extent.Admits`: from any assembler whose pools are within an extent, a part of a macro emits words
  that the extent allows. `Extent.Covers`: it also puts back all scratch registers. The parts are put together with
  `Covers.andThen`, `Admits.withScratch` and `Covers.inScope`.
- **Pieces.** One lemma for each function that macros are made of.
- **Macros.** What a macro is meant to change (`MacroCall.destination?`, `MacroCall.setsFlags`, `MacroCall.stores`), and
  that it changes nothing else but what was in the pools (`Assembler.expand_framed`).
-/

namespace ArmToolkit.A64

/-! ## Parts of macros -/

/-- **One assembler is the other with words behind its code** that an extent allows. There may be fewer scratch registers,
    and further errors. -/
structure Assembler.Issues (a : Assembler) (e : Extent) (b : Assembler) : Prop where
  words : ∃ ws : List Word, b.code = a.code ++ ws ∧ ∀ w ∈ ws, e.AllowsWord w
  errors : ∃ es : List RecordedError, b.errors = a.errors ++ es
  pools : ∀ c code, b.pools.has c code = true → a.pools.has c code = true
  scopes : b.scopes = a.scopes
  labels : b.labels = a.labels

namespace Assembler.Issues

variable {e : Extent} {a b c : Assembler}

theorem refl (e : Extent) (a : Assembler) : a.Issues e a :=
  ⟨⟨[], by simp, by simp⟩, ⟨[], (List.append_nil _).symm⟩, fun _ _ pooled => pooled, rfl, rfl⟩

theorem trans (first : a.Issues e b) (second : b.Issues e c) : a.Issues e c := by
  obtain ⟨ws, code, allowed⟩ := first.words
  obtain ⟨ws', code', allowed'⟩ := second.words
  obtain ⟨es, errors⟩ := first.errors
  obtain ⟨es', errors'⟩ := second.errors
  refine ⟨⟨ws ++ ws', ?_, ?_⟩, ⟨es ++ es', by rw [errors', errors, List.append_assoc]⟩,
    fun d n pooled => first.pools d n (second.pools d n pooled), second.scopes.trans first.scopes,
    second.labels.trans first.labels⟩
  · rw [code', code]
    exact Array.ext' (by simp)
  · intro w mem
    rcases List.mem_append.mp mem with mem | mem
    · exact allowed w mem
    · exact allowed' w mem

end Assembler.Issues

namespace Extent

variable {e : Extent}

/-- **A scratch register that may change.** A general one may be written at either width. -/
def Offers (e : Extent) : ScratchClass → Nat → Prop
  | .general, code => ∀ width, e.Writes (.ofX ⟨code, width⟩)
  | .vector, code => e.place (.vector code)
  | .predicate, code | .governing, code => e.place (.predicate code)

/-- All scratch registers may change. -/
def Grants (e : Extent) (pools : ScratchPools) : Prop := ∀ c code, pools.has c code = true → e.Offers c code

/-- **A part of a macro emits what an extent allows**, whatever scratch registers of the extent there are. It may keep some
    of these for itself. -/
def Admits (e : Extent) (body : Assembler → Assembler) : Prop :=
  ∀ a : Assembler, e.Grants a.pools → a.Issues e (body a)

/-- **A part of a macro that puts back all scratch registers**, also where there were too few of them. -/
structure Covers (e : Extent) (body : Assembler → Assembler) : Prop where
  admits : e.Admits body
  pools : ∀ a : Assembler, (body a).pools = a.pools

section

variable {first second : Assembler → Assembler} {P : Prop} [Decidable P]

theorem Admits.andThen (h : e.Admits first) (h' : e.Admits second) : e.Admits fun a => second (first a) := by
  intro a grants
  have issued := h a grants
  exact issued.trans (h' _ fun c code pooled => grants c code (issued.pools c code pooled))

theorem Admits.ite (h : e.Admits first) (h' : e.Admits second) : e.Admits fun a => if P then first a else second a := by
  by_cases holds : P
  · simpa only [if_pos holds] using h
  · simpa only [if_neg holds] using h'

theorem Covers.nothing : e.Covers fun a => a := ⟨fun a _ => .refl e a, fun _ => rfl⟩

theorem Covers.andThen (h : e.Covers first) (h' : e.Covers second) : e.Covers fun a => second (first a) :=
  ⟨h.admits.andThen h'.admits, fun a => (h'.pools (first a)).trans (h.pools a)⟩

theorem Covers.ite (h : e.Covers first) (h' : e.Covers second) :
    e.Covers fun a => if P then first a else second a where
  admits := h.admits.ite h'.admits
  pools a := by
    split
    · exact h.pools a
    · exact h'.pools a

end

theorem covers_dc32 {w : Word} (allowed : e.AllowsWord w) : e.Covers fun a => a.dc32 w where
  admits _ _ :=
    ⟨⟨[w], by simp [Assembler.dc32], by simpa using allowed⟩, ⟨[], (List.append_nil _).symm⟩, fun _ _ pooled => pooled,
      rfl, rfl⟩
  pools _ := rfl

/-- An error emits nothing. -/
theorem covers_record (why : AssemblyError) : e.Covers fun a => a.record why where
  admits _ _ := ⟨⟨[], by simp [Assembler.record], by simp⟩, ⟨[_], rfl⟩, fun _ _ pooled => pooled, rfl, rfl⟩
  pools _ := rfl

theorem covers_emit {m : Mnemonic} {op : Operand} (allows : e.Allows m op) (ops : List Operand) :
    e.Covers fun a => a.emit m (op :: ops) := by
  unfold Assembler.emit
  cases encoded : Assembler.encode m (op :: ops) with
  | ok w => exact covers_dc32 ⟨m, op :: ops, encoded, allows⟩
  | error why => exact covers_record (.encode why)

/-- An encoding that was tried out is allowed as its instruction is. -/
theorem allowsWord_of_tryEncode? {m : Mnemonic} {op : Operand} {ops : List Operand} {w : Word} (allows : e.Allows m op)
    (tried : Assembler.tryEncode? m (op :: ops) = some w) : e.AllowsWord w := by
  unfold Assembler.tryEncode? at tried
  cases encoded : Assembler.encode m (op :: ops) with
  | ok v =>
    rw [encoded] at tried
    cases tried
    exact ⟨m, op :: ops, encoded, allows⟩
  | error why =>
    rw [encoded] at tried
    cases tried

/-- **A scratch register is one that may change**, and nothing is emitted where there is none. -/
theorem Admits.withScratch {c : ScratchClass} {body : Nat → Assembler → Assembler}
    (h : ∀ code, e.Offers c code → e.Admits (body code)) : e.Admits fun a => a.withScratch c body := by
  intro a grants
  show a.Issues e (a.withScratch c body)
  unfold Assembler.withScratch Assembler.acquire
  cases lowest : a.pools.lowest? c with
  | none => exact (covers_record (.exhausted c)).admits a grants
  | some code =>
    have taken : a.Issues e { a with pools := a.pools.remove c code } :=
      ⟨⟨[], by simp, by simp⟩, ⟨[], (List.append_nil _).symm⟩, fun _ _ => ScratchPools.has_of_remove, rfl, rfl⟩
    have offered := grants c code (ScratchPools.lowest?_spec lowest).1
    exact taken.trans (h code offered _ fun d n pooled => grants d n (ScratchPools.has_of_remove pooled))

/-- A scope puts back what was taken in it. -/
theorem Covers.inScope {body : Assembler → Assembler} (h : e.Admits body) : e.Covers fun a => a.inScope body where
  admits a grants :=
    ⟨(h a grants).words, (h a grants).errors, fun _ _ pooled => pooled, (h a grants).scopes, (h a grants).labels⟩
  pools _ := rfl

/-! ## Pieces -/

/-! ### Moves -/

section Moves

variable {rd : XReg}

theorem covers_moveImmediate (writes : e.Writes (.ofX rd)) (imm : BitVec 64) :
    e.Covers fun a => a.moveImmediate rd imm :=
  Assembler.moveImmediate_of_parts Covers.andThen
    (fun op _ _ => covers_emit (.ofWrites writes (by cases op <;> decide)) _)
    (fun _ _ => covers_emit (.ofWrites writes (by decide)) _) imm

theorem covers_moveRegister (writes : e.Writes (.ofX rd)) (rm : XReg) : e.Covers fun a => a.moveRegister rd rm :=
  covers_emit (.ofWrites writes (by decide)) _

theorem covers_moveVector {zd : ZReg} (place : e.place (.vector zd.code)) (zn : ZReg) :
    e.Covers fun a => a.moveVector zd zn :=
  .ite .nothing (covers_emit (.ofWrites (writes_ofZ place) (by decide)) _)

theorem covers_movePredicate {pd : PReg} (place : e.place (.predicate pd.code)) (pn : PReg) :
    e.Covers fun a => a.movePredicate pd pn :=
  .ite .nothing (covers_emit (.ofWrites (writes_ofP place) (by decide)) _)

end Moves

/-! ### Two vectors -/

section Vectors

variable {zd : ZReg}

/-- A vector instruction that writes its first operand alone. -/
theorem covers_emitZ {m : Mnemonic} (place : e.place (.vector zd.code)) (quiet : m.Quiet) (ops : List Operand) :
    e.Covers fun a => a.emit m (.ofZ zd :: ops) :=
  covers_emit (.ofWrites (writes_ofZ place) quiet) ops

theorem covers_copyActive (place : e.place (.vector zd.code)) (pg : PReg) (zn : ZReg) :
    e.Covers fun a => a.copyActive zd pg zn :=
  covers_emitZ place (by decide) _

theorem covers_copyWhole (place : e.place (.vector zd.code)) (zn : ZReg) : e.Covers fun a => a.copyWhole zd zn :=
  .ite .nothing (covers_emit (.ofWrites (writes_ofZ place) (by decide)) _)

theorem covers_zeroInactive (place : e.place (.vector zd.code)) (pg : PReg) : e.Covers fun a => a.zeroInactive zd pg :=
  .ite (covers_copyActive place _ _) .nothing

theorem covers_predicated (place : e.place (.vector zd.code)) (op : PredicatedOp) (pg : PReg) (zn zm : ZReg) :
    e.Covers fun a => a.predicated op zd pg zn zm :=
  covers_emitZ place (by cases op <;> decide) _

theorem covers_predicatedBinary (place : e.place (.vector zd.code)) (op : PredicatedOp) (pg : PReg) (zn zm : ZReg) :
    e.Covers fun a => a.predicatedBinary op zd pg zn zm := by
  have cleared := covers_zeroInactive place pg
  have copied := covers_copyActive place pg.governing zn
  unfold Assembler.predicatedBinary
  cases DestructiveForm.select zd.code zn.code zm.code op.commutes op.reversed?.isSome with
  | destructive | swapped | reversed => exact cleared.andThen (covers_predicated place _ _ _ _)
  | copied => exact copied.andThen (covers_predicated place _ _ _ _)
  | saved =>
    exact .inScope (.withScratch fun code offered =>
      (((covers_moveVector offered zm).andThen copied).andThen (covers_predicated place _ _ _ _)).admits)

theorem covers_unpredicatedBinary (place : e.place (.vector zd.code)) (op : UnpredicatedOp) (zn zm : ZReg) :
    e.Covers fun a => a.unpredicatedBinary op zd zn zm :=
  covers_emitZ place (by cases op <;> decide) _

theorem covers_multiplyAccumulate (place : e.place (.vector zd.code)) (negated : Bool) (pg : PReg) (za zn zm : ZReg) :
    e.Covers fun a => a.multiplyAccumulate negated zd pg za zn zm := by
  have accumulate : ∀ ops, e.Covers fun a => a.emit (if negated then .mls else .mla) (.ofZ zd :: ops) :=
    covers_emitZ place (by cases negated <;> decide)
  have multiply : ∀ ops, e.Covers fun a => a.emit (if negated then .msb else .mad) (.ofZ zd :: ops) :=
    covers_emitZ place (by cases negated <;> decide)
  exact .ite (accumulate _) (.ite (multiply _) (.ite (multiply _) ((covers_copyActive place _ _).andThen (accumulate _))))

end Vectors

/-! ### Immediates -/

section Immediates

variable {zd : ZReg} {lane : Option LaneSize} {imm : BitVec 64} {w : Word}

theorem Admits.acquireForLane {body : XReg → Assembler → Assembler}
    (h : ∀ tmp, e.Writes (.ofX tmp) → e.Admits (body tmp)) : e.Admits fun a => a.acquireForLane lane body :=
  .withScratch fun _ offered => h _ (offered _)

/-- The word of a byte immediate is that of an instruction. -/
theorem allowsWord_of_byteImmediate? {m : Mnemonic} {op : Operand} {ops : List Operand} (allows : e.Allows m op)
    (found : Assembler.byteImmediate? m (op :: ops) lane imm = some w) : e.AllowsWord w := by
  obtain ⟨_, _, tried, -⟩ := Assembler.byteImmediate?_eq_some found
  exact allowsWord_of_tryEncode? allows tried

theorem covers_dup (place : e.place (.vector zd.code)) (imm : BitVec 64) : e.Covers fun a => a.dup zd imm := by
  have allows : ∀ m : Mnemonic, m.Quiet → e.Allows m (.ofZ zd) := fun m quiet => .ofWrites (writes_ofZ place) quiet
  unfold Assembler.dup
  dsimp only
  generalize laneSigned zd.lane imm = value
  cases found : Assembler.byteImmediate? .dup [.ofZ zd] zd.lane value <|>
      Assembler.tryEncode? .dupm [.ofZ zd, .ofImm value] with
  | some w =>
    refine covers_dc32 ?_
    rcases (Option.orElse_eq_some _ _ _).mp found with byte | ⟨-, mask⟩
    · exact allowsWord_of_byteImmediate? (allows .dup (by decide)) byte
    · exact allowsWord_of_tryEncode? (allows .dupm (by decide)) mask
  | none =>
    exact .inScope (.acquireForLane fun tmp writes =>
      ((covers_moveImmediate writes _).andThen (covers_emit (allows .dup (by decide)) _)).admits)

theorem Admits.withVectorImmediate {body : ZReg → Assembler → Assembler}
    (h : ∀ tmp : ZReg, e.place (.vector tmp.code) → e.Admits (body tmp)) :
    e.Admits fun a => a.withVectorImmediate lane imm body := by
  refine .withScratch fun code offered => ?_
  have loaded : e.Covers fun a => a.dup ⟨code, lane⟩ imm := covers_dup offered imm
  exact loaded.admits.andThen (h ⟨code, lane⟩ offered)

/-- An operation that overwrites the destination with an immediate. -/
theorem allowsWord_of_destructiveImmediate? (place : e.place (.vector zd.code)) {op : ImmediateOp}
    (found : Assembler.destructiveImmediate? op zd imm = some w) : e.AllowsWord w :=
  allowsWord_of_byteImmediate? (.ofWrites (writes_ofZ place) (by cases op <;> decide)) found

theorem covers_synthesizedImmediate (place : e.place (.vector zd.code)) (op : ImmediateOp) (zn : ZReg) (imm : BitVec 64) :
    e.Covers fun a => a.synthesizedImmediate op zd zn imm := by
  unfold Assembler.synthesizedImmediate
  refine .inScope (.withVectorImmediate fun tmp _ => ?_)
  cases op.unpredicated? with
  | some unpredicated => exact (covers_unpredicatedBinary place unpredicated zn tmp).admits
  | none =>
    refine .withScratch fun code offered => ?_
    have activated : e.Covers fun a => a.emit .ptrue [.ofP ⟨code, zd.lane, none⟩, .ofPattern 31] :=
      covers_emit (.ofWrites (writes_ofP offered) (by decide)) _
    have operated : ∀ ops, e.Covers fun a => a.emit op.op.mnemonic (.ofZ zd :: ops) :=
      covers_emitZ place (by cases op <;> decide)
    exact ((activated.andThen (covers_copyWhole place zn)).andThen (operated _)).admits

theorem covers_wideImmediate (place : e.place (.vector zd.code)) (op : ImmediateOp) (zn : ZReg) (imm : BitVec 64) :
    e.Covers fun a => a.wideImmediate op zd zn imm := by
  unfold Assembler.wideImmediate
  dsimp only
  generalize Assembler.wideOperand op zd.lane imm = operand
  cases found : Assembler.destructiveImmediate? op zd operand <|> Assembler.negatedImmediate? op zd operand with
  | some w =>
    refine (covers_copyWhole place zn).andThen (covers_dc32 ?_)
    rcases (Option.orElse_eq_some _ _ _).mp found with plain | ⟨-, negated⟩
    · exact allowsWord_of_destructiveImmediate? place plain
    · obtain ⟨_, -, found⟩ := Option.bind_eq_some_iff.mp negated
      exact allowsWord_of_destructiveImmediate? place found
  | none => exact covers_synthesizedImmediate place op zn operand

theorem covers_logicalImmediate (place : e.place (.vector zd.code)) (op : BitmaskOp) (zn : ZReg) (imm : BitVec 64) :
    e.Covers fun a => a.logicalImmediate op zd zn imm := by
  have quiet : op.op.mnemonic.Quiet := by cases op <;> decide
  unfold Assembler.logicalImmediate
  dsimp only
  generalize laneUnsigned zd.lane imm = value
  cases tried : Assembler.tryEncode? op.op.mnemonic [.ofZ zd, .ofZ zd, .ofImm value] with
  | some w =>
    have allowed := allowsWord_of_tryEncode? (.ofWrites (writes_ofZ place) quiet) tried
    exact (covers_copyWhole place zn).andThen (covers_dc32 allowed)
  | none =>
    exact .inScope (.withVectorImmediate fun tmp _ => (covers_emit (.ofWrites (writes_ofZ place) quiet) _).admits)

theorem covers_cpy (place : e.place (.vector zd.code)) (pg : PReg) (imm : BitVec 64) :
    e.Covers fun a => a.cpy zd pg imm := by
  unfold Assembler.cpy
  dsimp only
  generalize laneSigned zd.lane imm = value
  cases found : Assembler.byteImmediate? .cpy [.ofZ zd, .ofP pg.governing] zd.lane value with
  | some w => exact covers_dc32 (allowsWord_of_byteImmediate? (.ofWrites (writes_ofZ place) (by decide)) found)
  | none =>
    exact .inScope (.acquireForLane fun tmp writes => (((covers_moveImmediate writes value).andThen
      (covers_zeroInactive place pg)).andThen (covers_emitZ place (by decide) _)).admits)

theorem covers_insr (place : e.place (.vector zd.code)) (imm : BitVec 64) : e.Covers fun a => a.insr zd imm :=
  .inScope (.acquireForLane fun _ writes =>
    ((covers_moveImmediate writes imm).andThen (covers_emitZ place (by decide) _)).admits)

theorem Admits.withIndexTerm {body : Operand → Assembler → Assembler} (h : ∀ op, e.Admits (body op)) :
    e.Admits fun a => a.withIndexTerm lane imm body :=
  .ite (h _) (.acquireForLane fun _ writes => (covers_moveImmediate writes imm).admits.andThen (h _))

theorem covers_index (place : e.place (.vector zd.code)) (start step : BitVec 64) :
    e.Covers fun a => a.index zd start step :=
  .inScope (.withIndexTerm fun _ => .withIndexTerm fun _ => (covers_emitZ place (by decide) _).admits)

end Immediates

/-! ### Predicates -/

section Predicates

variable {pd : PReg}

/-- A compare sets the flags. -/
theorem allows_relation (place : e.place (.predicate pd.code)) (flags : e.flags) (rel : Relation) :
    e.Allows rel.mnemonic (.ofP pd) :=
  ⟨fun _ => writes_ofP place, fun _ => flags, fun stores => absurd stores (by cases rel <;> decide)⟩

theorem covers_compare (place : e.place (.predicate pd.code)) (flags : e.flags) (rel : Relation) (pg : PReg)
    (zn zm : ZReg) : e.Covers fun a => a.compare rel pd pg zn zm := by
  unfold Assembler.compare
  cases rel.swapped? with
  | some swapped => exact covers_emit (allows_relation place flags swapped) _
  | none => exact covers_emit (allows_relation place flags rel) _

theorem covers_compareImmediate (place : e.place (.predicate pd.code)) (flags : e.flags) (rel : Relation) (pg : PReg)
    (zn : ZReg) (imm : BitVec 64) : e.Covers fun a => a.compareImmediate rel pd pg zn imm := by
  unfold Assembler.compareImmediate
  cases tried : Assembler.tryEncode? rel.mnemonic [.ofP pd, .ofP pg.zeroing, .ofZ zn, .ofImm imm] with
  | some w => exact covers_dc32 (allowsWord_of_tryEncode? (allows_relation place flags rel) tried)
  | none => exact .inScope (.withVectorImmediate fun tmp _ => (covers_compare place flags rel pg zn tmp).admits)

theorem covers_onPredicateCopy {m : Mnemonic} (place : e.place (.predicate pd.code)) (flags : e.flags)
    (loads : m ∉ Mnemonic.storing) (lane : Option LaneSize) (pg pn : PReg) :
    e.Covers fun a => a.onPredicateCopy m lane pd pg pn := by
  have last : ∀ ops, e.Covers fun a => a.emit m (.ofP (pd.withLane lane) :: ops) :=
    covers_emit ⟨fun _ => writes_ofP place, fun _ => flags, fun stores => absurd stores loads⟩
  have copied := covers_movePredicate place pn
  have saved : ∀ code, e.place (.predicate code) → e.Covers fun a => a.movePredicate ⟨code, none, none⟩ pg :=
    fun code offered => covers_movePredicate offered pg
  exact .ite (.inScope (.withScratch fun code offered => (((saved code offered).andThen copied).andThen (last _)).admits))
    (copied.andThen (last _))

end Predicates

/-! ### Memory -/

theorem covers_moveAddress {addr : XReg} (writes : e.Writes (.ofX addr)) (src : XReg) (steps : List Int) :
    e.Covers fun a => Assembler.moveAddress addr a src steps := by
  induction steps generalizing src with
  | nil => exact .nothing
  | cons step steps ih => exact (covers_emit (.ofWrites writes (by decide)) _).andThen (ih addr)

theorem covers_transferAt {m : Mnemonic} {rt : Operand} (allows : e.Allows m rt) (base : XReg) (offset unit : Int) :
    e.Covers fun a => a.transferAt m rt base offset unit :=
  .ite (covers_emit allows _) (.inScope (.withScratch fun _ offered =>
    ((covers_moveAddress (offered _) base _).andThen (covers_emit allows _)).admits))

end Extent

/-! ## Macros -/

namespace MacroCall

/-- **The register that a macro is meant to write**; a store writes none. -/
def destination? : MacroCall → Option Place
  | moveImmediate rd _ | moveRegister rd _ => some (.general rd.code)
  | moveVector zd _ | predicated _ zd _ _ _ | unpredicated _ zd _ _ | multiplyAccumulate _ zd _ _ _ _
  | immediate _ zd _ _ | bitmask _ zd _ _ | dup zd _ | cpy zd _ _ | insr zd _ | index zd _ _
  | transferVector .load zd _ _ => some (.vector zd.code)
  | movePredicate pd _ | compare _ pd _ _ _ | compareImmediate _ pd _ _ _ | pfirst pd _ _ | pnext pd _ _
  | transferPredicate .load pd _ _ => some (.predicate pd.code)
  | transferVector .store _ _ _ | transferPredicate .store _ _ _ => none

/-- No macro is meant to write the stack pointer. -/
theorem destination?_ne_stack (call : MacroCall) : call.destination? ≠ some .stack := by
  intro written
  unfold destination? at written
  split at written <;> cases written

/-- Whether a macro is meant to set the flags. -/
def setsFlags : MacroCall → Bool
  | compare _ _ _ _ _ | compareImmediate _ _ _ _ _ | pfirst _ _ _ | pnext _ _ _ => true
  | _ => false

/-- Whether a macro is meant to store. -/
def stores : MacroCall → Bool
  | transferVector .store _ _ _ | transferPredicate .store _ _ _ => true
  | _ => false

/-- **What a macro may change**: what it is meant to write, and what is in the pools. -/
def extent (call : MacroCall) (pools : ScratchPools) : Extent where
  place
    | .general code => call.destination? = some (.general code) ∨ pools.has .general code = true
    | .stack => False
    | .vector code => call.destination? = some (.vector code) ∨ pools.has .vector code = true
    | .predicate code => call.destination? = some (.predicate code) ∨ pools.has .predicate code = true
  flags := call.setsFlags = true
  memory := call.stores = true

end MacroCall

/-- The first operand of a load is written, and that of a store is not. -/
theorem Extent.allows_access {e : Extent} {access : Access} {rt : Operand} (loads : access = .load → e.Writes rt)
    (stores : access = .store → e.memory) : e.Allows access.mnemonic rt := by
  cases access with
  | load => exact .ofWrites (loads rfl) (by decide)
  | store => exact ⟨fun loud => absurd (by decide) loud, fun sets => absurd sets (by decide), fun _ => stores rfl⟩

/-- **Every macro emits what its extent allows.** -/
theorem Extent.covers_expand {e : Extent} {call : MacroCall} (place : ∀ q, call.destination? = some q → e.place q)
    (last : call.destination? = some (.general 31) → e.place .stack) (flags : call.setsFlags = true → e.flags)
    (memory : call.stores = true → e.memory) : e.Covers fun a => a.expand call := by
  have general : ∀ rd : XReg, call.destination? = some (.general rd.code) → e.Writes (.ofX rd) :=
    fun rd written => writes_ofX (place _ written) fun code => last (code ▸ written)
  -- one lemma for each macro; what a load or a store needs of the extent depends on the direction
  cases call with
  | moveImmediate rd imm => exact covers_moveImmediate (general rd rfl) imm
  | moveRegister rd rm => exact covers_moveRegister (general rd rfl) rm
  | moveVector zd zn => exact covers_moveVector (place _ rfl) zn
  | movePredicate pd pn => exact covers_movePredicate (place _ rfl) pn
  | predicated op zd pg zn zm => exact covers_predicatedBinary (place _ rfl) op pg zn zm
  | unpredicated op zd zn zm => exact covers_unpredicatedBinary (place _ rfl) op zn zm
  | multiplyAccumulate negated zd pg za zn zm => exact covers_multiplyAccumulate (place _ rfl) negated pg za zn zm
  | immediate op zd zn imm => exact covers_wideImmediate (place _ rfl) op zn imm
  | bitmask op zd zn imm => exact covers_logicalImmediate (place _ rfl) op zn imm
  | dup zd imm => exact covers_dup (place _ rfl) imm
  | cpy zd pg imm => exact covers_cpy (place _ rfl) pg imm
  | compare rel pd pg zn zm => exact covers_compare (place _ rfl) (flags rfl) rel pg zn zm
  | compareImmediate rel pd pg zn imm => exact covers_compareImmediate (place _ rfl) (flags rfl) rel pg zn imm
  | pfirst pd pg pn | pnext pd pg pn => exact covers_onPredicateCopy (place _ rfl) (flags rfl) (by decide) _ pg pn
  | insr zdn imm => exact covers_insr (place _ rfl) imm
  | index zd start step => exact covers_index (place _ rfl) start step
  | transferVector access zt base offset =>
    refine covers_transferAt (allows_access (fun load => ?_) fun store => ?_) base _ 1
    · subst load
      exact writes_ofZ (place _ rfl)
    · subst store
      exact memory rfl
  | transferPredicate access pt base offset =>
    refine covers_transferAt (allows_access (fun load => ?_) fun store => ?_) base _ 8
    · subst load
      exact writes_ofP (place _ rfl)
    · subst store
      exact memory rfl

/-- The extent in which everything may change. -/
def Extent.whole : Extent := ⟨fun _ => True, True, True⟩

namespace Assembler

variable {a : Assembler} {call : MacroCall}

/-- **Every macro emits instructions**, and puts back all scratch registers. -/
theorem issues_expand (a : Assembler) (call : MacroCall) :
    a.Issues .whole (a.expand call) ∧ (a.expand call).pools = a.pools := by
  have covers : Extent.whole.Covers fun a => a.expand call :=
    Extent.covers_expand (fun _ _ => trivial) (fun _ => trivial) (fun _ => trivial) fun _ => trivial
  have grants : Extent.whole.Grants a.pools := by
    intro c code _
    cases c with
    | general => exact fun _ _ _ => trivial
    | vector | predicate | governing => trivial
  exact ⟨covers.admits a grants, covers.pools a⟩

/-- **What a macro leaves alone.** Its destination, if it is a general register, has a code below 31, and so have the
    general scratch registers. Whether or not the macro records an error: what it emits are instructions, and executing these
    in order, from any state, until the end or until one faults, changes no register but the program counter, the destination
    and those that were in the pools when the macro was called. Only compares and the macros for the first and the next lane
    set the flags, and only stores change memory. -/
theorem expand_framed (general : ∀ code, call.destination? = some (.general code) → code < 31)
    (pooled : ∀ code, a.pools.has .general code = true → code < 31) :
    ∃ ws : List Word, (a.expand call).code = a.code ++ ws ∧ (∀ w ∈ ws, ∃ inst, Instruction.decode w = .ok inst) ∧
      ∀ sim : Simulator,
      let before := sim.core
      let after := (sim.executeUntilFault ws).core
      (∀ code, call.destination? ≠ some (.general code) → a.pools.has .general code = false →
        after.regs.read code .zero = before.regs.read code .zero) ∧
      (∀ code, call.destination? ≠ some (.vector code) → a.pools.has .vector code = false →
        after.regs.zBits code = before.regs.zBits code) ∧
      (∀ code, call.destination? ≠ some (.predicate code) → a.pools.has .predicate code = false →
        after.regs.pBits code = before.regs.pBits code) ∧
      (call.setsFlags = false → after.regs.flags = before.regs.flags) ∧
      (call.stores = false → after.mem = before.mem) ∧
      after.regs.sp = before.regs.sp ∧ after.regs.ffr = before.regs.ffr ∧ after.regs.vl = before.regs.vl := by
  let e := call.extent a.pools
  have place : ∀ q, call.destination? = some q → e.place q := by
    intro q written
    cases q with
    | general | vector | predicate => exact .inl written
    | stack => exact absurd written call.destination?_ne_stack
  -- what is in the pools is in the extent, so a macro may use any of it
  have grants : e.Grants a.pools := by
    intro c code has
    cases c with
    | general => exact fun width => Extent.writes_ofX (.inr has) fun last => absurd (pooled code has) (by omega)
    | vector | predicate | governing => exact .inr has
  have covers : e.Covers fun a => a.expand call :=
    Extent.covers_expand place (fun last => absurd (general 31 last) (by decide)) id id
  obtain ⟨ws, code, allowed⟩ := (covers.admits a grants).words
  refine ⟨ws, code, fun w mem => (allowed w mem).decodes, fun sim => ?_⟩
  have within := Simulator.within_executeUntilFault allowed sim
  have outside : ∀ {P : Prop} {b : Bool}, ¬ P → b = false → ¬ (P ∨ b = true) := by
    rintro P b unwritten unpooled (written | has)
    · exact unwritten written
    · exact Bool.noConfusion (unpooled.symm.trans has)
  refine ⟨fun code other unpooled => within.general code (outside other unpooled),
    fun code other unpooled => within.vector code (outside other unpooled),
    fun code other unpooled => within.predicate code (outside other unpooled),
    fun keeps => within.flags (Bool.eq_false_iff.mp keeps), fun loads => within.memory (Bool.eq_false_iff.mp loads),
    within.stack id, within.ffr, within.length⟩

/-- The first active lane added to a predicate that governs as well, and is saved in a scratch predicate before. -/
theorem expand_framed_pfirst :
    let a : Assembler := ({} : Assembler).includeScratch .predicate 15
    let p (code : Nat) : PReg := ⟨code, none, none⟩
    let call : MacroCall := .pfirst (p 3) (p 3) (p 4)
    (a.expand call).errors = [] ∧ ∃ ws : List Word, (a.expand call).code = a.code ++ ws ∧ ∀ sim : Simulator,
      let before := sim.core
      let after := (sim.executeUntilFault ws).core
      (∀ code, code < 16 → after.regs.read code .zero = before.regs.read code .zero) ∧
      (∀ code, code < 31 → after.regs.zBits code = before.regs.zBits code) ∧
      (∀ code, code ≠ 3 → code < 15 → after.regs.pBits code = before.regs.pBits code) ∧
      after.mem = before.mem ∧ after.regs.sp = before.regs.sp := by
  have recorded : ((({} : Assembler).includeScratch .predicate 15).expand
      (.pfirst ⟨3, none, none⟩ ⟨3, none, none⟩ ⟨4, none, none⟩)).errors = [] := rfl
  intro a p call
  have pooled : ∀ code, a.pools.has .general code = true → code < 31 := by
    have table : ∀ code < 32, a.pools.has .general code = true → code < 31 := by decide
    exact fun code has => table code (BitVec.lt_of_getLsbD has) has
  have general : ∀ code < 16, a.pools.has .general code = false := by decide
  have vector : ∀ code < 31, a.pools.has .vector code = false := by decide
  have predicate : ∀ code < 15, a.pools.has .predicate code = false := by decide
  have unwritten : ∀ code, call.destination? = some (.general code) → code < 31 := by
    intro code written
    cases written
  obtain ⟨ws, code, -, framed⟩ := expand_framed unwritten pooled
  refine ⟨recorded, ws, code, fun sim => ?_⟩
  obtain ⟨generals, vectors, predicates, -, mem, sp, -⟩ := framed sim
  refine ⟨fun code low => generals code ?_ (general code low), fun code low => vectors code ?_ (vector code low),
    fun code other low => predicates code ?_ (predicate code low), mem rfl, sp⟩
  · exact fun written => by cases written
  · exact fun written => by cases written
  · intro written
    cases written
    exact other rfl

end Assembler

end ArmToolkit.A64
