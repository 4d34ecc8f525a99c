import ArmToolkit.A64.MacroCall

/-!
# `Proofs.Emissions` — a macro as the list of its instructions

A macro emits its instructions one after the other, and each of them on its own: an instruction that cannot be encoded is
recorded, and the macro goes on behind it. Only a scratch register that is not there ends a macro early. So a macro is a
list of words and errors, and this list depends on nothing of the assembler but its pools.

## Contents
- **Emissions.** `Emission` is what an instruction comes to, and `Assembler.report` emits or records it.
- **Parts of macros.** `Assembler.Performs`: a part of a macro does what its list says. `Assembler.PerformsScoped`: it does
  so but for the scratch registers that it keeps.
- **Lists.** The list of each function that macros are made of, with the theorem that the function performs it.
- **Macros.** `MacroCall.emissions`, and `Assembler.expand_eq`.
-/

namespace ArmToolkit.A64

open Assembler

/-! ## Emissions -/

/-- **What an instruction comes to**: its word, or why there is none. -/
abbrev Emission := Except AssemblyError Word

namespace Emission

/-- What the instruction of a mnemonic and operands comes to. -/
def ofOperands (m : Mnemonic) (ops : List Operand) (cond : Condition := .al) : Emission :=
  (encode m ops cond).mapError .encode

/-- The emissions of a part of a macro that takes a scratch register. There is nothing but an error where the pool is
    empty. -/
def taking (c : ScratchClass) (body : Nat → ScratchPools → List Emission) (pools : ScratchPools) : List Emission :=
  match pools.lowest? c with
  | some code => body code (pools.remove c code)
  | none => [.error (.exhausted c)]

end Emission

namespace Assembler

/-- Emits a word, or records why there is none. -/
def report (a : Assembler) : Emission → Assembler
  | .ok w => a.dc32 w
  | .error why => a.record why

theorem emitResult_eq (a : Assembler) (result : Except EncodeError Word) :
    a.emitResult result = a.report (result.mapError .encode) := by
  cases result <;> rfl

/-- Emissions leave the pools alone. -/
@[simp] theorem pools_foldl (a : Assembler) (es : List Emission) : (es.foldl report a).pools = a.pools := by
  induction es generalizing a with
  | nil => rfl
  | cons e es ih =>
    rw [List.foldl_cons, ih]
    cases e <;> rfl

theorem foldl_restored (a : Assembler) (es : List Emission) :
    { es.foldl report a with pools := a.pools } = es.foldl report a := by
  rw [← pools_foldl a es]

/-- Emissions do not depend on the pools. -/
theorem foldl_withPools (a : Assembler) (pools : ScratchPools) (es : List Emission) :
    es.foldl report { a with pools } = { es.foldl report a with pools } := by
  -- words and errors are recorded in other parts of the assembler than the pools
  induction es generalizing a with
  | nil => rfl
  | cons e es ih =>
    rw [List.foldl_cons, List.foldl_cons, ← ih]
    cases e <;> rfl

/-! ## Parts of macros -/

/-- **A part of a macro does what a list says**, which depends on the pools alone. -/
def Performs (f : Assembler → Assembler) (es : ScratchPools → List Emission) : Prop :=
  ∀ a, f a = (es a.pools).foldl report a

/-- **A part of a macro does what a list says**, but for the scratch registers that it keeps. -/
def PerformsScoped (f : Assembler → Assembler) (es : ScratchPools → List Emission) : Prop :=
  Performs (fun a => a.inScope f) es

section

variable {f g : Assembler → Assembler} {es es' : ScratchPools → List Emission}

theorem Performs.scoped (h : Performs f es) : PerformsScoped f es := by
  intro a
  show { f a with pools := a.pools } = _
  rw [h a, foldl_restored]

theorem Performs.nothing : Performs (fun a => a) fun _ => [] := fun _ => rfl

theorem performs_dc32 (w : Word) : Performs (fun a => a.dc32 w) fun _ => [.ok w] := fun _ => rfl

theorem performs_emit (m : Mnemonic) (ops : List Operand) : Performs (fun a => a.emit m ops) fun _ => [.ofOperands m ops] :=
  fun a => emitResult_eq a _

theorem Performs.andThen (first : Performs f es) (second : Performs g es') :
    Performs (fun a => g (f a)) fun pools => es pools ++ es' pools := by
  intro a
  show g (f a) = _
  rw [second, first, pools_foldl, List.foldl_append]

/-- Scratch registers that are kept are kept by the last part of a macro. -/
theorem Performs.andThen_scoped (first : Performs f es) (second : PerformsScoped g es') :
    PerformsScoped (fun a => g (f a)) fun pools => es pools ++ es' pools := by
  intro a
  have performed : { g (f a) with pools := (f a).pools } = (es' (f a).pools).foldl report (f a) := second (f a)
  show { g (f a) with pools := a.pools } = _
  rw [first a, pools_foldl] at performed
  rw [first a, performed, List.foldl_append]

theorem Performs.ite {P : Prop} [Decidable P] (yes : Performs f es) (no : Performs g es') :
    Performs (fun a => if P then f a else g a) fun pools => if P then es pools else es' pools := by
  split
  · exact yes
  · exact no

/-- A scope puts back what was kept. -/
theorem Performs.inScope (h : PerformsScoped f es) : Performs (fun a => a.inScope f) es := h

/-- **A part that takes a scratch register** is left out where there is none. -/
theorem PerformsScoped.withScratch {c : ScratchClass} {body : Nat → Assembler → Assembler}
    {parts : Nat → ScratchPools → List Emission} (h : ∀ code, PerformsScoped (body code) (parts code)) :
    PerformsScoped (fun a => a.withScratch c body) (Emission.taking c parts) := by
  intro a
  show { a.withScratch c body with pools := a.pools } = _
  unfold Assembler.withScratch acquire Emission.taking
  cases a.pools.lowest? c with
  | none => rfl
  | some code =>
    let taken : Assembler := { a with pools := a.pools.remove c code }
    have performed : { body code taken with pools := taken.pools } = (parts code taken.pools).foldl report taken :=
      h code taken
    have restored := congrArg (fun b => { b with pools := a.pools }) performed
    rw [foldl_withPools] at restored
    exact restored.trans (foldl_restored a (parts code taken.pools))

end

end Assembler

/-! ## Lists -/

namespace Emission

/-- The emissions of a sequence of halfwords. -/
def halfwordSequence (rd : XReg) (inverted : Bool) (hws : List (Nat × Nat)) : List Emission :=
  let first (shift halfword : Nat) : Emission :=
    if inverted then ofOperands .movn [.ofX rd, .shiftedImm (Slot.natImm (65535 - halfword)) shift]
    else ofOperands .movz [.ofX rd, .shiftedImm (Slot.natImm halfword) shift]
  match hws.filter fun p => p.2 != if inverted then 65535 else 0 with
  | [] => [first 0 (if inverted then 65535 else 0)]
  | p :: ps => first p.1 p.2 :: ps.map fun p => ofOperands .movk [.ofX rd, .shiftedImm (Slot.natImm p.2) p.1]

/-- The emissions of the move of an immediate. -/
def moveImmediate (rd : XReg) (imm : BitVec 64) : List Emission :=
  let bits := rd.width.bits
  let value := imm &&& BitmaskImmediate.onesBelow bits
  let hws := halfwords bits value
  let nonzero := hws.countP fun p => p.2 != 0
  let notOnes := hws.countP fun p => p.2 != 65535
  if nonzero ≤ 1 ∨ notOnes ≤ 1 then halfwordSequence rd (decide (1 < nonzero)) hws
  else if (BitmaskImmediate.encode? value bits).isSome then
    [ofOperands .orr [.ofX rd, .ofX (.zero rd.width), .ofImm value]]
  else halfwordSequence rd (decide (notOnes < nonzero)) hws

/-- The emissions of the move of a vector register. -/
def moveVector (zd zn : ZReg) : List Emission :=
  let d (r : ZReg) : Operand := .ofZ (r.withLane (some .d))
  if zd.code = zn.code then [] else [ofOperands .orr [d zd, d zn, d zn]]

/-- The emissions of the move of a predicate register. -/
def movePredicate (pd pn : PReg) : List Emission :=
  if pd.code = pn.code then []
  else [ofOperands .orr [.ofP pd.asBytes, .ofP pn.zeroing, .ofP pn.asBytes, .ofP pn.asBytes]]

/-- The emission of a predicated operation. -/
def predicated (op : PredicatedOp) (zd : ZReg) (pg : PReg) (zn zm : ZReg) : Emission :=
  ofOperands op.op.mnemonic [.ofZ zd, .ofP pg, .ofZ zn, .ofZ zm]

/-- The emission of an unpredicated operation. -/
def unpredicated (op : UnpredicatedOp) (zd zn zm : ZReg) : Emission :=
  ofOperands op.op.mnemonic [.ofZ zd, .ofZ zn, .ofZ zm]

/-- The emission of a copy of active lanes. -/
def copyActive (zd : ZReg) (pg : PReg) (zn : ZReg) : Emission := ofOperands .movprfx [.ofZ zd, .ofP pg, .ofZ zn]

/-- The emissions of a copy of a whole vector. -/
def copyWhole (zd zn : ZReg) : List Emission :=
  if zd.code = zn.code then [] else [ofOperands .movprfx [.ofZ zd.unsized, .ofZ zn.unsized]]

/-- The emissions that clear inactive lanes. -/
def zeroInactive (zd : ZReg) (pg : PReg) : List Emission := if pg.isZeroing then [copyActive zd pg.zeroing zd] else []

/-- The emissions of a predicated operation with any aliasing. -/
def predicatedBinary (op : PredicatedOp) (zd : ZReg) (pg : PReg) (zn zm : ZReg) : ScratchPools → List Emission :=
  let pgm := pg.merging
  match DestructiveForm.select zd.code zn.code zm.code op.commutes op.reversed?.isSome with
  | .destructive => fun _ => zeroInactive zd pg ++ [predicated op zd pgm zd zm]
  | .swapped => fun _ => zeroInactive zd pg ++ [predicated op zd pgm zd zn]
  | .reversed => fun _ => zeroInactive zd pg ++ [predicated (op.reversed?.getD op) zd pgm zd zn]
  | .copied => fun _ => [copyActive zd pg.governing zn, predicated op zd pgm zd zm]
  | .saved =>
    taking .vector fun code _ =>
      moveVector ⟨code, none⟩ zm ++ [copyActive zd pg.governing zn] ++ [predicated op zd pgm zd ⟨code, zm.lane⟩]

/-- The emissions of a multiplication with addition. -/
def multiplyAccumulate (negated : Bool) (zd : ZReg) (pg : PReg) (za zn zm : ZReg) : List Emission :=
  let pgm := pg.merging
  let accumulate := if negated then Mnemonic.mls else .mla
  let multiply := if negated then Mnemonic.msb else .mad
  let of4 (m : Mnemonic) (z z' : ZReg) : Emission := ofOperands m [.ofZ zd, .ofP pgm, .ofZ z, .ofZ z']
  if zd.code = za.code then [of4 accumulate zn zm]
  else if zd.code = zn.code then [of4 multiply zm za]
  else if zd.code = zm.code then [of4 multiply zn za]
  else [copyActive zd pgm za, of4 accumulate zn zm]

/-- The emissions of a part that takes a scratch register for an immediate. -/
def takingForLane (lane : Option LaneSize) (body : XReg → ScratchPools → List Emission) : ScratchPools → List Emission :=
  taking .general fun code => body ⟨code, if isDouble lane then .x else .w⟩

/-- The emissions of a copy of an immediate to every lane. -/
def dup (zd : ZReg) (imm : BitVec 64) : ScratchPools → List Emission :=
  let value := laneSigned zd.lane imm
  match byteImmediate? .dup [.ofZ zd] zd.lane value <|> tryEncode? .dupm [.ofZ zd, .ofImm value] with
  | some w => fun _ => [.ok w]
  | none => takingForLane zd.lane fun tmp _ => moveImmediate tmp value ++ [ofOperands .dup [.ofZ zd, .ofX tmp]]

/-- The emissions of a part that works with an immediate in every lane of a scratch vector. -/
def withVectorImmediate (lane : Option LaneSize) (imm : BitVec 64) (body : ZReg → ScratchPools → List Emission) :
    ScratchPools → List Emission :=
  taking .vector fun code pools => dup ⟨code, lane⟩ imm pools ++ body ⟨code, lane⟩ pools

/-- The emissions of an operation with an immediate in a scratch vector. -/
def synthesizedImmediate (op : ImmediateOp) (zd zn : ZReg) (imm : BitVec 64) : ScratchPools → List Emission :=
  withVectorImmediate zd.lane imm fun tmp =>
    match op.unpredicated? with
    | some op => fun _ => [unpredicated op zd zn tmp]
    | none =>
      taking .governing fun code _ =>
        let pg : PReg := ⟨code, none, none⟩
        [ofOperands .ptrue [.ofP (pg.withLane zd.lane), .ofPattern 31]] ++ copyWhole zd zn ++
          [ofOperands op.op.mnemonic [.ofZ zd, .ofP pg.merging, .ofZ zd, .ofZ tmp]]

/-- The emissions of an operation with an immediate. -/
def wideImmediate (op : ImmediateOp) (zd zn : ZReg) (imm : BitVec 64) : ScratchPools → List Emission :=
  let imm := wideOperand op zd.lane imm
  match destructiveImmediate? op zd imm <|> negatedImmediate? op zd imm with
  | some w => fun _ => copyWhole zd zn ++ [.ok w]
  | none => synthesizedImmediate op zd zn imm

/-- The emissions of a bitwise operation with an immediate. -/
def logicalImmediate (op : BitmaskOp) (zd zn : ZReg) (imm : BitVec 64) : ScratchPools → List Emission :=
  let value := laneUnsigned zd.lane imm
  let d (r : ZReg) : Operand := .ofZ (r.withLane (some .d))
  match tryEncode? op.op.mnemonic [.ofZ zd, .ofZ zd, .ofImm value] with
  | some w => fun _ => copyWhole zd zn ++ [.ok w]
  | none => withVectorImmediate zd.lane value fun tmp _ => [ofOperands op.op.mnemonic [d zd, d zn, d tmp]]

/-- The emissions of a copy of an immediate to the active lanes. -/
def cpy (zd : ZReg) (pg : PReg) (imm : BitVec 64) : ScratchPools → List Emission :=
  let value := laneSigned zd.lane imm
  match byteImmediate? .cpy [.ofZ zd, .ofP pg.governing] zd.lane value with
  | some w => fun _ => [.ok w]
  | none =>
    takingForLane zd.lane fun tmp _ =>
      moveImmediate tmp value ++ zeroInactive zd pg ++ [ofOperands .cpy [.ofZ zd, .ofP pg.merging, .ofX tmp]]

/-- The emissions of an immediate shifted in as the lowest lane. -/
def insr (zdn : ZReg) (imm : BitVec 64) : ScratchPools → List Emission :=
  takingForLane zdn.lane fun tmp _ => moveImmediate tmp imm ++ [ofOperands .insr [.ofZ zdn, .ofX tmp]]

/-- The emission of a compare of two vectors. -/
def compare (rel : Relation) (pd pg : PReg) (zn zm : ZReg) : Emission :=
  match rel.swapped? with
  | some rel => ofOperands rel.mnemonic [.ofP pd, .ofP pg.zeroing, .ofZ zm, .ofZ zn]
  | none => ofOperands rel.mnemonic [.ofP pd, .ofP pg.zeroing, .ofZ zn, .ofZ zm]

/-- The emissions of a compare with an immediate. -/
def compareImmediate (rel : Relation) (pd pg : PReg) (zn : ZReg) (imm : BitVec 64) : ScratchPools → List Emission :=
  match tryEncode? rel.mnemonic [.ofP pd, .ofP pg.zeroing, .ofZ zn, .ofImm imm] with
  | some w => fun _ => [.ok w]
  | none => withVectorImmediate zn.lane imm fun tmp _ => [compare rel pd pg zn tmp]

/-- The emissions of a part that works with the start or step of an index vector. -/
def withIndexTerm (lane : Option LaneSize) (imm : BitVec 64) (body : Operand → ScratchPools → List Emission)
    (pools : ScratchPools) : List Emission :=
  if -16 ≤ imm.toInt ∧ imm.toInt ≤ 15 then body (.ofImm imm) pools
  else takingForLane lane (fun tmp pools => moveImmediate tmp imm ++ body (.ofX tmp) pools) pools

/-- The emissions of a vector of equally spaced lanes. -/
def index (zd : ZReg) (start step : BitVec 64) : ScratchPools → List Emission :=
  withIndexTerm zd.lane start fun s => withIndexTerm zd.lane step fun t _ => [ofOperands .index [.ofZ zd, s, t]]

/-- The emissions of a macro that works on a copy of a predicate. -/
def onPredicateCopy (m : Mnemonic) (lane : Option LaneSize) (pd pg pn : PReg) (pools : ScratchPools) : List Emission :=
  let last (pg : PReg) : Emission := ofOperands m [.ofP (pd.withLane lane), .ofP pg.plain, .ofP (pd.withLane lane)]
  if pd.code = pg.code ∧ pd.code ≠ pn.code then
    taking .predicate (fun code _ =>
      let tmp : PReg := ⟨code, none, none⟩
      movePredicate tmp pg ++ movePredicate pd pn ++ [last tmp]) pools
  else movePredicate pd pn ++ [last pg]

/-- The emissions that move an address by steps. -/
def moveAddress (addr src : XReg) : List Int → List Emission
  | [] => []
  | step :: steps => ofOperands .addvl [.ofX addr, .ofX src, .ofImm (Slot.intImm step)] :: moveAddress addr addr steps

/-- The emissions of a load or store. -/
def transferAt (m : Mnemonic) (rt : Operand) (base : XReg) (offset unit : Int) (pools : ScratchPools) : List Emission :=
  if -256 ≤ offset ∧ offset ≤ 255 then [ofOperands m [rt, .mulVl base.code (Slot.intImm offset)]]
  else
    let vls := lengthsMoved offset unit
    taking .general (fun code _ => moveAddress (.x code) base (lengthSteps vls) ++
      [ofOperands m [rt, .mulVl code (Slot.intImm (offset - vls * unit))]]) pools

end Emission

namespace Assembler

theorem performs_nextHalfwords (rd : XReg) (ps : List (Nat × Nat)) :
    Performs (fun a => ps.foldl (fun a p => a.nextHalfword rd p) a)
      fun _ => ps.map fun p => .ofOperands .movk [.ofX rd, .shiftedImm (Slot.natImm p.2) p.1] := by
  induction ps with
  | nil => exact .nothing
  | cons p ps ih => exact (performs_emit _ _).andThen ih

theorem performs_halfwordSequence (rd : XReg) (inverted : Bool) (hws : List (Nat × Nat)) :
    Performs (fun a => a.halfwordSequence rd inverted hws) fun _ => Emission.halfwordSequence rd inverted hws := by
  have first : ∀ shift halfword, Performs (fun a => a.firstHalfword rd inverted shift halfword) fun _ =>
      [if inverted then .ofOperands .movn [.ofX rd, .shiftedImm (Slot.natImm (65535 - halfword)) shift]
        else .ofOperands .movz [.ofX rd, .shiftedImm (Slot.natImm halfword) shift]] := by
    intro shift halfword
    cases inverted
    · exact performs_emit _ _
    · exact performs_emit _ _
  unfold halfwordSequence Emission.halfwordSequence
  cases hws.filter fun p => p.2 != if inverted then 65535 else 0 with
  | nil => exact first _ _
  | cons p ps => exact (first _ _).andThen (performs_nextHalfwords rd ps)

theorem performs_moveImmediate (rd : XReg) (imm : BitVec 64) :
    Performs (fun a => a.moveImmediate rd imm) fun _ => Emission.moveImmediate rd imm :=
  (performs_halfwordSequence rd _ _).ite ((performs_emit _ _).ite (performs_halfwordSequence rd _ _))

theorem performs_moveVector (zd zn : ZReg) :
    Performs (fun a => a.moveVector zd zn) fun _ => Emission.moveVector zd zn :=
  .ite .nothing (performs_emit _ _)

theorem performs_movePredicate (pd pn : PReg) :
    Performs (fun a => a.movePredicate pd pn) fun _ => Emission.movePredicate pd pn :=
  .ite .nothing (performs_emit _ _)

theorem performs_copyWhole (zd zn : ZReg) : Performs (fun a => a.copyWhole zd zn) fun _ => Emission.copyWhole zd zn :=
  .ite .nothing (performs_emit _ _)

theorem performs_zeroInactive (zd : ZReg) (pg : PReg) :
    Performs (fun a => a.zeroInactive zd pg) fun _ => Emission.zeroInactive zd pg :=
  .ite (performs_emit _ _) .nothing

theorem performs_predicatedBinary (op : PredicatedOp) (zd : ZReg) (pg : PReg) (zn zm : ZReg) :
    Performs (fun a => a.predicatedBinary op zd pg zn zm) (Emission.predicatedBinary op zd pg zn zm) := by
  -- three of the ways are one instruction behind the lanes that are cleared
  have behind : ∀ (op : PredicatedOp) (z : ZReg),
      Performs (fun a => (a.zeroInactive zd pg).predicated op zd pg.merging zd z)
        fun _ => Emission.zeroInactive zd pg ++ [Emission.predicated op zd pg.merging zd z] :=
    fun op z => (performs_zeroInactive zd pg).andThen (performs_emit _ _)
  unfold predicatedBinary Emission.predicatedBinary
  cases DestructiveForm.select zd.code zn.code zm.code op.commutes op.reversed?.isSome with
  | destructive | swapped | reversed => exact behind _ _
  | copied => exact (performs_emit _ _).andThen (performs_emit _ _)
  | saved =>
    refine .inScope (.withScratch fun code => ?_)
    exact (((performs_moveVector _ _).andThen (performs_emit _ _)).andThen (performs_emit _ _)).scoped

theorem performs_multiplyAccumulate (negated : Bool) (zd : ZReg) (pg : PReg) (za zn zm : ZReg) :
    Performs (fun a => a.multiplyAccumulate negated zd pg za zn zm)
      fun _ => Emission.multiplyAccumulate negated zd pg za zn zm :=
  (performs_emit _ _).ite ((performs_emit _ _).ite ((performs_emit _ _).ite
    ((performs_emit _ _).andThen (performs_emit _ _))))

theorem PerformsScoped.acquireForLane {lane : Option LaneSize} {body : XReg → Assembler → Assembler}
    {parts : XReg → ScratchPools → List Emission} (h : ∀ tmp, PerformsScoped (body tmp) (parts tmp)) :
    PerformsScoped (fun a => a.acquireForLane lane body) (Emission.takingForLane lane parts) :=
  .withScratch fun _ => h _

theorem performs_dup (zd : ZReg) (imm : BitVec 64) : Performs (fun a => a.dup zd imm) (Emission.dup zd imm) := by
  unfold dup Emission.dup
  dsimp only
  cases byteImmediate? .dup [.ofZ zd] zd.lane (laneSigned zd.lane imm) <|>
      tryEncode? .dupm [.ofZ zd, .ofImm (laneSigned zd.lane imm)] with
  | some w => exact performs_dc32 w
  | none => exact .inScope (.acquireForLane fun tmp => ((performs_moveImmediate tmp _).andThen (performs_emit _ _)).scoped)

theorem PerformsScoped.withVectorImmediate {lane : Option LaneSize} {body : ZReg → Assembler → Assembler}
    {parts : ZReg → ScratchPools → List Emission} (imm : BitVec 64) (h : ∀ tmp, PerformsScoped (body tmp) (parts tmp)) :
    PerformsScoped (fun a => a.withVectorImmediate lane imm body) (Emission.withVectorImmediate lane imm parts) :=
  .withScratch fun _ => (performs_dup _ imm).andThen_scoped (h _)

theorem performs_synthesizedImmediate (op : ImmediateOp) (zd zn : ZReg) (imm : BitVec 64) :
    Performs (fun a => a.synthesizedImmediate op zd zn imm) (Emission.synthesizedImmediate op zd zn imm) := by
  refine .inScope (.withVectorImmediate imm fun tmp => ?_)
  cases op.unpredicated? with
  | some op => exact (performs_emit _ _).scoped
  | none =>
    refine PerformsScoped.withScratch fun code => ?_
    exact (((performs_emit _ _).andThen (performs_copyWhole zd zn)).andThen (performs_emit _ _)).scoped

theorem performs_wideImmediate (op : ImmediateOp) (zd zn : ZReg) (imm : BitVec 64) :
    Performs (fun a => a.wideImmediate op zd zn imm) (Emission.wideImmediate op zd zn imm) := by
  unfold wideImmediate Emission.wideImmediate
  dsimp only
  cases destructiveImmediate? op zd (wideOperand op zd.lane imm) <|>
      negatedImmediate? op zd (wideOperand op zd.lane imm) with
  | some w => exact (performs_copyWhole zd zn).andThen (performs_dc32 w)
  -- nothing is emitted before it is known that the immediate has to be in a vector
  | none => exact performs_synthesizedImmediate op zd zn _

theorem performs_logicalImmediate (op : BitmaskOp) (zd zn : ZReg) (imm : BitVec 64) :
    Performs (fun a => a.logicalImmediate op zd zn imm) (Emission.logicalImmediate op zd zn imm) := by
  unfold logicalImmediate Emission.logicalImmediate
  dsimp only
  cases tryEncode? op.op.mnemonic [.ofZ zd, .ofZ zd, .ofImm (laneUnsigned zd.lane imm)] with
  | some w => exact (performs_copyWhole zd zn).andThen (performs_dc32 w)
  | none => exact .inScope (.withVectorImmediate _ fun tmp => (performs_emit _ _).scoped)

theorem performs_cpy (zd : ZReg) (pg : PReg) (imm : BitVec 64) :
    Performs (fun a => a.cpy zd pg imm) (Emission.cpy zd pg imm) := by
  unfold cpy Emission.cpy
  dsimp only
  cases byteImmediate? .cpy [.ofZ zd, .ofP pg.governing] zd.lane (laneSigned zd.lane imm) with
  | some w => exact performs_dc32 w
  | none =>
    refine .inScope (.acquireForLane fun tmp => ?_)
    exact (((performs_moveImmediate tmp _).andThen (performs_zeroInactive zd pg)).andThen (performs_emit _ _)).scoped

theorem performs_insr (zdn : ZReg) (imm : BitVec 64) :
    Performs (fun a => a.insr zdn imm) (Emission.insr zdn imm) :=
  .inScope (.acquireForLane fun tmp => ((performs_moveImmediate tmp imm).andThen (performs_emit _ _)).scoped)

theorem performs_compare (rel : Relation) (pd pg : PReg) (zn zm : ZReg) :
    Performs (fun a => a.compare rel pd pg zn zm) fun _ => [Emission.compare rel pd pg zn zm] := by
  unfold compare Emission.compare
  cases rel.swapped? with
  | some rel => exact performs_emit _ _
  | none => exact performs_emit _ _

theorem performs_compareImmediate (rel : Relation) (pd pg : PReg) (zn : ZReg) (imm : BitVec 64) :
    Performs (fun a => a.compareImmediate rel pd pg zn imm) (Emission.compareImmediate rel pd pg zn imm) := by
  unfold compareImmediate Emission.compareImmediate
  cases tryEncode? rel.mnemonic [.ofP pd, .ofP pg.zeroing, .ofZ zn, .ofImm imm] with
  | some w => exact performs_dc32 w
  | none => exact .inScope (.withVectorImmediate imm fun tmp => (performs_compare rel pd pg zn tmp).scoped)

theorem PerformsScoped.withIndexTerm {lane : Option LaneSize} {body : Operand → Assembler → Assembler}
    {parts : Operand → ScratchPools → List Emission} (imm : BitVec 64) (h : ∀ op, PerformsScoped (body op) (parts op)) :
    PerformsScoped (fun a => a.withIndexTerm lane imm body) (Emission.withIndexTerm lane imm parts) := by
  unfold Assembler.withIndexTerm Emission.withIndexTerm
  split
  · exact h _
  · exact PerformsScoped.acquireForLane fun tmp => (performs_moveImmediate tmp imm).andThen_scoped (h _)

theorem performs_index (zd : ZReg) (start step : BitVec 64) :
    Performs (fun a => a.index zd start step) (Emission.index zd start step) :=
  .inScope (.withIndexTerm start fun _ => .withIndexTerm step fun _ => (performs_emit _ _).scoped)

theorem performs_onPredicateCopy (m : Mnemonic) (lane : Option LaneSize) (pd pg pn : PReg) :
    Performs (fun a => a.onPredicateCopy m lane pd pg pn) (Emission.onPredicateCopy m lane pd pg pn) := by
  refine .ite (.inScope (.withScratch fun code => ?_)) ((performs_movePredicate pd pn).andThen (performs_emit _ _))
  exact (((performs_movePredicate _ pg).andThen (performs_movePredicate pd pn)).andThen (performs_emit _ _)).scoped

theorem performs_moveAddress (addr src : XReg) (steps : List Int) :
    Performs (fun a => moveAddress addr a src steps) fun _ => Emission.moveAddress addr src steps := by
  induction steps generalizing src with
  | nil => exact .nothing
  | cons step steps ih => exact (performs_emit _ _).andThen (ih addr)

theorem performs_transferAt (m : Mnemonic) (rt : Operand) (base : XReg) (offset unit : Int) :
    Performs (fun a => a.transferAt m rt base offset unit) (Emission.transferAt m rt base offset unit) := by
  refine .ite (performs_emit _ _) (.inScope (.withScratch fun code => ?_))
  exact ((performs_moveAddress _ base _).andThen (performs_emit _ _)).scoped

end Assembler

/-! ## Macros -/

/-- **The instructions of a macro**, with what each of them comes to. -/
def MacroCall.emissions : MacroCall → ScratchPools → List Emission
  | moveImmediate rd imm => fun _ => Emission.moveImmediate rd imm
  | moveRegister rd rm => fun _ => [.ofOperands .orr [.ofX rd, .ofX (.zero rd.width), .ofX rm]]
  | moveVector zd zn => fun _ => Emission.moveVector zd zn
  | movePredicate pd pn => fun _ => Emission.movePredicate pd pn
  | predicated op zd pg zn zm => Emission.predicatedBinary op zd pg zn zm
  | unpredicated op zd zn zm => fun _ => [.unpredicated op zd zn zm]
  | multiplyAccumulate negated zd pg za zn zm => fun _ => Emission.multiplyAccumulate negated zd pg za zn zm
  | immediate op zd zn imm => Emission.wideImmediate op zd zn imm
  | bitmask op zd zn imm => Emission.logicalImmediate op zd zn imm
  | dup zd imm => Emission.dup zd imm
  | cpy zd pg imm => Emission.cpy zd pg imm
  | compare rel pd pg zn zm => fun _ => [.compare rel pd pg zn zm]
  | compareImmediate rel pd pg zn imm => Emission.compareImmediate rel pd pg zn imm
  | pfirst pd pg pn => Emission.onPredicateCopy .pfirst (some .b) pd pg pn
  | pnext pd pv pn => Emission.onPredicateCopy .pnext pn.lane pd pv pn
  | insr zdn imm => Emission.insr zdn imm
  | index zd start step => Emission.index zd start step
  | transferVector access zt base offset => Emission.transferAt access.mnemonic (.ofZ zt.unsized) base offset.toInt 1
  | transferPredicate access pt base offset => Emission.transferAt access.mnemonic (.ofP pt.plain) base offset.toInt 8

/-- **A macro emits or records its instructions one after the other**, each of them on its own. -/
theorem Assembler.expand_eq (a : Assembler) (call : MacroCall) :
    a.expand call = (call.emissions a.pools).foldl report a := by
  suffices Performs (fun a => a.expand call) call.emissions from this a
  cases call with
  | moveImmediate rd imm => exact performs_moveImmediate rd imm
  | moveRegister rd rm => exact performs_emit _ _
  | moveVector zd zn => exact performs_moveVector zd zn
  | movePredicate pd pn => exact performs_movePredicate pd pn
  | predicated op zd pg zn zm => exact performs_predicatedBinary op zd pg zn zm
  | unpredicated op zd zn zm => exact performs_emit _ _
  | multiplyAccumulate negated zd pg za zn zm => exact performs_multiplyAccumulate negated zd pg za zn zm
  | immediate op zd zn imm => exact performs_wideImmediate op zd zn imm
  | bitmask op zd zn imm => exact performs_logicalImmediate op zd zn imm
  | dup zd imm => exact performs_dup zd imm
  | cpy zd pg imm => exact performs_cpy zd pg imm
  | compare rel pd pg zn zm => exact performs_compare rel pd pg zn zm
  | compareImmediate rel pd pg zn imm => exact performs_compareImmediate rel pd pg zn imm
  | pfirst pd pg pn => exact performs_onPredicateCopy .pfirst (some .b) pd pg pn
  | pnext pd pg pn => exact performs_onPredicateCopy .pnext pn.lane pd pg pn
  | insr zdn imm => exact performs_insr zdn imm
  | index zd start step => exact performs_index zd start step
  | transferVector access zt base offset => exact performs_transferAt access.mnemonic (.ofZ zt.unsized) base offset.toInt 1
  | transferPredicate access pt base offset => exact performs_transferAt access.mnemonic (.ofP pt.plain) base offset.toInt 8

/-- An index vector whose start and step are encoded is one instruction, whatever there is in the pools. -/
example (zd : ZReg) (pools : ScratchPools) :
    (MacroCall.index zd 3 (-16)).emissions pools = [.ofOperands .index [.ofZ zd, .ofImm 3, .ofImm (-16)]] := rfl

end ArmToolkit.A64
