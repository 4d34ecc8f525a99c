import ArmToolkit.Proofs.Halfwords

/-!
# `Proofs.BlockState` — IT blocks as the architecture keeps them

The architecture keeps one byte of state for IT blocks and shifts it after every instruction. The decoder lists the
conditions of a block when it is opened. Both read the same instructions out of the same streams.

## Contents
- **The state.** `ITState` with `condition` and `advance`, and the conditions that it still has to give
  (`ITState.conditions`).
- **The reference.** `ITState.decode` reads a stream with nothing else in hand than the state.
- **Blocks.** An IT halfword opens the block of the conditions that the state will give (`openBlock_cases`).
- **Simulation.** The open block of the decoder is what the state has still to give; one halfword keeps it so
  (`decodeFrom_eq_decode`).
- **Concatenation.** Behind a stream that decodes, decoding goes on outside of a block (`decodeFrom_append`), as in a stream
  of its own (`decodeFrom_later`).
- **Whole streams.** `decodeStream_eq_decode` puts both together for streams from their start on.
-/

namespace ArmToolkit.T32

open Text

/-! ## The state -/

/-- **The IT state**: the condition of the next instruction in the upper four bits. The lower four shift into it, and
    their lowest set bit ends the block. Outside of a block the state is zero. -/
abbrev ITState := BitVec 8

namespace ITState

/-- The state that an IT halfword loads: its first condition above its mask. -/
def load (bits : Halfword) : ITState := bits.setWidth 8

/-- **The condition of the next instruction.** -/
def condition (s : ITState) : Condition := if s = 0 then .al else .ofCode (s >>> 4).toNat

/-- **The state after an instruction.** -/
def advance (s : ITState) : ITState := if s &&& 0x07 = 0 then 0 else (s &&& 0xe0) ||| ((s <<< 1) &&& 0x1f)

/-- The conditions of the next instructions, at most `n` of them, up to the end of the block. -/
def conditionsUpTo : Nat → ITState → List Condition
  | 0, _ => []
  | n + 1, s => if s = 0 then [] else s.condition :: conditionsUpTo n s.advance

/-- **The conditions that the state has still to give.** No block is longer than four instructions. -/
def conditions (s : ITState) : List Condition := s.conditionsUpTo 4

/-- Outside of a block there is no condition left to give. -/
theorem conditions_eq_nil {s : ITState} : s.conditions = [] ↔ s = 0 := by
  unfold conditions conditionsUpTo
  constructor
  · intro none
    by_cases outside : s = 0
    · exact outside
    · rw [if_neg outside] at none
      cases none
  · intro outside
    rw [if_pos outside]

/-- After an instruction the state gives the conditions behind the first one. -/
theorem conditions_advance (s : ITState) : s.advance.conditions = s.conditions.tail := by
  revert s
  decide +kernel

/-- **Inside a block** the condition of the next instruction stands before those that follow it. -/
theorem conditions_eq_cons {s : ITState} (inside : s ≠ 0) : s.conditions = s.condition :: s.advance.conditions := by
  rw [conditions_advance]
  unfold conditions conditionsUpTo
  rw [if_neg inside]
  rfl

theorem headD_conditions (s : ITState) : s.conditions.headD .al = s.condition := by
  by_cases outside : s = 0
  · rw [conditions_eq_nil.mpr outside, condition, if_pos outside]
    rfl
  · rw [conditions_eq_cons outside]
    rfl

/-! ## The reference -/

/-- Whether a halfword is an IT: `0xbf` above a condition and a mask that is not zero. -/
def IsIT (bits : Halfword) : Prop := bits.toNat / 256 = 0xbf ∧ bits.toNat % 16 ≠ 0

instance (bits : Halfword) : Decidable (IsIT bits) := inferInstanceAs (Decidable (_ ∧ _))

/-- **The instructions of a stream**, read with the IT state alone. An IT inside a block, an instruction under the
    condition `nv`, a halfword that has no instruction under its condition, half a halfword, and a block that is still
    open at the end are refused. -/
def decode (s : ITState) : List Byte → Option (List Instruction)
  | low :: high :: rest =>
    if IsIT (high ++ low) then
      if s = 0 then decode (load (high ++ low)) rest else none
    else if s.condition = .nv then none
    else
      match decodeHalfword (high ++ low) s.condition (s ≠ 0) with
      | .ok inst => (decode s.advance rest).map (inst :: ·)
      | .error _ => none
  | [_] => none
  | [] => if s = 0 then some [] else none

/-- **A block with an instruction under `nv` is refused**, whatever stands in it. -/
theorem decode_never {s : ITState} (never : .nv ∈ s.conditions) (bytes : List Byte) : decode s bytes = none := by
  have inside_of_never : ∀ {s : ITState}, .nv ∈ s.conditions → s ≠ 0 := by
    intro s never outside
    rw [conditions_eq_nil.mpr outside] at never
    cases never
  fun_induction decode s bytes with
  | case1 | case7 => exact absurd rfl (inside_of_never never)
  | case4 s low high rest it valid inst decoded ih =>
    -- the first condition is not `nv`, so it is one of those behind it
    rw [conditions_eq_cons (inside_of_never never)] at never
    have later := (List.mem_cons.mp never).resolve_left (Ne.symm valid)
    rw [ih later]
    rfl
  | _ => rfl

/-- Half a halfword is refused, wherever it stands. -/
theorem decode_odd (s : ITState) {bytes : List Byte} (odd : bytes.length % 2 = 1) : decode s bytes = none := by
  fun_induction decode s bytes with
  | case1 low high rest it ih =>
    rw [List.length_cons, List.length_cons] at odd
    exact ih (by omega)
  | case4 s low high rest it valid inst decoded ih =>
    rw [List.length_cons, List.length_cons] at odd
    rw [ih (by omega)]
    rfl
  | case7 => cases odd
  | _ => rfl

end ITState

/-! ## Blocks -/

theorem inBlockSpace_iff {bits : Halfword} : inBlockSpace bits = true ↔ bits.toNat / 256 = 0xbf := by
  unfold inBlockSpace
  rw [beq_iff_eq, ← BitVec.toNat_inj, BitVec.toNat_ushiftRight, Nat.shiftRight_eq_div_pow]
  rfl

theorem isWide_iff {bits : Halfword} : isWide bits = true ↔ 0xe800 ≤ bits.toNat := by
  unfold isWide
  rw [decide_eq_true_eq, BitVec.toNat_ushiftRight, Nat.shiftRight_eq_div_pow]
  omega

/-- No form has a halfword with the highest bit set. -/
theorem Form.Matches.toNat_lt {f : Form} {bits : Halfword} (h : f.Matches bits) : bits.toNat < 0x8000 := by
  have table : ∀ f ∈ all, f.mask.getLsbD 15 = true ∧ f.opcode.getLsbD 15 = false := by decide +kernel
  obtain ⟨fixed, clear⟩ := table f (mem_all f)
  have top : bits.getLsbD 15 = false := by
    have kept := congrArg (BitVec.getLsbD · 15) h
    rw [BitVec.getLsbD_and, fixed, clear, Bool.and_true] at kept
    exact kept
  have msb : bits.msb = false := by rw [BitVec.msb_eq_getLsbD_last]; exact top
  exact BitVec.toNat_lt_of_msb_false msb

/-- **What is a hint or the first half of a 32-bit instruction has no instruction**, under any condition. -/
theorem decodeHalfword_refuses {bits : Halfword} (high : 0x8000 ≤ bits.toNat) (c : Condition) (inBlock : Bool) :
    decodeHalfword bits c inBlock = .error (.unsupported bits) := by
  have none : formOf? bits = none := by
    cases found : formOf? bits with
    | none => rfl
    | some f =>
      have fixed := List.find?_some found
      have below := Form.Matches.toNat_lt (beq_iff_eq.mp fixed)
      omega
  unfold decodeHalfword
  rw [none]

/-- The conditions of a block are those that the loaded state gives. -/
theorem blockConditions_eq (bits : Halfword) (mask : bits.toNat % 16 ≠ 0) :
    blockConditions (bits.toNat / 16 % 16) (bits.toNat % 16) = (ITState.load bits).conditions := by
  have table : ∀ b : ITState, b.toNat % 16 ≠ 0 → blockConditions (b.toNat / 16) (b.toNat % 16) = b.conditions := by
    decide +kernel
  have low : (ITState.load bits).toNat = bits.toNat % 256 := by
    unfold ITState.load
    rw [BitVec.toNat_setWidth]
  have read := table (ITState.load bits)
  rw [low, show bits.toNat % 256 % 16 = bits.toNat % 16 by omega,
    show bits.toNat % 256 / 16 = bits.toNat / 16 % 16 by omega] at read
  exact read mask

theorem blockLength_pos (mask : Nat) : 0 < blockLength mask := by
  unfold blockLength
  split
  · decide
  · split
    · decide
    · split <;> decide

/-- **What an IT halfword opens**: the block of the conditions that the loaded state gives, if none of them is `nv`. -/
theorem openBlock_cases (offset : Nat) {bits : Halfword} (it : ITState.IsIT bits) :
    (.nv ∈ (ITState.load bits).conditions ∧ ∃ why, openBlock offset bits = .error why) ∨
      (.nv ∉ (ITState.load bits).conditions ∧ ∃ n, openBlock offset bits = .ok ⟨n, (ITState.load bits).conditions⟩) := by
  have listed := blockConditions_eq bits it.2
  unfold openBlock
  simp only [listed]
  by_cases never : .nv ∈ (ITState.load bits).conditions
  · refine .inl ⟨never, ?_⟩
    split
    · exact ⟨_, rfl⟩
    · rw [if_pos (List.contains_iff_mem.mpr never)]
      exact ⟨_, rfl⟩
  · refine .inr ⟨never, ?_⟩
    -- the first condition is listed as well
    have first : Condition.ofCode (bits.toNat / 16 % 16) ∈ (ITState.load bits).conditions := by
      rw [← listed, blockConditions]
      exact List.mem_map.mpr ⟨0, List.mem_range.mpr (blockLength_pos _), rfl⟩
    have notFirst : Condition.ofCode (bits.toNat / 16 % 16) ≠ .nv := by
      intro same
      rw [same] at first
      exact never first
    have notListed : ¬ (ITState.load bits).conditions.contains .nv = true := by rwa [List.contains_iff_mem]
    rw [if_neg notFirst, if_neg notListed]
    exact ⟨_, rfl⟩

/-! ## Simulation -/

section

variable (offset : Nat) {block : Block} {s : ITState} {bits : Halfword}

/-- A halfword that is no IT is read under the condition that the state gives. -/
theorem streamStep_of_not_it (pending : block.pending = s.conditions) (other : ¬ ITState.IsIT bits) :
    (∀ inst, decodeHalfword bits s.condition (s ≠ 0) = .ok inst →
      streamStep offset block bits = .decoded inst { block with pending := s.advance.conditions }) ∧
    (∀ why, decodeHalfword bits s.condition (s ≠ 0) = .error why → ∃ e, streamStep offset block bits = .refused e) := by
  have plain : ¬ (inBlockSpace bits = true ∧ bits.toNat % 16 ≠ 0) := by rwa [inBlockSpace_iff]
  have inBlock : decide (block.pending ≠ []) = decide (s ≠ 0) := by
    rw [pending, decide_eq_decide, ne_eq, ne_eq, ITState.conditions_eq_nil]
  unfold streamStep
  rw [if_neg plain, inBlock, pending, ITState.headD_conditions, ← ITState.conditions_advance]
  constructor
  · intro inst decoded
    -- a halfword that is decoded is below both spaces that the decoder looks for first
    have low : bits.toNat < 0x8000 := by
      rcases Nat.lt_or_ge bits.toNat 0x8000 with low | high
      · exact low
      · rw [decodeHalfword_refuses high] at decoded
        cases decoded
    have wide : isWide bits ≠ true := by
      rw [ne_eq, isWide_iff]
      omega
    have space : inBlockSpace bits ≠ true := by
      rw [ne_eq, inBlockSpace_iff]
      omega
    rw [if_neg wide, if_neg space, decoded]
  · intro why refused
    split
    · exact ⟨_, rfl⟩
    · split
      · exact ⟨_, rfl⟩
      · rw [refused]
        exact ⟨_, rfl⟩

/-- An IT inside a block is refused. -/
theorem streamStep_nested (pending : block.pending = s.conditions) (it : ITState.IsIT bits) (inside : s ≠ 0) :
    streamStep offset block bits = .refused (.nestedBlock offset) := by
  have some : block.pending ≠ [] := by
    rw [pending, ne_eq, ITState.conditions_eq_nil]
    exact inside
  unfold streamStep
  rw [if_pos ⟨inBlockSpace_iff.mpr it.1, it.2⟩, if_pos some]

/-- **An IT outside of a block** opens the block that the loaded state gives. -/
theorem streamStep_it (pending : block.pending = []) (it : ITState.IsIT bits) :
    (.nv ∈ (ITState.load bits).conditions ∧ ∃ e, streamStep offset block bits = .refused e) ∨
      (.nv ∉ (ITState.load bits).conditions ∧
        ∃ n, streamStep offset block bits = .opened ⟨n, (ITState.load bits).conditions⟩) := by
  unfold streamStep
  rw [if_pos ⟨inBlockSpace_iff.mpr it.1, it.2⟩, if_neg (not_not_intro pending)]
  rcases openBlock_cases offset it with ⟨never, why, refused⟩ | ⟨valid, n, opened⟩
  · rw [refused]
    exact .inl ⟨never, _, rfl⟩
  · rw [opened]
    exact .inr ⟨valid, n, rfl⟩

end

/-- **The instructions of a stream**, if all of it was decoded. -/
def Stream.whole? (s : Stream) : Option (List Instruction) :=
  match s.error with
  | none => some s.insts
  | some _ => none

section

variable {offset : Nat} {block next : Block} {low high : Byte} {rest : List Byte} {inst : Instruction} {why : StreamError}

theorem whole?_opened (step : streamStep offset block (high ++ low) = .opened next) :
    (decodeFrom offset block (low :: high :: rest)).whole? = (decodeFrom (offset + 2) next rest).whole? := by
  rw [decodeFrom, step]
  rfl

theorem whole?_decoded (step : streamStep offset block (high ++ low) = .decoded inst next) :
    (decodeFrom offset block (low :: high :: rest)).whole? =
      (decodeFrom (offset + 2) next rest).whole?.map (inst :: ·) := by
  rw [decodeFrom, step]
  unfold Stream.whole?
  cases (decodeFrom (offset + 2) next rest).error <;> rfl

theorem whole?_refused (step : streamStep offset block (high ++ low) = .refused why) :
    (decodeFrom offset block (low :: high :: rest)).whole? = none := by
  rw [decodeFrom, step]
  rfl

end

/-- **The decoder reads what the reference reads**, wherever both stand: what is left of the open block is what the state
    has still to give, and `nv` is not among it. -/
theorem decodeFrom_eq_decode {s : ITState} {block : Block} (pending : block.pending = s.conditions)
    (valid : .nv ∉ s.conditions) (offset : Nat) {bytes : List Byte} (even : bytes.length % 2 = 0) :
    (decodeFrom offset block bytes).whole? = s.decode bytes := by
  -- along the reference: one case for each way that it reads a halfword, with the block that stands for its state
  fun_induction ITState.decode s bytes generalizing offset block with
  | case1 low high rest it ih =>
    rw [List.length_cons, List.length_cons] at even
    rcases streamStep_it offset (pending.trans (ITState.conditions_eq_nil.mpr rfl)) it with
      ⟨never, e, refused⟩ | ⟨clean, n, opened⟩
    · rw [whole?_refused refused, ITState.decode_never never]
    · rw [whole?_opened opened]
      exact ih rfl clean (offset + 2) (by omega)
  | case2 s low high rest it inside => rw [whole?_refused (streamStep_nested offset pending it inside)]
  | case3 s low high rest it never =>
    have outside : s ≠ 0 := by
      rintro rfl
      cases never
    rw [ITState.conditions_eq_cons outside, never] at valid
    exact absurd List.mem_cons_self valid
  | case4 s low high rest it _ inst decoded ih =>
    rw [List.length_cons, List.length_cons] at even
    have later : .nv ∉ s.advance.conditions := by
      rw [ITState.conditions_advance]
      exact fun never => valid (List.mem_of_mem_tail never)
    rw [whole?_decoded ((streamStep_of_not_it offset pending it).1 inst decoded), ih rfl later (offset + 2) (by omega)]
  | case5 s low high rest it _ why refused =>
    obtain ⟨e, step⟩ := (streamStep_of_not_it offset pending it).2 why refused
    rw [whole?_refused step]
  | case6 => cases even
  | case7 =>
    rw [ITState.conditions_eq_nil.mpr rfl] at pending
    rw [decodeFrom, pending]
    · rfl
    · intro _ _ _ same
      cases same
  | case8 s inside =>
    cases left : block.pending with
    | nil => exact absurd (ITState.conditions_eq_nil.mp (pending ▸ left)) inside
    | cons c cs =>
      rw [decodeFrom, left]
      · rfl
      · intro _ _ _ same
        cases same

/-! ## Concatenation -/

/-- The error of a stream that stands behind `n` bytes. -/
def StreamError.later (n : Nat) : StreamError → StreamError
  | oddLength size => oddLength (size + n)
  | nestedBlock o => nestedBlock (o + n)
  | neverBlock o => neverBlock (o + n)
  | invertedAlways o mask => invertedAlways (o + n) mask
  | wide o => wide (o + n)
  | hint o bits => hint (o + n) bits
  | halfword o why => halfword (o + n) why
  | openBlock position length => openBlock position length
  | notOne count => notOne count
  | noBlock => noBlock

/-- What a halfword does that stands behind `n` bytes more. -/
def StreamStep.later (n : Nat) : StreamStep → StreamStep
  | opened block => opened block
  | decoded inst block => decoded inst block
  | refused why => refused (why.later n)

/-- The offset of an IT halfword only shows in its error. -/
theorem openBlock_later (offset n : Nat) (bits : Halfword) :
    openBlock (offset + n) bits = (openBlock offset bits).mapError (·.later n) := by
  unfold openBlock
  dsimp only
  split
  · rfl
  · split <;> rfl

/-- **The offset of a halfword** only shows in its error. -/
theorem streamStep_later (offset n : Nat) (block : Block) (bits : Halfword) :
    streamStep (offset + n) block bits = (streamStep offset block bits).later n := by
  unfold streamStep
  rw [openBlock_later]
  split
  · split
    · rfl
    · cases openBlock offset bits <;> rfl
  · split
    · rfl
    · split
      · rfl
      · cases decodeHalfword bits (block.pending.headD .al) (block.pending ≠ []) <;> rfl

/-- **A stream that starts `n` bytes later** has the same instructions, and its error stands `n` bytes later. -/
theorem decodeFrom_later (offset n : Nat) (block : Block) (bytes : List Byte) :
    (decodeFrom (offset + n) block bytes).insts = (decodeFrom offset block bytes).insts ∧
      (decodeFrom (offset + n) block bytes).error = (decodeFrom offset block bytes).error.map (·.later n) := by
  fun_induction decodeFrom offset block bytes with
  | case1 offset block low high rest next step s ih =>
    rw [Nat.add_right_comm] at ih
    rw [decodeFrom, streamStep_later, step]
    exact ih
  | case2 offset block low high rest inst next step s ih =>
    rw [Nat.add_right_comm] at ih
    rw [decodeFrom, streamStep_later, step]
    exact ⟨congrArg (inst :: ·) ih.1, ih.2⟩
  | case3 offset block low high rest why step =>
    rw [decodeFrom, streamStep_later, step]
    exact ⟨rfl, rfl⟩
  | case4 bytes offset block closed short =>
    rw [decodeFrom, closed]
    · exact ⟨rfl, rfl⟩
    · exact short
  | case5 bytes offset block short inside =>
    rw [decodeFrom]
    · split
      · exact absurd ‹_› inside
      · exact ⟨rfl, rfl⟩
    · exact short

/-- Outside of a block the length of the last one stays what it is. -/
theorem streamStep_closed (offset n : Nat) (bits : Halfword) :
    streamStep offset { length := n } bits = match streamStep offset {} bits with
      | .decoded inst _ => .decoded inst { length := n }
      | step => step := by
  unfold streamStep
  split
  · simp only [ne_eq, not_true_eq_false, if_false]
    cases openBlock offset bits <;> rfl
  · split
    · rfl
    · split
      · rfl
      · cases decodeHalfword bits (([] : List Condition).headD .al) (([] : List Condition) ≠ []) <;> rfl

/-- **Outside of a block** the length of the last one does not show. -/
theorem decodeFrom_closed (offset n : Nat) : ∀ bytes, decodeFrom offset { length := n } bytes = decodeFrom offset {} bytes
  | low :: high :: rest => by
    have later := decodeFrom_closed (offset + 2) n rest
    have kept := streamStep_closed offset 0 (high ++ low)
    rw [decodeFrom, decodeFrom, streamStep_closed]
    cases step : streamStep offset {} (high ++ low) with
    | decoded inst next =>
      rw [step] at kept
      cases kept
      dsimp only
      rw [later]
    | opened | refused => rfl
  | [_] | [] => rfl

/-- **Behind a stream that decodes** decoding goes on outside of a block. -/
theorem decodeFrom_append (a : List Byte) {offset : Nat} {block : Block} (even : a.length % 2 = 0)
    (clean : (decodeFrom offset block a).error = none) (b : List Byte) :
    (decodeFrom offset block (a ++ b)).insts =
        (decodeFrom offset block a).insts ++ (decodeFrom (offset + a.length) {} b).insts ∧
      (decodeFrom offset block (a ++ b)).error = (decodeFrom (offset + a.length) {} b).error := by
  fun_induction decodeFrom offset block a with
  | case1 offset block low high rest next step s ih =>
    rw [List.length_cons, List.length_cons] at even ⊢
    rw [List.cons_append, List.cons_append, decodeFrom, step]
    have along := ih (by omega) clean
    rwa [Nat.add_assoc, Nat.add_comm 2] at along
  | case2 offset block low high rest inst next step s ih =>
    rw [List.length_cons, List.length_cons] at even ⊢
    rw [List.cons_append, List.cons_append, decodeFrom, step]
    have along := ih (by omega) clean
    rw [Nat.add_assoc, Nat.add_comm 2] at along
    exact ⟨congrArg (inst :: ·) along.1, along.2⟩
  | case3 => cases clean
  | case4 bytes offset block closed short =>
    rcases bytes with _ | ⟨low, _ | ⟨high, rest⟩⟩
    · obtain ⟨n, pending⟩ := block
      cases closed
      exact ⟨congrArg Stream.insts (decodeFrom_closed offset n b), congrArg Stream.error (decodeFrom_closed offset n b)⟩
    · cases even
    · exact absurd rfl (short low high rest)
  | case5 => cases clean

/-! ## Whole streams -/

theorem decodeStream_of_odd {bytes : List Byte} (odd : bytes.length % 2 ≠ 0) :
    decodeStream bytes = { error := some (.oddLength bytes.length) } := by
  unfold decodeStream
  rw [if_pos odd]

theorem decodeStream_of_even {bytes : List Byte} (even : bytes.length % 2 = 0) :
    decodeStream bytes = decodeFrom 0 {} bytes := by
  unfold decodeStream
  rw [if_neg (not_not_intro even)]

/-- **What follows a stream that decodes** decodes as a stream of its own, whose error stands that much later. -/
theorem decodeStream_append {a : List Byte} (clean : (decodeStream a).error = none) (b : List Byte) :
    (decodeStream (a ++ b)).error = (decodeStream b).error.map (·.later a.length) ∧
      (b.length % 2 = 0 → (decodeStream (a ++ b)).insts = (decodeStream a).insts ++ (decodeStream b).insts) := by
  have even : a.length % 2 = 0 := by
    apply Decidable.byContradiction
    intro odd
    rw [decodeStream_of_odd odd] at clean
    cases clean
  rw [decodeStream_of_even even] at clean ⊢
  by_cases evenRest : b.length % 2 = 0
  · have evenAll : (a ++ b).length % 2 = 0 := by
      rw [List.length_append]
      omega
    obtain ⟨insts, error⟩ := decodeFrom_append a even clean b
    obtain ⟨sameInsts, sameError⟩ := decodeFrom_later 0 a.length {} b
    rw [decodeStream_of_even evenRest, decodeStream_of_even evenAll, insts, error, sameInsts, sameError]
    exact ⟨rfl, fun _ => rfl⟩
  · have oddAll : (a ++ b).length % 2 ≠ 0 := by
      rw [List.length_append]
      omega
    rw [decodeStream_of_odd evenRest, decodeStream_of_odd oddAll, List.length_append, Nat.add_comm]
    exact ⟨rfl, fun even => absurd even evenRest⟩

/-- The decoder reads what the reference reads from the start of a stream. -/
theorem whole?_decodeStream (bytes : List Byte) : (decodeStream bytes).whole? = ITState.decode 0 bytes := by
  by_cases even : bytes.length % 2 = 0
  · rw [decodeStream_of_even even]
    refine decodeFrom_eq_decode (ITState.conditions_eq_nil.mpr rfl).symm ?_ 0 even
    rw [ITState.conditions_eq_nil.mpr rfl]
    exact List.not_mem_nil
  · rw [decodeStream_of_odd even, ITState.decode_odd 0 (by omega)]
    rfl

/-- **The decoder is the reference.** A stream decodes as the IT state reads it, and what follows a stream that decodes
    decodes as a stream of its own, whose error stands that much later. -/
theorem decodeStream_eq_decode :
    (∀ bytes, (decodeStream bytes).whole? = ITState.decode 0 bytes) ∧
      ∀ a b, (decodeStream a).error = none →
        (decodeStream (a ++ b)).whole? = (decodeStream b).whole?.map ((decodeStream a).insts ++ ·) ∧
        (decodeStream (a ++ b)).error = (decodeStream b).error.map (·.later a.length) ∧
        (b.length % 2 = 0 → (decodeStream (a ++ b)).insts = (decodeStream a).insts ++ (decodeStream b).insts) := by
  constructor
  · exact whole?_decodeStream
  · intro a b clean
    obtain ⟨error, insts⟩ := decodeStream_append clean b
    refine ⟨?_, error, insts⟩
    unfold Stream.whole?
    rw [error]
    cases found : (decodeStream b).error with
    | some why => rfl
    | none =>
      have even : b.length % 2 = 0 := by
        apply Decidable.byContradiction
        intro odd
        rw [decodeStream_of_odd odd] at found
        cases found
      rw [insts even]
      rfl

/-- Behind a block of one instruction, half a block is refused where it ends. -/
theorem decodeStream_eq_decode_half_block :
    (decodeStream [0x08, 0xbf, 0x08, 0x18]).error = none ∧
      (decodeStream ([0x08, 0xbf, 0x08, 0x18] ++ [0x08, 0xbf])).error = some (.openBlock 0 1) := by
  have clean : (decodeStream [0x08, 0xbf, 0x08, 0x18]).error = none := by decide
  refine ⟨clean, ?_⟩
  rw [(decodeStream_eq_decode.2 [0x08, 0xbf, 0x08, 0x18] [0x08, 0xbf] clean).2.1]
  decide

end ArmToolkit.T32
