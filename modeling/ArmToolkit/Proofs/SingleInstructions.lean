import ArmToolkit.Proofs.BlockState

/-!
# `Proofs.SingleInstructions` — the byte strings that stand for one instruction

## Contents
- **Written forms.** `Denotes`: the bytes that the encoder gives for an instruction, and one redundant form, behind an IT
  under `al`.
- **Halfwords.** A halfword is decoded as the instructions that are encoded as it, and as no others
  (`decodeHalfword_eq_ok_iff`).
- **Streams of one instruction.** The reference reads one instruction out of a halfword alone or behind the IT of a block of
  one (`ITState.decode_eq_singleton`).
- **Acceptance.** `decodeSingle_eq_ok_iff`, and what is refused for it: `Foreign` lists byte strings of more than one
  instruction, or of none.
-/

namespace ArmToolkit.T32

open Text

/-! ## Written forms -/

/-- **The byte strings of an instruction**: what the encoder gives for it, and the same behind an IT under `al`, which an
    instruction without condition can stand behind if it has no high register. -/
inductive Denotes : List Byte → Instruction → Prop
  | encoded {inst : Instruction} {bytes : List Byte} (encode : inst.encode = .ok bytes) : Denotes bytes inst
  | redundant {inst : Instruction} {bytes : List Byte} (encode : inst.encode = .ok bytes) (always : inst.cond = .al)
    (low : Instruction.highRegister? inst.ops = none) : Denotes (0xe8 :: 0xbf :: bytes) inst

/-! ## Halfwords -/

namespace Form

/-- The fields of a halfword hold operands, whatever is in them. -/
theorem takes_operands (f : Form) (bits : Halfword) : f.Takes (f.operands bits) := by
  have low (n : Nat) : n % 8 < 8 := Nat.mod_lt _ (by decide)
  cases f with
  | data op => exact .data op (low _) (low _)
  | addSub op => exact .addSub op (low _) (low _) (low _)
  | addSubImmediate op => exact .addSubImmediate op (low _) (low _) (low _)
  | byte op => exact .byte op (low _) (Nat.mod_lt _ (by decide))
  | high op => exact .high op (by omega) (Nat.mod_lt _ (by decide))

/-- The fields are the low bits. -/
theorem fieldBits_operands (f : Form) (bits : Halfword) :
    f.fieldBits (f.operands bits) = bits.toNat % twoPow f.fieldWidth := by
  cases f <;> simp only [operands, fieldBits, fieldWidth, shape, twoPow, Nat.pow_eq, Nat.reducePow] <;> omega

/-- **A halfword of a form is put together from its operands.** -/
theorem Matches.word_operands {f : Form} {bits : Halfword} (h : f.Matches bits) : f.word (f.operands bits) = bits := by
  unfold word
  rw [fieldBits_operands]
  apply BitVec.eq_of_getLsbD_eq
  intro j hj
  have fixed := congrArg (BitVec.getLsbD · j) h
  simp only [BitVec.getLsbD_and, f.getLsbD_mask j hj] at fixed
  rw [BitVec.getLsbD_or, BitVec.getLsbD_ofNat, ← fixed, twoPow, Nat.pow_eq, Nat.testBit_mod_two_pow, BitVec.testBit_toNat]
  by_cases low : j < f.fieldWidth
  · simp [low, Nat.not_le.mpr low, hj]
  · simp [low, Nat.le_of_not_lt low]

namespace Takes

variable {f : Form} {ops : List Operand}

theorem accepts (h : f.Takes ops) : f.shape.accepts ops = true := by
  cases h <;> rfl

/-- Operands that a form can hold are registers and immediates. -/
theorem ne_none (h : f.Takes ops) : ∀ op ∈ ops, op ≠ .none := by
  cases h <;> simp

/-- The only faults of operands that a form can hold are those that the decoder knows as reserved. -/
theorem fault?_cases (h : f.Takes ops) :
    f.fault? ops = none ∨ f.fault? ops = some .programCounter ∨ f.fault? ops = some .lowCompare := by
  cases h with
  | high op hd hm =>
    simp only [fault?, if_neg (not_or.mpr ⟨Nat.not_le.mpr hd, Nat.not_le.mpr hm⟩)]
    split
    · exact .inr (.inl rfl)
    · split
      · exact .inr (.inr rfl)
      · exact .inl rfl
  | _ => exact .inl (by simp_all [fault?, lowFault?_eq_none, immediateFault?_eq_none, twoPow])

end Takes

end Form

namespace Instruction.Encodes

variable {inst : Instruction} {inBlock : Bool} {f : Form}

/-- The encoder gives the halfword of the operands. -/
theorem halfword (h : inst.Encodes inBlock f) : inst.halfword inBlock = .ok (f.word inst.ops) := by
  unfold Instruction.halfword
  simp only [h.form, h.takes.accepts, h.clean, h.low, Bool.true_eq_false, if_false]
  rfl

/-- Without high registers the instruction can stand in a block and outside of one. -/
theorem anywhere (h : inst.Encodes inBlock f) (low : highRegister? inst.ops = none) (other : Bool) :
    inst.Encodes other f where
  form := h.form
  takes := h.takes
  clean := h.clean
  low := by
    rw [low]
    split <;> rfl

end Instruction.Encodes

section

variable {bits : Halfword} {inst : Instruction} {c : Condition} {inBlock : Bool}

/-- **What a halfword is decoded as** is encoded as the halfword. -/
theorem encodes_of_decodeHalfword (h : decodeHalfword bits c inBlock = .ok inst) :
    ∃ f, inst.Encodes inBlock f ∧ f.word inst.ops = bits ∧ inst.cond = c := by
  unfold decodeHalfword at h
  split at h
  · cases h
  · rename_i f found
    have fixed := List.find?_some found
    split at h
    · cases h
    · rename_i unreserved
      split at h
      · cases h
      · rename_i low
        cases h
        refine ⟨f, ⟨rfl, f.takes_operands bits, ?_, low⟩, Form.Matches.word_operands (beq_iff_eq.mp fixed), rfl⟩
        unfold reservedOperands? at unreserved
        rcases (f.takes_operands bits).fault?_cases with clean | reserved | reserved
        · exact clean
        · rw [reserved] at unreserved
          cases unreserved
        · rw [reserved] at unreserved
          cases unreserved

/-- **A halfword is decoded as the instructions that are encoded as it**, in a block and outside of one. -/
theorem decodeHalfword_eq_ok_iff :
    decodeHalfword bits c inBlock = .ok inst ↔ inst.halfword inBlock = .ok bits ∧ inst.cond = c := by
  constructor
  · intro decoded
    obtain ⟨f, encodes, rfl, rfl⟩ := encodes_of_decodeHalfword decoded
    exact ⟨encodes.halfword, rfl⟩
  · rintro ⟨halfword, rfl⟩
    obtain ⟨f, encodes, rfl⟩ := Instruction.encodes_of_halfword halfword
    exact encodes.decodeHalfword

/-- The bytes of a halfword are those that it is put together from. -/
theorem halfwordBytes_append (low high : Byte) : halfwordBytes (high ++ low) = [low, high] := by
  have lowByte : (high ++ low).setWidth 8 = low := BitVec.setWidth_append_eq_right
  have highByte : ((high ++ low) >>> 8).setWidth 8 = high := by
    apply BitVec.eq_of_getLsbD_eq
    intro j hj
    rw [BitVec.getLsbD_setWidth, BitVec.getLsbD_ushiftRight, BitVec.getLsbD_append]
    simp [hj]
  rw [halfwordBytes, lowByte, highByte]

end

/-! ## Streams of one instruction -/

namespace ITState

/-- The state that an IT loads has a condition to give. -/
theorem load_ne_zero {bits : Halfword} (it : IsIT bits) : load bits ≠ 0 := by
  intro zero
  have number := congrArg BitVec.toNat zero
  rw [load, BitVec.toNat_setWidth] at number
  have := it.2
  change bits.toNat % 256 = 0 at number
  omega

/-- Only the empty stream has no instructions. -/
theorem decode_eq_nil {s : ITState} {bytes : List Byte} (h : s.decode bytes = some []) : s = 0 ∧ bytes = [] := by
  fun_induction decode s bytes with
  | case1 low high rest it ih => exact absurd (ih h).1 (load_ne_zero it)
  | case4 s low high rest it valid inst decoded ih =>
    rw [Option.map_eq_some_iff] at h
    obtain ⟨insts, -, cons⟩ := h
    cases cons
  | case7 => exact ⟨rfl, rfl⟩
  | _ => cases h

/-- **Inside a block one instruction is one halfword**, and it is the last one of the block. -/
theorem decode_inside {s : ITState} (inside : s ≠ 0) {bytes : List Byte} {inst : Instruction}
    (h : s.decode bytes = some [inst]) :
    ∃ low high, bytes = [low, high] ∧ s.condition ≠ .nv ∧ decodeHalfword (high ++ low) s.condition true = .ok inst ∧
      s.advance = 0 := by
  rcases bytes with _ | ⟨low, _ | ⟨high, rest⟩⟩
  · rw [decode, if_neg inside] at h
    cases h
  · cases h
  · rw [decode, if_neg inside, decide_eq_true inside] at h
    split at h
    · cases h
    · split at h
      · cases h
      · rename_i valid
        split at h
        · rename_i decoded
          obtain ⟨insts, later, cons⟩ := Option.map_eq_some_iff.mp h
          cases cons
          obtain ⟨closed, rfl⟩ := decode_eq_nil later
          exact ⟨low, high, rfl, valid, decoded, closed⟩
        · cases h

/-- An IT halfword whose block has one instruction is that of its condition. -/
theorem eq_itHalfword {bits : Halfword} (it : IsIT bits) (last : (load bits).advance = 0) :
    bits = itHalfword (load bits).condition := by
  have table : ∀ s : ITState, s.toNat % 16 ≠ 0 → s.advance = 0 → s.toNat = s.condition.code * 16 + 8 := by decide
  have low : (load bits).toNat = bits.toNat % 256 := by rw [load, BitVec.toNat_setWidth]
  have loaded := table (load bits) (by have := it.2; omega) last
  apply BitVec.eq_of_toNat_eq
  rw [itHalfword, BitVec.toNat_ofNat]
  have := it.1
  have := bits.isLt
  simp only [singleMask]
  omega

/-- **One instruction is read** out of a halfword alone, or out of the halfword behind the IT of its condition. -/
theorem decode_eq_singleton {bytes : List Byte} {inst : Instruction} (h : decode 0 bytes = some [inst]) :
    (∃ bits, bytes = halfwordBytes bits ∧ decodeHalfword bits .al false = .ok inst) ∨
      ∃ c bits, c ≠ .nv ∧ bytes = halfwordBytes (itHalfword c) ++ halfwordBytes bits ∧
        decodeHalfword bits c true = .ok inst := by
  rcases bytes with _ | ⟨low, _ | ⟨high, rest⟩⟩
  · cases h
  · cases h
  · rw [decode] at h
    split at h
    · rename_i it
      rw [if_pos rfl] at h
      obtain ⟨low', high', rfl, valid, decoded, closed⟩ := decode_inside (load_ne_zero it) h
      refine .inr ⟨_, _, valid, ?_, decoded⟩
      rw [← eq_itHalfword it closed, halfwordBytes_append, halfwordBytes_append]
      rfl
    · split at h
      · cases h
      · split at h
        · rename_i decoded
          obtain ⟨insts, later, cons⟩ := Option.map_eq_some_iff.mp h
          cases cons
          obtain ⟨-, rfl⟩ := decode_eq_nil later
          exact .inl ⟨_, (halfwordBytes_append low high).symm, decoded⟩
        · cases h

end ITState

/-! ## Acceptance -/

section

variable {bytes : List Byte} {inst : Instruction}

/-- What is taken as one instruction is one that the reference reads. -/
theorem decode_of_decodeSingle (h : decodeSingle bytes = .ok inst) : ITState.decode 0 bytes = some [inst] := by
  unfold decodeSingle Stream.single at h
  rw [← whole?_decodeStream, Stream.whole?]
  split at h
  · cases h
  · rename_i clean
    split at h
    · rename_i one
      split at h
      · cases h
      · cases h
        rw [clean, one]
    · cases h

/-- The bytes of an instruction whose halfword is known. -/
theorem Instruction.encode_of_halfword {bits : Halfword} (valid : inst.cond ≠ .nv)
    (halfword : inst.halfword inst.isConditional = .ok bits) :
    inst.encode =
      .ok ((if inst.isConditional then halfwordBytes (itHalfword inst.cond) else []) ++ halfwordBytes bits) := by
  rw [encode, if_neg valid, halfword]

/-- Without a condition the bytes are those of the halfword alone. -/
theorem Instruction.encode_of_always {bits : Halfword} (always : inst.cond = .al)
    (halfword : inst.halfword false = .ok bits) : inst.encode = .ok (halfwordBytes bits) := by
  have plain := isConditional_eq_false.mpr always
  have valid : inst.cond ≠ .nv := by rw [always]; exact nofun
  rw [encode_of_halfword valid (plain ▸ halfword), plain]
  rfl

/-- The IT under `al`. -/
theorem halfwordBytes_itHalfword_al : halfwordBytes (itHalfword .al) = [0xe8, 0xbf] := rfl

/-- **What the reference reads one instruction from** stands for the instruction. -/
theorem Denotes.of_decode (h : ITState.decode 0 bytes = some [inst]) : Denotes bytes inst := by
  rcases ITState.decode_eq_singleton h with ⟨bits, rfl, decoded⟩ | ⟨c, bits, valid, rfl, decoded⟩
  · obtain ⟨halfword, always⟩ := decodeHalfword_eq_ok_iff.mp decoded
    exact .encoded (Instruction.encode_of_always always halfword)
  · obtain ⟨f, encodes, rfl, rfl⟩ := encodes_of_decodeHalfword decoded
    by_cases always : inst.cond = .al
    · -- only low registers were decoded in the block, so the instruction could stand alone
      have low : Instruction.highRegister? inst.ops = none := encodes.low
      rw [always, halfwordBytes_itHalfword_al]
      exact .redundant (Instruction.encode_of_always always (encodes.anywhere low false).halfword) always low
    · have conditional := Instruction.isConditional_eq_true.mpr always
      have encode := Instruction.encode_of_halfword valid (conditional ▸ encodes.halfword)
      rw [conditional] at encode
      exact .encoded encode

/-- **What stands for an instruction is taken as the instruction.** -/
theorem Denotes.decodeSingle (h : Denotes bytes inst) : T32.decodeSingle bytes = .ok inst := by
  cases h with
  | encoded encode => exact decodeSingle_of_encode encode
  | redundant encode always low =>
    obtain ⟨f, encodes, valid, rfl⟩ := Instruction.encode_cases encode
    have taken := decodeSingle_block (encodes.anywhere low true) valid
    rw [always, halfwordBytes_itHalfword_al] at taken
    rw [Instruction.isConditional_eq_false.mpr always]
    exact taken

theorem Denotes.iff_decodeSingle : Denotes bytes inst ↔ T32.decodeSingle bytes = .ok inst :=
  ⟨Denotes.decodeSingle, fun taken => .of_decode (decode_of_decodeSingle taken)⟩

/-- Operands that have a halfword are registers and immediates. -/
theorem Denotes.ne_none (h : Denotes bytes inst) : ∀ op ∈ inst.ops, op ≠ .none := by
  cases h with
  | encoded encode | redundant encode =>
    obtain ⟨f, encodes, -⟩ := Instruction.encode_cases encode
    exact encodes.takes.ne_none

/-- A byte string stands for one instruction at most. -/
theorem Denotes.unique {other : Instruction} (h : Denotes bytes inst) (h' : Denotes bytes other) : other = inst :=
  Except.ok.inj (h'.decodeSingle.symm.trans h.decodeSingle)

/-- **A condition needs its IT**, which stands in front. -/
theorem Denotes.conditional (h : Denotes bytes inst) (conditional : inst.cond ≠ .al) :
    inst.cond ≠ .nv ∧ ∃ bits, bytes = halfwordBytes (itHalfword inst.cond) ++ halfwordBytes bits := by
  cases h with
  | redundant encode always low => exact absurd always conditional
  | encoded encode =>
    obtain ⟨f, -, valid, rfl⟩ := Instruction.encode_cases encode
    rw [Instruction.isConditional_eq_true.mpr conditional]
    exact ⟨valid, _, rfl⟩

end

/-! ## Refusals -/

/-- **Byte strings of more than one instruction, or of none**: a block of several instructions, a block with an instruction
    under `nv`, a hint or the first half of a 32-bit instruction where a halfword starts, and anything behind the bytes of
    an instruction. -/
inductive Foreign : List Byte → Prop
  | block {low high : Byte} {rest : List Byte} (it : ITState.IsIT (high ++ low))
    (several : (ITState.load (high ++ low)).advance ≠ 0) : Foreign (low :: high :: rest)
  | never {low high : Byte} {rest : List Byte} (it : ITState.IsIT (high ++ low))
    (never : .nv ∈ (ITState.load (high ++ low)).conditions) : Foreign (low :: high :: rest)
  | hint {front : List Byte} {low high : Byte} {rest : List Byte} (even : front.length % 2 = 0)
    (space : inBlockSpace (high ++ low) = true) (other : ¬ ITState.IsIT (high ++ low)) :
    Foreign (front ++ low :: high :: rest)
  | wide {front : List Byte} {low high : Byte} {rest : List Byte} (even : front.length % 2 = 0)
    (wide : isWide (high ++ low) = true) : Foreign (front ++ low :: high :: rest)
  | trailing {bytes rest : List Byte} {inst : Instruction} (taken : decodeSingle bytes = .ok inst) (more : rest ≠ []) :
    Foreign (bytes ++ rest)

/-- A halfword that is decoded is no IT, no hint and not the first half of a 32-bit instruction. -/
theorem toNat_lt_of_decodeHalfword {bits : Halfword} {c : Condition} {inBlock : Bool} {inst : Instruction}
    (h : decodeHalfword bits c inBlock = .ok inst) : bits.toNat < 0x8000 := by
  apply Decidable.byContradiction
  intro high
  rw [decodeHalfword_refuses (Nat.le_of_not_lt high)] at h
  cases h

/-- The IT halfword of a condition loads a block of that condition alone. -/
theorem itHalfword_block {c : Condition} (valid : c ≠ .nv) :
    ITState.IsIT (itHalfword c) ∧ (ITState.load (itHalfword c)).advance = 0 ∧
      .nv ∉ (ITState.load (itHalfword c)).conditions := by
  cases c with
  | nv => exact absurd rfl valid
  | _ => decide

section

variable {bytes front rest : List Byte} {low high : Byte} {inst : Instruction}

/-- The first halfword of one instruction is decoded, or is the IT of a block of one. -/
theorem first_halfword (h : ITState.decode 0 (low :: high :: rest) = some [inst]) :
    (rest = [] ∧ (high ++ low).toNat < 0x8000) ∨
      (rest.length = 2 ∧ ∃ c, c ≠ .nv ∧ high ++ low = itHalfword c) := by
  rcases ITState.decode_eq_singleton h with ⟨bits, same, decoded⟩ | ⟨c, bits, valid, same, -⟩
  · rw [halfwordBytes] at same
    cases same
    exact .inl ⟨rfl, by rw [append_halfwordBytes]; exact toNat_lt_of_decodeHalfword decoded⟩
  · rw [halfwordBytes] at same
    cases same
    exact .inr ⟨rfl, c, valid, append_halfwordBytes _⟩

/-- **Every halfword of one instruction** is an IT or is decoded. -/
theorem halfword_of_decode (h : ITState.decode 0 (front ++ low :: high :: rest) = some [inst])
    (even : front.length % 2 = 0) : ITState.IsIT (high ++ low) ∨ (high ++ low).toNat < 0x8000 := by
  rcases ITState.decode_eq_singleton h with ⟨bits, same, decoded⟩ | ⟨c, bits, valid, same, decoded⟩
  · rcases front with _ | ⟨a, _ | ⟨b, front⟩⟩
    · rw [halfwordBytes] at same
      cases same
      exact .inr (by rw [append_halfwordBytes]; exact toNat_lt_of_decodeHalfword decoded)
    · cases even
    · have := congrArg List.length same
      simp [halfwordBytes] at this
  · rcases front with _ | ⟨a, _ | ⟨b, _ | ⟨d, front⟩⟩⟩
    · rw [halfwordBytes] at same
      cases same
      exact .inl (by rw [append_halfwordBytes]; exact (itHalfword_block valid).1)
    · cases even
    · rw [halfwordBytes, halfwordBytes] at same
      cases same
      exact .inr (by rw [append_halfwordBytes]; exact toNat_lt_of_decodeHalfword decoded)
    · have := congrArg List.length same
      simp [halfwordBytes] at this
      rw [List.length_cons, List.length_cons, List.length_cons] at even
      omega

end

/-- **What is foreign is not one instruction.** -/
theorem Foreign.decode_ne {bytes : List Byte} (h : Foreign bytes) (inst : Instruction) :
    ITState.decode 0 bytes ≠ some [inst] := by
  intro one
  -- the first halfword decides: it is no instruction alone, and no IT of one instruction
  cases h with
  | block it several =>
    rcases first_halfword one with ⟨-, below⟩ | ⟨-, c, valid, same⟩
    · have := it.1
      omega
    · rw [same] at several
      exact several (itHalfword_block valid).2.1
  | never it never =>
    rcases first_halfword one with ⟨-, below⟩ | ⟨-, c, valid, same⟩
    · have := it.1
      omega
    · rw [same] at never
      exact (itHalfword_block valid).2.2 never
  | hint even space other =>
    rw [inBlockSpace_iff] at space
    rcases halfword_of_decode one even with it | below
    · exact other it
    · omega
  | wide even wide =>
    rw [isWide_iff] at wide
    rcases halfword_of_decode one even with it | below
    · have := it.1
      omega
    · omega
  | @trailing bytes rest _ taken more =>
    have alone := decode_of_decodeSingle taken
    rcases bytes with _ | ⟨low, _ | ⟨high, tail⟩⟩
    · cases alone
    · cases alone
    · have longer : 0 < rest.length := List.length_pos_iff.mpr more
      rcases first_halfword alone with ⟨rfl, below⟩ | ⟨two, -⟩ <;>
        rcases first_halfword one with ⟨ended, -⟩ | ⟨length, c, valid, same⟩
      · exact more ended
      · have := (itHalfword_block valid).1.1
        rw [← same] at this
        omega
      · exact more (List.append_eq_nil_iff.mp ended).2
      · have length : (tail ++ rest).length = 2 := length
        rw [List.length_append] at length
        omega

/-- **One instruction in one written form**: a byte string is taken as an instruction exactly when it stands for it, and it
    stands for no other. The operands are registers and immediates, and a condition has its IT in front. What is foreign
    is refused. -/
theorem decodeSingle_eq_ok_iff :
    (∀ bytes inst, decodeSingle bytes = .ok inst ↔ Denotes bytes inst) ∧
      (∀ bytes inst, Denotes bytes inst →
        (∀ op ∈ inst.ops, op ≠ .none) ∧ (∀ other, Denotes bytes other → other = inst) ∧
        (inst.cond ≠ .al →
          inst.cond ≠ .nv ∧ ∃ bits, bytes = halfwordBytes (itHalfword inst.cond) ++ halfwordBytes bits)) ∧
      ∀ bytes, Foreign bytes → ∃ why, decodeSingle bytes = .error why := by
  refine ⟨fun bytes inst => Denotes.iff_decodeSingle.symm, fun bytes inst h => ⟨h.ne_none, fun _ => h.unique, h.conditional⟩, ?_⟩
  intro bytes foreign
  cases taken : decodeSingle bytes with
  | error why => exact ⟨why, rfl⟩
  | ok inst => exact absurd (decode_of_decodeSingle taken) (foreign.decode_ne inst)

/-- An addition of low registers behind the IT under `al`: it is taken, and two of them are not. -/
theorem decodeSingle_eq_ok_iff_add :
    (∃ inst, decodeSingle [0xe8, 0xbf, 0x08, 0x18] = .ok inst ∧ ∀ op ∈ inst.ops, op ≠ .none) ∧
      ∃ why, decodeSingle ([0xe8, 0xbf, 0x08, 0x18] ++ [0x08, 0x18]) = .error why := by
  have encode : Instruction.encode { form := some (.addSub .add), ops := [.register 0, .register 1, .register 0] } =
      .ok [0x08, 0x18] := rfl
  have stands := Denotes.redundant encode rfl rfl
  have taken := (decodeSingle_eq_ok_iff.1 _ _).mpr stands
  exact ⟨⟨_, taken, (decodeSingle_eq_ok_iff.2.1 _ _ stands).1⟩,
    decodeSingle_eq_ok_iff.2.2 _ (.trailing taken (List.cons_ne_nil _ _))⟩

end ArmToolkit.T32
