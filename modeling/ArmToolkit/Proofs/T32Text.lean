import ArmToolkit.Fixture.Verify
import ArmToolkit.Proofs.Halfwords
import ArmToolkit.Proofs.Numerals
import ArmToolkit.Proofs.Words
import Mathlib.Data.List.TakeDrop

/-!
# `Proofs.T32Text` — T32 instructions as bytes and as text

## Contents
- **Words.** The text of an instruction is a row of words: its mnemonic, its condition if it has one, and its operands,
  behind the IT of the condition (`Instruction.toList_text`).
- **Reading.** Every word is read back, and so is the IT in front (`parseOperand_text`, `takeBlock_text`).
- **Both directions.** An instruction that was encoded is decoded from its bytes and read from its text, and the two agree
  as an entry of a fixture (`Instruction.agrees_of_encode`).
-/

namespace ArmToolkit.T32

open Text

/-! ## Words -/

/-- **An operand that can be read back**: a register that exists, or an immediate of 32 bits. -/
inductive Operand.Readable : Operand → Prop
  | register {code : Nat} (h : code < 16) : Readable (.register code)
  | immediate {v : Nat} (h : v < twoPow 32) : Readable (.immediate v)

/-- **A word of an instruction**: it has neither blanks nor the characters that end an IT or separate operands. -/
structure IsToken (w : List Char) : Prop where
  word : IsWord w
  plain : ∀ c ∈ w, c ≠ ',' ∧ c ≠ ';'

/-- The check goes through the characters of the word, not through those that there are. -/
instance (w : List Char) : Decidable (IsToken w) :=
  decidable_of_iff ((!w.isEmpty && w.all fun c => !isBlank c && c != ',' && c != ';') = true) <| by
    constructor
    · intro h
      simp only [Bool.and_eq_true, Bool.not_eq_true', List.isEmpty_eq_false_iff, List.all_eq_true, bne_iff_ne] at h
      exact ⟨⟨h.1, fun c hc => (h.2 c hc).1.1⟩, fun c hc => ⟨(h.2 c hc).1.2, (h.2 c hc).2⟩⟩
    · intro h
      simp only [Bool.and_eq_true, Bool.not_eq_true', List.isEmpty_eq_false_iff, List.all_eq_true, bne_iff_ne]
      exact ⟨h.word.nonempty, fun c hc => ⟨⟨h.word.visible c hc, (h.plain c hc).1⟩, (h.plain c hc).2⟩⟩

theorem Mnemonic.mem_all (m : Mnemonic) : m ∈ all := by cases m <;> decide

theorem isToken_mnemonic (m : Mnemonic) : IsToken m.name.toList := by
  have table : ∀ m ∈ Mnemonic.all, IsToken m.name.toList := by decide
  exact table m m.mem_all

theorem isToken_condition (c : Condition) : IsToken c.name.toList := by cases c <;> decide

/-- The characters of a number are those of a word. -/
theorem isToken_immediate (v : Nat) : IsToken ('#' :: digits 10 v) := by
  have other : ∀ c ∈ digits 10 v, isBlank c = false ∧ c ≠ ',' ∧ c ≠ ';' := by
    have table : ∀ d < 10, isBlank (digitChar d) = false ∧ digitChar d ≠ ',' ∧ digitChar d ≠ ';' := by decide
    intro c hc
    obtain ⟨d, hd, rfl⟩ := mem_digits (by decide) hc
    exact table d hd
  refine ⟨⟨by simp, ?_⟩, ?_⟩
  · intro c hc
    rcases List.mem_cons.mp hc with rfl | hc
    · decide
    · exact (other c hc).1
  · intro c hc
    rcases List.mem_cons.mp hc with rfl | hc
    · decide
    · exact (other c hc).2

theorem toList_immediate (v : Nat) : (Operand.text (.immediate v)).toList = '#' :: digits 10 v := by
  simp [Operand.text, dec]

theorem isToken_operand {op : Operand} (h : op.Readable) : IsToken op.text.toList := by
  cases h with
  | @register code h =>
    have table : ∀ code < 16, IsToken (registerName code).toList := by decide
    exact table code h
  | immediate h =>
    rw [toList_immediate]
    exact isToken_immediate _

/-- **The words of an instruction**: its mnemonic, its condition if it has one, and its operands. -/
def tokens (m : Mnemonic) (cond : Condition) (ops : List Operand) : List String :=
  m.name :: ((if cond = .al then [] else [cond.name]) ++ ops.map Operand.text)

/-- The words of an instruction in a row. -/
def body (m : Mnemonic) (cond : Condition) (ops : List Operand) : List Char :=
  [' '].intercalate ((tokens m cond ops).map String.toList)

theorem isToken_tokens (m : Mnemonic) (cond : Condition) {ops : List Operand} (readable : ∀ op ∈ ops, op.Readable) :
    ∀ s ∈ tokens m cond ops, IsToken s.toList := by
  intro s hs
  simp only [tokens, List.mem_cons, List.mem_append, List.mem_map] at hs
  rcases hs with rfl | conditional | ⟨op, hop, rfl⟩
  · exact isToken_mnemonic m
  · split at conditional
    · simp at conditional
    · rw [List.mem_singleton] at conditional
      exact conditional ▸ isToken_condition cond
  · exact isToken_operand (readable op hop)

/-- Words with a blank in front of each, behind a first word. -/
theorem intercalate_flatMap (w : List Char) (ws : List (List Char)) :
    [' '].intercalate (w :: ws) = w ++ ws.flatMap (' ' :: ·) := by
  -- each word but the first brings the blank in front of it
  induction ws generalizing w with
  | nil => simp
  | cons w' ws ih => rw [List.intercalate_cons_cons, ih w', List.flatMap_cons, List.append_assoc, List.cons_append]; rfl

/-- **The text of an instruction** is its words in a row, behind the IT of its condition if it has one. -/
theorem Instruction.toList_text {f : Form} (cond : Condition) (ops : List Operand) :
    (Instruction.text ⟨some f, cond, ops⟩).toList =
      (if cond = .al then [] else 'I' :: 't' :: ' ' :: (cond.name.toList ++ [';', ' '])) ++ body f.mnemonic cond ops := by
  have rest : (String.join (ops.map fun op => " " ++ op.text)).toList =
      ((ops.map Operand.text).map String.toList).flatMap (' ' :: ·) := by
    rw [String.toList_join, List.flatMap_map, List.flatMap_map, List.flatMap_map]
    exact congrArg (List.flatMap · ops) (funext fun op => by simp)
  unfold text body tokens
  by_cases always : cond = .al
  · simp [isConditional, always, rest, intercalate_flatMap]
  · simp [isConditional, always, rest, intercalate_flatMap]

/-! ## Reading -/

/-- **An operand is read back.** -/
theorem parseOperand_text {op : Operand} (h : op.Readable) : parseOperand op.text = .ok op := by
  cases h with
  | @register code h =>
    have named : ∀ code < 16, registerOfName? (registerName code) = some code := by decide
    have unmarked : ∀ code < 16, '#' ∉ (registerName code).toList := by decide
    unfold parseOperand Operand.text
    split
    · rename_i cs written
      exact absurd (written ▸ List.mem_cons_self) (unmarked code h)
    · simp only [named code h]
  | @immediate v h =>
    unfold parseOperand
    simp only [toList_immediate, scanMarked_digits ((IntKind.holds_u32 v).mpr h) h, Int.toNat_natCast]

theorem mapM_parseOperand {ops : List Operand} (readable : ∀ op ∈ ops, op.Readable) :
    (ops.map Operand.text).mapM parseOperand = .ok ops := by
  induction ops with
  | nil => rfl
  | cons op ops ih =>
    rw [List.map_cons, List.mapM_cons, parseOperand_text (readable op List.mem_cons_self),
      ih fun op hop => readable op (List.mem_cons_of_mem _ hop)]
    rfl

/-- The condition is taken where there is one. A register is none. -/
theorem takeCondition_tokens (cond : Condition) {code : Nat} (h : code < 16) (ops : List Operand) :
    takeCondition ((if cond = .al then [] else [cond.name]) ++ (Operand.register code :: ops).map Operand.text) =
      (cond, (Operand.register code :: ops).map Operand.text) := by
  have register : ∀ code < 16, Condition.ofName? (registerName code) = none := by decide
  by_cases always : cond = .al
  · subst always
    simp [takeCondition, Operand.text, register code h]
  · have named : Condition.ofName? cond.name = some cond := by cases cond <;> decide
    simp [always, takeCondition, named]

theorem folded_ofList (cs : List Char) : folded (String.ofList cs) = (cs.takeWhile (· != nul)).map lower := by
  simp [folded, charsUntilNul]

/-- Whether a text begins with an IT is a question of its first three characters. -/
theorem startsNoCase_it (cs : List Char) : startsNoCase (String.ofList ('I' :: 't' :: ' ' :: cs)) "it " = true := by
  have front : String.ofList ('I' :: 't' :: ' ' :: cs) = "It " ++ String.ofList cs := by
    rw [← String.ofList_toList (s := "It "), ← String.ofList_append]
    rfl
  have long : "it ".utf8ByteSize ≤ (String.ofList ('I' :: 't' :: ' ' :: cs)).utf8ByteSize := by
    rw [front, String.utf8ByteSize_append]
    exact Nat.le_add_right _ _
  have it : folded "it " = ['i', 't', ' '] := by decide
  have letters : lower 'I' = 'i' ∧ lower 't' = 't' ∧ lower ' ' = ' ' := by decide
  unfold startsNoCase
  rw [decide_eq_true long, if_neg (by decide), it, folded_ofList]
  simp [nul, letters, List.isPrefixOf]

/-- A mnemonic does not begin an IT. -/
theorem startsNoCase_mnemonic (m : Mnemonic) (cs : List Char) :
    startsNoCase (String.ofList (m.name.toList ++ cs)) "it " = false := by
  have first : ∀ m ∈ Mnemonic.all, m.name.toList.head?.any (fun c => c != nul && lower c != 'i') = true := by
    decide
  have it : folded "it " = ['i', 't', ' '] := by decide
  unfold startsNoCase
  rw [if_neg (by decide), it, folded_ofList, Bool.and_eq_false_iff]
  right
  have first := first m m.mem_all
  cases name : m.name.toList with
  | nil =>
    rw [name] at first
    cases first
  | cons c cs' =>
    rw [name] at first
    obtain ⟨visible, other⟩ : c ≠ nul ∧ lower c ≠ 'i' := by simpa using first
    simp [visible, other.symm, List.isPrefixOf]

/-- The condition of an IT is one that an instruction can have in a block of its own. -/
theorem ofName?_it {cond : Condition} (conditional : cond ≠ .al) (valid : cond ≠ .nv) :
    Condition.ofName? cond.name = some cond ∧ ¬ (cond = .nv ∨ cond = .al) := by
  cases cond with
  | al => exact absurd rfl conditional
  | nv => exact absurd rfl valid
  | _ => decide

/-- The words of an instruction have no blanks around them. -/
theorem isWord_tokens (m : Mnemonic) (cond : Condition) {ops : List Operand} (readable : ∀ op ∈ ops, op.Readable) :
    ∀ w ∈ (tokens m cond ops).map String.toList, IsWord w := by
  intro w hw
  obtain ⟨s, hs, rfl⟩ := List.mem_map.mp hw
  exact (isToken_tokens m cond readable s hs).word

theorem body_eq_append (m : Mnemonic) (cond : Condition) (ops : List Operand) :
    ∃ cs, body m cond ops = m.name.toList ++ cs := by
  unfold body tokens
  rw [List.map_cons, intercalate_flatMap]
  exact ⟨_, rfl⟩

/-- **An IT is taken**, up to the semicolon behind its condition. -/
theorem takeBlock_it {cond : Condition} (conditional : cond ≠ .al) (valid : cond ≠ .nv) (cs : List Char) :
    takeBlock ('I' :: 't' :: ' ' :: cond.name.toList ++ ';' :: cs) = .ok (some cond, stripChars cs) := by
  have visible : IsToken cond.name.toList := isToken_condition cond
  -- the first semicolon is the one behind the condition
  have front : ∀ c ∈ 'I' :: 't' :: ' ' :: cond.name.toList, (c != ';') = true := by
    intro c hc
    simp only [List.mem_cons] at hc
    rcases hc with rfl | rfl | rfl | hc
    · decide
    · decide
    · decide
    · simpa using (visible.plain c hc).2
  have it : startsNoCase (String.ofList ('I' :: 't' :: ' ' :: cond.name.toList ++ ';' :: cs)) "it " = true :=
    startsNoCase_it _
  obtain ⟨named, block⟩ := ofName?_it conditional valid
  unfold takeBlock
  rw [if_pos it, List.span_eq_takeWhile_dropWhile, List.takeWhile_append_of_pos front,
    List.dropWhile_append_of_pos front]
  simp [visible.word.stripChars, named, block]

/-- **The IT in front of an instruction is taken**, if it has one. -/
theorem takeBlock_text {f : Form} {cond : Condition} (valid : cond ≠ .nv) {ops : List Operand}
    (readable : ∀ op ∈ ops, op.Readable) :
    takeBlock (stripChars (Instruction.text ⟨some f, cond, ops⟩).toList) =
      .ok (if cond = .al then none else some cond, body f.mnemonic cond ops) := by
  have words := isWord_tokens f.mnemonic cond readable
  have unstripped : stripChars (body f.mnemonic cond ops) = body f.mnemonic cond ops := stripChars_words words
  obtain ⟨cs, front⟩ := body_eq_append f.mnemonic cond ops
  rw [Instruction.toList_text]
  by_cases always : cond = .al
  · rw [if_pos always, if_pos always, List.nil_append, unstripped]
    have mnemonic : startsNoCase (String.ofList (body f.mnemonic cond ops)) "it " = false := by
      rw [front]
      exact startsNoCase_mnemonic _ _
    unfold takeBlock
    rw [if_neg (by simp [mnemonic])]
  · rw [if_neg always, if_neg always]
    have some : body f.mnemonic cond ops ≠ [] := by
      rw [front]
      exact List.append_ne_nil_of_left_ne_nil (isToken_mnemonic f.mnemonic).word.nonempty _
    have back : ∀ c ∈ (body f.mnemonic cond ops).getLast?, isBlank c = false := (ends_words words).2
    have whole : stripChars ('I' :: 't' :: ' ' :: (cond.name.toList ++ [';', ' ']) ++ body f.mnemonic cond ops) = _ :=
      stripChars_append (by decide) back some
    have text : ('I' :: 't' :: ' ' :: (cond.name.toList ++ [';', ' ']) ++ body f.mnemonic cond ops) =
        'I' :: 't' :: ' ' :: cond.name.toList ++ ';' :: ' ' :: body f.mnemonic cond ops := by
      simp
    rw [whole, text, takeBlock_it always valid, stripChars_cons (by decide), unstripped]

/-- There is no comma among the words of an instruction. -/
theorem map_comma_body {m : Mnemonic} {cond : Condition} {ops : List Operand} (readable : ∀ op ∈ ops, op.Readable) :
    ((body m cond ops).map fun c => if c = ',' then ' ' else c) = body m cond ops := by
  have other : ∀ c ∈ body m cond ops, (if c = ',' then ' ' else c) = id c := by
    intro c hc
    rcases mem_intercalate hc with rfl | ⟨w, hw, hc⟩
    · decide
    · obtain ⟨s, hs, rfl⟩ := List.mem_map.mp hw
      exact if_neg ((isToken_tokens m cond readable s hs).plain c hc).1
  rw [List.map_congr_left other, List.map_id]

/-- A mnemonic is read back. -/
theorem Mnemonic.ofName?_name (m : Mnemonic) : ofName? m.name = some m := by
  have table : ∀ m ∈ all, ofName? m.name = some m := by decide
  exact table m m.mem_all

theorem checkBlock_text (cond : Condition) : checkBlock (if cond = .al then none else some cond) cond = .ok () := by
  unfold checkBlock
  by_cases always : cond = .al <;> simp [always]

/-- **An instruction is read from its text**, if it is the one that is made of its mnemonic and operands. -/
theorem Instruction.parse_text {f : Form} {cond : Condition} (valid : cond ≠ .nv) {code : Nat} (register : code < 16)
    {ops : List Operand} (readable : ∀ op ∈ Operand.register code :: ops, op.Readable) {inst : Instruction}
    (made : make f.mnemonic (.register code :: ops) cond = .ok inst) :
    parse (text ⟨some f, cond, .register code :: ops⟩) = .ok inst := by
  have words : ∀ s ∈ tokens f.mnemonic cond (.register code :: ops), IsWord s.toList :=
    fun s hs => (isToken_tokens f.mnemonic cond readable s hs).word
  have cut : split ' ' true (String.ofList (body f.mnemonic cond (.register code :: ops))) =
      tokens f.mnemonic cond (.register code :: ops) := split_words words
  unfold parse
  rw [takeBlock_text valid readable]
  simp only [bind, Except.bind, map_comma_body readable, cut]
  unfold tokens
  simp only [Mnemonic.ofName?_name, takeCondition_tokens cond register, checkBlock_text, mapM_parseOperand readable, made]

/-! ## Both directions -/

theorem Operand.Readable.of_lt {code n : Nat} (h : code < n) (le : n ≤ 16) : (Operand.register code).Readable :=
  .register (by omega)

/-- **The operands that a form can hold** begin with a register, and every one of them can be read back. -/
theorem Form.Takes.readable {f : Form} {ops : List Operand} (h : f.Takes ops) :
    (∃ code < 16, ∃ rest, ops = .register code :: rest) ∧ ∀ op ∈ ops, op.Readable := by
  cases h with
  | data _ hd hm =>
    refine ⟨⟨_, by omega, _, rfl⟩, ?_⟩
    simp [Operand.Readable.of_lt hd, Operand.Readable.of_lt hm]
  | addSub _ hd hn hm =>
    refine ⟨⟨_, by omega, _, rfl⟩, ?_⟩
    simp [Operand.Readable.of_lt hd, Operand.Readable.of_lt hn, Operand.Readable.of_lt hm]
  | addSubImmediate _ hd hn hv =>
    refine ⟨⟨_, by omega, _, rfl⟩, ?_⟩
    simp [Operand.Readable.of_lt hd, Operand.Readable.of_lt hn, Operand.Readable.immediate (Nat.lt_trans hv (by decide))]
  | byte _ hd hv =>
    refine ⟨⟨_, by omega, _, rfl⟩, ?_⟩
    simp [Operand.Readable.of_lt hd, Operand.Readable.immediate (Nat.lt_trans hv (by decide))]
  | high _ hd hm =>
    refine ⟨⟨_, by omega, _, rfl⟩, ?_⟩
    simp [Operand.Readable.of_lt hd, Operand.Readable.of_lt hm]

/-- **What `make` gives**: the form is one of the mnemonic, and holds the operands. -/
theorem Instruction.form_of_make {m : Mnemonic} {ops : List Operand} {cond : Condition} {inst : Instruction}
    (h : make m ops cond = .ok inst) : ∃ f : Form, inst = ⟨some f, cond, ops⟩ ∧ f.mnemonic = m ∧ f.Takes ops := by
  unfold make at h
  split at h
  · cases h
  · split at h
    · rename_i f found
      cases h
      have candidate := List.mem_of_find?_eq_some found
      have clean := List.find?_some found
      unfold candidates at candidate
      simp only [List.mem_filter, Bool.and_eq_true, beq_iff_eq] at candidate
      exact ⟨f, rfl, candidate.2.1, Form.takes_of_faultless candidate.2.2 (Option.isNone_iff_eq_none.mp clean)⟩
    · split at h <;> cases h

/-- **An instruction that was made and encoded** is decoded from its bytes and read from its text, and as an entry of a
fixture its bytes and its text agree. -/
theorem Instruction.agrees_of_encode {m : Mnemonic} {ops : List Operand} {cond : Condition} {inst : Instruction}
    {bytes : List Byte} (made : make m ops cond = .ok inst) (encoded : inst.encode = .ok bytes) :
    decodeSingle bytes = .ok inst ∧ parse inst.text = .ok inst ∧
      ∀ line, (Fixture.verifyEntry .t32 ⟨line, bytes, inst.text⟩).mismatch = none := by
  obtain ⟨f, rfl, rfl, takes⟩ := form_of_make made
  obtain ⟨⟨code, register, rest, rfl⟩, readable⟩ := takes.readable
  have valid : cond ≠ .nv := by
    rintro rfl
    simp [encode] at encoded
  have decoded := decodeSingle_of_encode encoded
  have parsed := parse_text valid register readable made
  refine ⟨decoded, parsed, ?_⟩
  intro line
  simp [Fixture.verifyEntry, Fixture.checkT32, decoded, parsed, encoded]

/-- `agrees_of_encode` on a shift that is conditional. -/
theorem Instruction.agrees_of_encode_lsl :
    make .lsl [.register 1, .register 2] .lt = .ok ⟨some (.data .lsl), .lt, [.register 1, .register 2]⟩ ∧
      encode ⟨some (.data .lsl), .lt, [.register 1, .register 2]⟩ = .ok [0xb8, 0xbf, 0x91, 0x40] ∧
      decodeSingle [0xb8, 0xbf, 0x91, 0x40] = .ok ⟨some (.data .lsl), .lt, [.register 1, .register 2]⟩ ∧
      parse (text ⟨some (.data .lsl), .lt, [.register 1, .register 2]⟩) =
        .ok ⟨some (.data .lsl), .lt, [.register 1, .register 2]⟩ ∧
      ∀ line, (Fixture.verifyEntry .t32
        ⟨line, [0xb8, 0xbf, 0x91, 0x40], text ⟨some (.data .lsl), .lt, [.register 1, .register 2]⟩⟩).mismatch = none :=
  have made : make .lsl [.register 1, .register 2] .lt = .ok ⟨some (.data .lsl), .lt, [.register 1, .register 2]⟩ := rfl
  ⟨made, rfl, agrees_of_encode made rfl⟩

end ArmToolkit.T32
