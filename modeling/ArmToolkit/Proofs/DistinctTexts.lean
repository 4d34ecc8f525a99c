import ArmToolkit.Fixture.Verify
import ArmToolkit.Proofs.OperandReading

/-!
# `Proofs.DistinctTexts` — an instruction is known by its text

## Contents
- **Headings.** `Heading` is what the first word of a text says: a mnemonic, a move, or a condition to branch under. It is
  read back from the word (`Heading.ofText_text`), which ends at the first blank (`Instruction.parts_of_text`).
- **Operands that are left out.** The mnemonic of a form that leaves out an operand has no other form, and the operands of
  such a form are known by what is printed (`Form.ops_of_texts`).
- **Equal texts.** `Instruction.Decodes.eq_of_text`: words whose texts are equal are decoded to the same instruction.
- **Fixtures.** Entries with equal texts that agree with the toolkit have the same bytes (`Instruction.text_determines`).
-/

namespace ArmToolkit.A64

open Text

/-! ## Headings -/

/-- **What the first word of a text says.** -/
inductive Heading
  | move
  | branch (cond : Condition)
  | named (m : Mnemonic)

namespace Heading

/-- The word itself. -/
def text : Heading → String
  | move => "mov"
  | branch cond => "b." ++ cond.name
  | named m => m.name

/-- The heading that a word is read as. Only a condition stands behind a dot. -/
def ofText (s : String) : Heading :=
  if '.' ∈ s.toList then .branch ((Condition.ofName? (String.ofList (s.toList.drop 2))).getD .al)
  else
    match Mnemonic.ofName? s with
    | some m => .named m
    | none => .move

end Heading

theorem Mnemonic.mem_all (m : Mnemonic) : m ∈ all := by cases m <;> decide

/-- Names have neither dots nor blanks. -/
theorem Mnemonic.name_plain (m : Mnemonic) : '.' ∉ m.name.toList ∧ ' ' ∉ m.name.toList := by
  have table : ∀ m ∈ all, (m.name.toList.all fun c => c != '.' && c != ' ') = true := by decide +kernel
  have letters : ∀ c ∈ m.name.toList, c ≠ '.' ∧ c ≠ ' ' := by simpa using table m m.mem_all
  exact ⟨fun dot => (letters _ dot).1 rfl, fun blank => (letters _ blank).2 rfl⟩

/-- The name of a mnemonic stands for it, unless it is a conditional branch. -/
theorem Mnemonic.ofName?_name {m : Mnemonic} (other : m ≠ .bCond) : ofName? m.name = some m := by
  have table : ∀ m ∈ all, m ≠ .bCond → ofName? m.name = some m := by decide +kernel
  exact table m m.mem_all other

/-- **A heading is read back**; no heading has the name of a conditional branch alone. -/
theorem Heading.ofText_text {h : Heading} (proper : h ≠ .named .bCond) : ofText h.text = h := by
  cases h with
  | move =>
    have plain : '.' ∉ (text .move).toList := by decide
    have unnamed : Mnemonic.ofName? (text .move) = none := by decide
    rw [ofText, if_neg plain, unnamed]
  | branch c =>
    have dotted : '.' ∈ (text (.branch c)).toList := by cases c <;> decide
    have read : Condition.ofName? (String.ofList ((text (.branch c)).toList.drop 2)) = some c := by
      cases c <;> decide
    rw [ofText, if_pos dotted, read]
    rfl
  | named m =>
    rw [ofText, text, if_neg m.name_plain.1, Mnemonic.ofName?_name fun same => proper (congrArg _ same)]

theorem Heading.text_injective {h h' : Heading} (proper : h ≠ .named .bCond) (proper' : h' ≠ .named .bCond)
    (same : h.text = h'.text) : h = h' := by
  rw [← ofText_text proper, same, ofText_text proper']

/-- A heading is one word. -/
theorem Heading.blank_not_mem (h : Heading) : ' ' ∉ h.text.toList := by
  cases h with
  | move => decide
  | branch c => cases c <;> decide
  | named m =>
    exact m.name_plain.2

/-- The heading of an instruction. -/
def Form.heading (f : Form) (cond : Condition) (ops : List Operand) : Heading :=
  match f with
  | .branchCond => .branch cond
  | .moveElement => .move
  | .bitwise .orr => if (arg ops 1).reg = (arg ops 2).reg then .move else .named .orr
  | f => .named f.mnemonic

theorem Form.shownMnemonic_eq (f : Form) (cond : Condition) (ops : List Operand) :
    f.shownMnemonic cond ops = (f.heading cond ops).text := by
  cases f with
  | bitwise op =>
    cases op with
    | orr =>
      show (if (arg ops 1).reg = (arg ops 2).reg then "mov" else "orr") =
        (if (arg ops 1).reg = (arg ops 2).reg then Heading.move else .named .orr).text
      split <;> rfl
    | _ => rfl
  | _ => rfl

theorem Form.mnemonic_ne_bCond {f : Form} (other : f ≠ .branchCond) : f.mnemonic ≠ .bCond := by
  cases f <;>
    first
    | exact absurd rfl other
    | decide
    | (rename_i a; cases a <;> decide)
    | (rename_i a c; cases a <;> cases c <;> decide)

theorem Form.heading_ne_bCond (f : Form) (cond : Condition) (ops : List Operand) :
    f.heading cond ops ≠ .named .bCond := by
  unfold heading
  split
  · exact nofun
  · exact nofun
  · split <;> exact nofun
  · rename_i other _ _
    intro same
    injection same with same
    exact mnemonic_ne_bCond other same

/-- Texts are cut at their first blanks. -/
theorem eq_of_append_of_blank {xs xs' ys ys' : List Char} (word : ' ' ∉ xs) (word' : ' ' ∉ xs')
    (rest : ∀ c ∈ ys.head?, c = ' ') (rest' : ∀ c ∈ ys'.head?, c = ' ') (same : xs ++ ys = xs' ++ ys') :
    xs = xs' ∧ ys = ys' := by
  have front : ∀ xs ys : List Char, ' ' ∉ xs → (∀ c ∈ ys.head?, c = ' ') →
      (xs ++ ys).takeWhile (· != ' ') = xs := by
    intro xs ys word rest
    rw [List.takeWhile_append_of_pos fun c hc => bne_iff_ne.mpr fun (blank : c = ' ') => word (blank ▸ hc)]
    cases ys with
    | nil => rw [List.takeWhile_nil, List.append_nil]
    | cons c ys =>
      obtain rfl := rest c rfl
      rw [List.takeWhile_cons_of_neg (by decide), List.append_nil]
  have words : xs = xs' := by rw [← front xs ys word rest, same, front xs' ys' word' rest']
  subst words
  exact ⟨rfl, List.append_cancel_left same⟩

namespace Instruction

/-- What follows the first word of a text. -/
def tail (texts : List String) : List Char := if texts.isEmpty then [] else ' ' :: (join ", " texts).toList

theorem toList_text (f : Form) (cond : Condition) (ops : List Operand) :
    (text ⟨some f, cond, ops⟩).toList = (f.heading cond ops).text.toList ++ tail (f.operandTexts ops) := by
  simp only [text, tail, Form.shownMnemonic_eq]
  split
  · rw [List.append_nil]
  · simp

theorem join_of_tail {ss ss' : List String} (same : tail ss = tail ss') : join ", " ss = join ", " ss' := by
  cases ss with
  | nil =>
    cases ss' with
    | nil => rfl
    | cons s ss => cases same
  | cons s ss =>
    cases ss' with
    | nil => cases same
    | cons s' ss' => exact String.toList_inj.mp (List.cons.inj same).2

/-- **Equal texts have equal headings, and equal operands behind them.** -/
theorem parts_of_text {f f' : Form} {cond cond' : Condition} {ops ops' : List Operand}
    (same : text ⟨some f, cond, ops⟩ = text ⟨some f', cond', ops'⟩) :
    f.heading cond ops = f'.heading cond' ops' ∧
      join ", " (f.operandTexts ops) = join ", " (f'.operandTexts ops') := by
  have texts := congrArg String.toList same
  have blank : ∀ ss, ∀ c ∈ (tail ss).head?, c = ' ' := by
    intro ss c hc
    unfold tail at hc
    split at hc
    · cases hc
    · exact (Option.some.inj hc).symm
  rw [toList_text, toList_text] at texts
  obtain ⟨front, back⟩ := eq_of_append_of_blank (Heading.blank_not_mem _) (Heading.blank_not_mem _) (blank _) (blank _) texts
  exact ⟨Heading.text_injective (f.heading_ne_bCond _ _) (f'.heading_ne_bCond _ _) (String.toList_inj.mp front),
    join_of_tail back⟩

end Instruction

/-! ## Operands that are left out -/

/-- Texts without commas are told apart by the commas between them. -/
theorem splitOnP_join (s : String) (ss : List String) (plain : ∀ t ∈ s :: ss, ',' ∉ t.toList) :
    (join ", " (s :: ss)).toList.splitOnP (· == ',') = s.toList :: ss.map fun t => ' ' :: t.toList := by
  have whole : ∀ t ∈ s :: ss, ∀ c ∈ t.toList, (c == ',') = false := by
    intro t ht c hc
    exact beq_eq_false_iff_ne.mpr fun (comma : c = ',') => plain t ht (comma ▸ hc)
  unfold join
  rw [String.toList_intercalate]
  induction ss generalizing s with
  | nil => simpa using List.splitOnP_eq_singleton (whole s List.mem_cons_self)
  | cons t ss ih =>
    have later := ih t (fun x hx => plain x (List.mem_cons_of_mem _ hx)) fun x hx => whole x (List.mem_cons_of_mem _ hx)
    rw [List.map_cons, List.map_cons, List.intercalate_cons_cons, ← List.map_cons, List.append_assoc]
    show (s.toList ++ ',' :: (' ' :: ", ".toList.intercalate ((t :: ss).map String.toList))).splitOnP _ = _
    rw [List.splitOnP_append_cons_of_forall_mem (whole s List.mem_cons_self) ',' rfl,
      List.splitOnP_cons_eq_if_modifyHead, later]
    rfl

theorem eq_of_join {s s' : String} {ss ss' : List String} (plain : ∀ t ∈ s :: ss, ',' ∉ t.toList)
    (plain' : ∀ t ∈ s' :: ss', ',' ∉ t.toList) (same : join ", " (s :: ss) = join ", " (s' :: ss')) :
    s = s' ∧ ss = ss' := by
  have cut := splitOnP_join s ss plain
  rw [same, splitOnP_join s' ss' plain', List.cons.injEq] at cut
  obtain ⟨head, rest⟩ := cut
  have apart : Function.Injective fun t : String => ' ' :: t.toList := fun t t' h =>
    String.toList_inj.mp (List.cons.inj h).2
  exact ⟨String.toList_inj.mp head.symm, (List.map_injective_iff.mpr apart rest).symm⟩

/-- A pattern is known by its name. -/
theorem patternName_injective {k k' : Nat} (h : k < 32) (h' : k' < 32)
    (same : Pattern.name (Operand.ofPattern k).patternBits = Pattern.name (Operand.ofPattern k').patternBits) :
    k = k' := by
  have table : ∀ k < 32, ∀ k' < 32, Pattern.name (Operand.ofPattern k).patternBits =
      Pattern.name (Operand.ofPattern k').patternBits → k = k' := by decide +kernel
  exact table k h k' h' same

/-- A pattern is known by what is printed for it. -/
theorem patternText_injective {k k' : Nat} (h : k < 32) (h' : k' < 32)
    (same : patternText (.ofPattern k) = patternText (.ofPattern k')) : k = k' := by
  have all : ∀ k < 32, (Operand.ofPattern k).value = Pattern.all → k = 31 := by decide
  unfold patternText at same
  split at same <;> split at same <;> rename_i left right
  · rw [all k h left, all k' h' right]
  · cases same
  · cases same
  · exact patternName_injective h h' (List.cons.inj same).1

theorem decInt_injective {z z' : Int} (same : decInt z = decInt z') : z = z' := by
  have digits : Text.intDigits 10 z = Text.intDigits 10 z' := by
    simpa [decInt] using congrArg String.toList same
  rw [← integerOf_intDigits z, digits, integerOf_intDigits]

/-- A pattern takes at most one word, and a pattern with a multiplier takes two. -/
theorem patternText_ne_pair (p : Operand) (s t : String) : patternText p ≠ [s, t] := by
  unfold patternText
  split <;> simp

/-- **A pattern and a multiplier are known by what is printed for them.** -/
theorem multipleText_injective {k k' : Nat} (h : k < 32) (h' : k' < 32) {v v' : BitVec 64}
    (same : multipleText (.ofPattern k) (.ofImm v) = multipleText (.ofPattern k') (.ofImm v')) : k = k' ∧ v = v' := by
  have value : ∀ {u u' : BitVec 64}, (Operand.ofImm u).value = (Operand.ofImm u').value → u = u' :=
    fun equal => BitVec.eq_of_toInt_eq equal
  unfold multipleText at same
  by_cases one : (Operand.ofImm v).value = 1 <;> by_cases one' : (Operand.ofImm v').value = 1
  · rw [if_pos one, if_pos one'] at same
    exact ⟨patternText_injective h h' same, value (one.trans one'.symm)⟩
  · rw [if_pos one, if_neg one'] at same
    exact absurd same (patternText_ne_pair _ _ _)
  · rw [if_neg one, if_pos one'] at same
    exact absurd same.symm (patternText_ne_pair _ _ _)
  · rw [if_neg one, if_neg one', List.cons.injEq, List.cons.injEq] at same
    obtain ⟨name, number, -⟩ := same
    refine ⟨patternName_injective h h' name, value (decInt_injective (String.toList_inj.mp ?_))⟩
    simpa using congrArg String.toList number

theorem patternName_plain {k : Nat} (h : k < 32) : ',' ∉ (Pattern.name (Operand.ofPattern k).patternBits).toList := by
  have table : ∀ k < 32, ',' ∉ (Pattern.name (Operand.ofPattern k).patternBits).toList := by decide +kernel
  exact table k h

/-- What is printed for a pattern has no commas. -/
theorem patternText_plain {k : Nat} (h : k < 32) : ∀ t ∈ patternText (.ofPattern k), ',' ∉ t.toList := by
  unfold patternText
  split
  · exact nofun
  · exact fun t mem => List.mem_singleton.mp mem ▸ patternName_plain h

theorem multipleText_plain {k : Nat} (h : k < 32) (v : BitVec 64) :
    ∀ t ∈ multipleText (.ofPattern k) (.ofImm v), ',' ∉ t.toList := by
  have factor : ',' ∉ ("mul #" ++ decInt (Operand.ofImm v).value).toList := by
    intro comma
    rw [String.toList_append, List.mem_append] at comma
    rcases comma with mark | digit
    · revert mark
      decide
    · rw [decInt, String.toList_ofList] at digit
      exact absurd (solid_intDigits _ _ digit) (by decide)
  unfold multipleText
  split
  · exact patternText_plain h
  · intro t ht
    simp only [List.mem_cons, List.not_mem_nil, or_false] at ht
    rcases ht with rfl | rfl
    · exact patternName_plain h
    · exact factor

/-- A word has no commas. -/
theorem not_comma {s : String} (solid : Lexeme.Solid s.toList) : ',' ∉ s.toList :=
  fun comma => absurd (solid _ comma) (by decide)

theorem solid_generalText (c : Code31) (r : XReg) : Lexeme.Solid ((Operand.ofX r).generalText c).toList := by
  have text : ((Operand.ofX r).generalText c).toList =
      (Operand.generalName ((Operand.ofX r).kind == .x) c r.code).toList := by
    show (_ ++ "").toList = _
    rw [String.append_empty]
    rfl
  rw [text]
  exact solid_generalName _ _ _

/-- A register without a shift. -/
theorem lexemes_register (c : Code31) (r : XReg) :
    lexemes ((Operand.ofX r).generalText c).toList = [.operand (.ofX r)] := by
  have read := lexemes_generalText c r .lsl 0
  cases r with | mk n width => cases width <;> exact read

/-- A register is known by its text. -/
theorem generalText_injective {c : Code31} {r r' : XReg}
    (same : (Operand.ofX r).generalText c = (Operand.ofX r').generalText c) : Operand.ofX r = Operand.ofX r' := by
  have read := lexemes_register c r
  rw [same, lexemes_register] at read
  exact (Lexeme.operand.inj (List.cons.inj read).1).symm

/-- A predicate register is known by its text. -/
theorem predicateText_injective {r r' : PReg}
    (same : (Operand.ofP r).predicateText = (Operand.ofP r').predicateText) : Operand.ofP r = Operand.ofP r' := by
  have read := lexemes_predicateText r
  rw [same, lexemes_predicateText] at read
  exact (Lexeme.operand.inj (List.cons.inj read).1).symm

/-- The register of a return is known by what is printed of it. -/
theorem ret_injective {n n' : Nat}
    (same : join ", " (Form.operandTexts .ret [.ofX ⟨n, .x⟩]) = join ", " (Form.operandTexts .ret [.ofX ⟨n', .x⟩])) :
    n = n' := by
  have shown : ∀ n, lexemes (join ", " (Form.operandTexts .ret [.ofX ⟨n, .x⟩])).toList =
      if n = 30 then [] else [.operand (.ofX ⟨n, .x⟩)] := by
    intro n
    rw [lexemes_join]
    show List.flatMap _ (if n = 30 then [] else [(Operand.ofX ⟨n, .x⟩).generalText .zero]) = _
    split
    · rfl
    · rw [List.flatMap_singleton]
      exact lexemes_register .zero ⟨n, .x⟩
  have read := shown n
  rw [same, shown n'] at read
  split at read <;> split at read
  · omega
  · cases read
  · cases read
  · injection read with head
    injection head with op
    exact (congrArg Operand.reg op).symm

namespace Instruction.Decodes

variable {f : Form} {lane lane' : Option LaneSize} {ops ops' : List Operand} {w w' : Word}

/-- **The operands of a form that leaves some out** are known by what is printed of them. -/
theorem ops_of_texts (h : Decodes f lane w ops) (h' : Decodes f lane' w' ops') (omits : f.omits = true)
    (same : join ", " (f.operandTexts ops) = join ", " (f.operandTexts ops')) : ops = ops' := by
  have row := h.operands
  have row' := h'.operands
  -- three forms leave operands out; what they print has no comma inside, so the parts can be told apart
  cases f with
  | ret =>
    simp only [Form.slots, List.forall₂_cons_left_iff, List.forall₂_nil_left_iff] at row row'
    obtain ⟨a, -, ha, rfl, rfl⟩ := row
    obtain ⟨a', -, ha', rfl, rfl⟩ := row'
    cases ha
    cases ha'
    exact congrArg (fun n => [Operand.ofX ⟨n, .x⟩]) (ret_injective same)
  | ptrue setsFlags =>
    simp only [Form.slots, List.forall₂_cons_left_iff, List.forall₂_nil_left_iff] at row row'
    obtain ⟨a, -, ha, ⟨b, -, hb, rfl, rfl⟩, rfl⟩ := row
    obtain ⟨a', -, ha', ⟨b', -, hb', rfl, rfl⟩, rfl⟩ := row'
    cases ha
    cases hb
    cases ha'
    cases hb'
    have lt : Field.get ⟨5, 5⟩ w < 32 := Field.get_lt ⟨5, 5⟩ w
    have lt' : Field.get ⟨5, 5⟩ w' < 32 := Field.get_lt ⟨5, 5⟩ w'
    obtain ⟨register, pattern⟩ := eq_of_join
      (List.forall_mem_cons.mpr ⟨not_comma (solid_predicateText ⟨Form.pd.get w, LaneRule.element.apply lane, none⟩),
        patternText_plain lt⟩)
      (List.forall_mem_cons.mpr ⟨not_comma (solid_predicateText ⟨Form.pd.get w', LaneRule.element.apply lane', none⟩),
        patternText_plain lt'⟩) same
    rw [predicateText_injective register, patternText_injective lt lt' pattern]
  | elementCount op element =>
    simp only [Form.slots, List.forall₂_cons_left_iff, List.forall₂_nil_left_iff] at row row'
    obtain ⟨a, -, ha, ⟨b, -, hb, ⟨c, -, hc, rfl, rfl⟩, rfl⟩, rfl⟩ := row
    obtain ⟨a', -, ha', ⟨b', -, hb', ⟨c', -, hc', rfl, rfl⟩, rfl⟩, rfl⟩ := row'
    cases ha
    cases hb
    cases hc
    cases ha'
    cases hb'
    cases hc'
    have lt : Field.get ⟨5, 5⟩ w < 32 := Field.get_lt ⟨5, 5⟩ w
    have lt' : Field.get ⟨5, 5⟩ w' < 32 := Field.get_lt ⟨5, 5⟩ w'
    obtain ⟨register, multiple⟩ := eq_of_join
      (List.forall_mem_cons.mpr ⟨not_comma (solid_generalText .zero ⟨Slot.rd.get w, .x⟩),
        multipleText_plain lt (Slot.natImm (Field.get ⟨16, 4⟩ w + 1))⟩)
      (List.forall_mem_cons.mpr ⟨not_comma (solid_generalText .zero ⟨Slot.rd.get w', .x⟩),
        multipleText_plain lt' (Slot.natImm (Field.get ⟨16, 4⟩ w' + 1))⟩) same
    obtain ⟨pattern, multiplier⟩ := multipleText_injective lt lt' multiple
    rw [generalText_injective register, pattern, multiplier]
  | _ => cases omits

end Instruction.Decodes

/-! ## Equal texts -/

namespace Form

/-- What the heading of an instruction tells about its form. -/
theorem heading_cases (f : Form) (cond : Condition) (ops : List Operand) :
    (f = .branchCond ∧ f.heading cond ops = .branch cond) ∨
    ((f = .moveElement ∨ f.IsMove ops) ∧ f.heading cond ops = .move) ∨
    (f ≠ .branchCond ∧ ¬ f.IsMove ops ∧ f.heading cond ops = .named f.mnemonic) := by
  unfold heading
  split
  · exact .inl ⟨rfl, rfl⟩
  · exact .inr (.inl ⟨.inl rfl, rfl⟩)
  · split
    · rename_i same
      exact .inr (.inl ⟨.inr ⟨rfl, same⟩, rfl⟩)
    · rename_i differ
      exact .inr (.inr ⟨nofun, fun move => differ move.2, rfl⟩)
  · rename_i branch _ orr
    exact .inr (.inr ⟨branch, fun move => orr move.1, rfl⟩)

/-- The mnemonic of a form that leaves out operands has no other form. -/
theorem eq_of_omits {f g : Form} (omits : f.omits = true) (same : g.mnemonic = f.mnemonic) : g = f := by
  have table : ∀ f ∈ all, f.omits = true → ∀ g ∈ all, g.mnemonic = f.mnemonic → g = f := by decide +kernel
  exact table f (mem_all f) omits g (mem_all g) same

end Form

namespace Instruction.Decodes

variable {f f' : Form} {lane lane' : Option LaneSize} {ops ops' : List Operand} {w w' : Word}

/-- The operands of a move. -/
theorem ops_of_move (h : Decodes f lane w ops) (move : f.IsMove ops) :
    ∃ a b, ops = [.ofZ a, .ofZ b, .ofZ b] ∧ f.shownOps ops = [.ofZ a, .ofZ b] := by
  have shown : f.shownOps ops = ops.take 2 := if_pos move
  obtain ⟨rfl, same⟩ := move
  obtain ⟨a, b, c, rfl⟩ := h.eq_of_bitwise
  obtain rfl : b = c := same
  exact ⟨_, _, rfl, shown⟩

/-- What a form shows when it is no move. -/
theorem shownOps_of_not (move : ¬ f.IsMove ops) : f.shownOps ops = ops := if_neg move

theorem shownOps_of_ne (other : f ≠ .bitwise .orr) : f.shownOps ops = ops := shownOps_of_not fun move => other move.1

/-- A form that leaves out operands is told by its mnemonic. -/
theorem heading_of_omits (omits : f.omits = true) (cond : Condition) (ops : List Operand) :
    f.heading cond ops = .named f.mnemonic := by
  cases f with
  | ret | ptrue | elementCount => rfl
  | _ => cases omits

/-- Equal headings, of which one is that of a form that leaves out operands, are of one form. -/
theorem form_eq_of_omits (omits : f.omits = true) {cond cond' : Condition}
    (heading : f.heading cond ops = f'.heading cond' ops') : f' = f := by
  rw [heading_of_omits omits] at heading
  rcases f'.heading_cases cond' ops' with ⟨-, is⟩ | ⟨-, is⟩ | ⟨-, -, is⟩
  · exact absurd (heading.trans is) nofun
  · exact absurd (heading.trans is) nofun
  · exact Form.eq_of_omits omits (Heading.named.inj (heading.trans is)).symm

/-- Moves that show the same operands are the same. An element has an index, which a vector has not. -/
theorem eq_of_moves (h : Decodes f lane w ops) (h' : Decodes f' lane' w' ops')
    (move : f = .moveElement ∨ f.IsMove ops) (move' : f' = .moveElement ∨ f'.IsMove ops')
    (shown : f.shownOps ops = f'.shownOps ops') : f = f' ∧ ops = ops' := by
  have long : ∀ {lane w ops}, Decodes .moveElement lane w ops →
      Form.shownOps .moveElement ops = ops ∧ ops.length = 3 := fun h =>
    ⟨shownOps_of_ne nofun, h.operands.length_eq.symm⟩
  rcases move with rfl | move <;> rcases move' with rfl | move'
  · rw [(long h).1, (long h').1] at shown
    exact ⟨rfl, shown⟩
  · obtain ⟨a, b, -, short⟩ := h'.ops_of_move move'
    have length := congrArg List.length shown
    rw [(long h).1, (long h).2, short] at length
    cases length
  · obtain ⟨a, b, -, short⟩ := h.ops_of_move move
    have length := congrArg List.length shown
    rw [(long h').1, (long h').2, short] at length
    cases length
  · obtain ⟨a, b, rfl, two⟩ := h.ops_of_move move
    obtain ⟨a', b', rfl, two'⟩ := h'.ops_of_move move'
    rw [two, two', List.cons.injEq, List.cons.injEq] at shown
    rw [shown.1, shown.2.1]
    exact ⟨move.1.trans move'.1.symm, rfl⟩

/-- **Instructions that show the same heading and operands are the same**, if they leave out none. -/
theorem eq_of_shown (h : Decodes f lane w ops) (h' : Decodes f' lane' w' ops')
    (heading : f.heading (conditionOf f w) ops = f'.heading (conditionOf f' w') ops')
    (shown : f.shownOps ops = f'.shownOps ops') :
    (⟨some f, conditionOf f w, ops⟩ : Instruction) = ⟨some f', conditionOf f' w', ops'⟩ := by
  rcases f.heading_cases (conditionOf f w) ops with ⟨rfl, is⟩ | ⟨move, is⟩ | ⟨other, plain, is⟩ <;>
    rcases f'.heading_cases (conditionOf f' w') ops' with ⟨rfl, is'⟩ | ⟨move', is'⟩ | ⟨other', plain', is'⟩ <;>
    rw [is, is'] at heading
  case inl.inl =>
    have other : Form.branchCond ≠ .bitwise .orr := nofun
    rw [shownOps_of_ne other, shownOps_of_ne other] at shown
    rw [Heading.branch.inj heading, shown]
  case inr.inl.inr.inl =>
    obtain ⟨rfl, rfl⟩ := h.eq_of_moves h' move move' shown
    have branch : f ≠ .branchCond := by
      rintro rfl
      rcases move with element | vector
      · cases element
      · exact nomatch vector.1
    rw [conditionOf_of_ne branch, conditionOf_of_ne branch]
  case inr.inr.inr.inr =>
    -- operands are accepted by one form of a mnemonic
    rw [shownOps_of_not plain, shownOps_of_not plain'] at shown
    subst shown
    have found := Form.resolve?_of_accepts h.row.accepts
    rw [Heading.named.inj heading, Form.resolve?_of_accepts h'.row.accepts] at found
    obtain rfl := Option.some.inj found
    rw [conditionOf_of_ne other, conditionOf_of_ne other]
  all_goals cases heading

/-- **Words with equal texts are decoded to one instruction.** -/
theorem eq_of_text (h : Decodes f lane w ops) (h' : Decodes f' lane' w' ops')
    (same : text ⟨some f, conditionOf f w, ops⟩ = text ⟨some f', conditionOf f' w', ops'⟩) :
    (⟨some f, conditionOf f w, ops⟩ : Instruction) = ⟨some f', conditionOf f' w', ops'⟩ := by
  obtain ⟨heading, texts⟩ := parts_of_text same
  cases omits : f.omits with
  | true =>
    obtain rfl := form_eq_of_omits omits heading
    have branch : f' ≠ .branchCond := by
      rintro rfl
      cases omits
    rw [h.ops_of_texts h' omits texts, conditionOf_of_ne branch, conditionOf_of_ne branch]
  | false =>
    cases omits' : f'.omits with
    | true =>
      obtain rfl := form_eq_of_omits omits' heading.symm
      rw [omits] at omits'
      cases omits'
    | false =>
      have shown := h.operandsOf_operandTexts omits
      rw [texts, h'.operandsOf_operandTexts omits'] at shown
      exact h.eq_of_shown h' heading shown.symm

end Instruction.Decodes

/-! ## Fixtures -/

theorem natOfBytes_lt (bs : List Byte) : natOfBytes bs < twoPow (8 * bs.length) := by
  induction bs with
  | nil => exact twoPow_pos 0
  | cons b bs ih =>
    have byte : b.toNat < 256 := b.isLt
    have width : twoPow (8 * (b :: bs).length) = 256 * twoPow (8 * bs.length) := by
      rw [List.length_cons, Nat.mul_succ, Nat.add_comm, twoPow_add]
      rfl
    rw [natOfBytes, width]
    omega

/-- Bytes are known by their number. -/
theorem natOfBytes_injective {bs cs : List Byte} (length : bs.length = cs.length) (same : natOfBytes bs = natOfBytes cs) :
    bs = cs := by
  induction bs generalizing cs with
  | nil => exact (List.length_eq_zero_iff.mp length.symm).symm
  | cons b bs ih =>
    cases cs with
    | nil => cases length
    | cons c cs =>
      have low : b.toNat < 256 := b.isLt
      have low' : c.toNat < 256 := c.isLt
      rw [natOfBytes, natOfBytes] at same
      have head : b = c := BitVec.eq_of_toNat_eq (by omega)
      rw [head, ih (Nat.succ.inj length) (by omega)]

/-- **As many bytes as a number has are known by it.** -/
theorem ofBytes_injective {n : Nat} {bs cs : List Byte} (hb : bs.length = n) (hc : cs.length = n)
    (same : ofBytes (8 * n) bs = ofBytes (8 * n) cs) : bs = cs := by
  apply natOfBytes_injective (hb.trans hc.symm)
  have numbers : natOfBytes bs % twoPow (8 * n) = natOfBytes cs % twoPow (8 * n) := congrArg BitVec.toNat same
  rwa [Nat.mod_eq_of_lt (hb ▸ natOfBytes_lt bs), Nat.mod_eq_of_lt (hc ▸ natOfBytes_lt cs)] at numbers

end ArmToolkit.A64

namespace ArmToolkit.Fixture

open A64 (ofBytes)

/-- **What an A64 entry that agrees says**: its four bytes are the word of an instruction with its text. -/
theorem checkA64_eq_none {e : Entry} (h : checkA64 e = none) :
    e.bytes.length = 4 ∧ ∃ inst, A64.Instruction.decode (ofBytes 32 e.bytes) = .ok inst ∧ inst.text = e.text ∧
      inst.encode = .ok (ofBytes 32 e.bytes) := by
  unfold checkA64 at h
  simp only at h
  split at h
  · cases h
  · rename_i length
    split at h
    · cases h
    · rename_i inst decoded
      split at h
      · cases h
      · rename_i text
        split at h
        · cases h
        · rename_i w encoded
          split at h
          · rename_i same
            exact ⟨not_not.mp length, inst, decoded, not_not.mp text, same ▸ encoded⟩
          · cases h

/-- **What a T32 entry that agrees says**: its text is read as an instruction with its bytes. -/
theorem checkT32_eq_none {e : Entry} (h : checkT32 e = none) :
    ∃ inst, T32.Instruction.parse e.text = .ok inst ∧ inst.encode = .ok e.bytes := by
  unfold checkT32 at h
  split at h
  · cases h
  · split at h
    · cases h
    · split at h
      · cases h
      · rename_i parsed read
        split at h
        · cases h
        · rename_i bytes encoded
          split at h
          · cases h
          · rename_i same
            exact ⟨parsed, read, not_not.mp same ▸ encoded⟩

end ArmToolkit.Fixture

namespace ArmToolkit.A64.Instruction

open Text Fixture

/-- **The text of an instruction determines it.** Two words that are decoded and have equal texts are decoded to the same
instruction. Two entries of a fixture that have equal texts and agree with the toolkit, for either instruction set, have
the same bytes. -/
theorem text_determines :
    (∀ (w w' : Word) (inst inst' : Instruction), decode w = .ok inst → decode w' = .ok inst' →
      inst.text = inst'.text → inst = inst') ∧
    ∀ (isa : InstructionSet) (e e' : Entry), (verifyEntry isa e).mismatch = none → (verifyEntry isa e').mismatch = none →
      e.text = e'.text → e.bytes = e'.bytes := by
  have words : ∀ (w w' : Word) (inst inst' : Instruction), decode w = .ok inst → decode w' = .ok inst' →
      inst.text = inst'.text → inst = inst' := by
    intro w w' inst inst' decoded decoded' same
    obtain ⟨f, lane, ops, read, rfl⟩ := decode_eq_ok_iff.mp decoded
    obtain ⟨f', lane', ops', read', rfl⟩ := decode_eq_ok_iff.mp decoded'
    exact read.eq_of_text read' same
  refine ⟨words, ?_⟩
  intro isa e e' agrees agrees' same
  -- the bytes of an entry that agrees are those of what its text is decoded to or read as
  cases isa with
  | a64 =>
    obtain ⟨length, inst, decoded, text, encoded⟩ := checkA64_eq_none agrees
    obtain ⟨length', inst', decoded', text', encoded'⟩ := checkA64_eq_none agrees'
    obtain rfl := words _ _ _ _ decoded decoded' (text.trans (same.trans text'.symm))
    rw [encoded, Except.ok.injEq] at encoded'
    exact ofBytes_injective length length' encoded'
  | t32 =>
    obtain ⟨inst, read, encoded⟩ := checkT32_eq_none agrees
    obtain ⟨inst', read', encoded'⟩ := checkT32_eq_none agrees'
    rw [same, read', Except.ok.injEq] at read
    subst read
    rw [encoded, Except.ok.injEq] at encoded'
    exact encoded'

/-- `text_determines` on two words that differ in the rotation of a bitmask, and on two entries of a fixture. -/
theorem text_determines_dupm :
    (∃ inst inst', decode 0x05c04e60 = .ok inst ∧ decode 0x05c00e60 = .ok inst' ∧ inst.text = inst'.text ∧ inst = inst') ∧
    ∃ bytes bytes' : List Byte, (verifyEntry .a64 ⟨1, bytes, "nop"⟩).mismatch = none ∧
      (verifyEntry .a64 ⟨2, bytes', "nop"⟩).mismatch = none ∧ bytes = bytes' := by
  have first : decode 0x05c04e60 = .ok ⟨some .dupm, .al, [.ofZ ⟨0, some .b⟩, .ofImm 0x87]⟩ := rfl
  have second : decode 0x05c00e60 = .ok ⟨some .dupm, .al, [.ofZ ⟨0, some .b⟩, .ofImm 0x87]⟩ := rfl
  have decoded : decode (ofBytes 32 [0x1f, 0x20, 0x03, 0xd5]) = .ok ⟨some .nop, .al, []⟩ := rfl
  have encoded : encode ⟨some .nop, .al, []⟩ = .ok (ofBytes 32 [0x1f, 0x20, 0x03, 0xd5]) := rfl
  have shown : text ⟨some .nop, .al, []⟩ = "nop" := rfl
  have agrees : ∀ line, (verifyEntry .a64 ⟨line, [0x1f, 0x20, 0x03, 0xd5], "nop"⟩).mismatch = none := by
    intro line
    simp only [verifyEntry, checkA64, decoded, encoded, shown]
    rfl
  exact ⟨⟨_, _, first, second, rfl, text_determines.1 _ _ _ _ first second rfl⟩,
    ⟨_, _, agrees 1, agrees 2, text_determines.2 .a64 _ _ (agrees 1) (agrees 2) rfl⟩⟩

end ArmToolkit.A64.Instruction
