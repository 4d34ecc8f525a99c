import ArmToolkit.A64.Disassembly
import ArmToolkit.Proofs.Immediates
import ArmToolkit.Proofs.Numerals
import Mathlib.Data.List.TakeDrop

/-!
# `Proofs.Lexemes` — operands read back from their text

The text of an operand does not depend on its kind alone: the place of the operand decides which name register 31 has
and how an immediate is written. Reading needs none of this. A text is cut into words, a word is read by its first
characters.

## Contents
- **Words.** `lexemes` cuts a text into words and reads them (`Lexeme.ofWord`).
- **Operands.** `Operand.lexemes` is what an operand is written with, whatever its place, and `Operand.Written` are the
  operands that have such lexemes. `lexemes_generalText` … `lexemes_memoryText`: the text of an operand is read as its
  lexemes.
-/

namespace ArmToolkit.A64

open Text Slot

/-! ## Words -/

/-- **What a word among the operands stands for.** -/
inductive Lexeme
  /-- A register, or a branch offset. -/
  | operand (op : Operand)
  /-- A number. -/
  | number (z : Int)
  /-- The base register of a memory operand. -/
  | base (code : Nat)
  /-- A shift, whose amount follows. -/
  | shift (type : ShiftType)

namespace Lexeme

/-- The characters between words. -/
def separates (c : Char) : Bool := [' ', ',', ']', '\x7b', '\x7d'].contains c

/-- **A text that nothing separates** is one word. -/
def Solid (w : List Char) : Prop := ∀ c ∈ w, separates c = false

/-- The check goes through the characters of the text, not through those that there are. -/
instance (w : List Char) : Decidable (Solid w) :=
  decidable_of_iff ((w.all fun c => !separates c) = true) (by simp [Solid])

/-- The number at the front of a text. A register that has a name instead of a number has code 31. -/
def numberOf (base : Nat) (cs : List Char) : Nat := ((scanNat base cs).map Prod.fst).getD 31

/-- A decimal number with or without a minus sign. -/
def integerOf : List Char → Int
  | '-' :: cs => -(numberOf 10 cs : Int)
  | cs => numberOf 10 cs

/-- The lane size that a letter stands for. -/
def laneOf? (c : Char) : Option LaneSize := LaneSize.all.find? fun l => l.name.toList == [c]

/-- The lane size behind a dot, if there is one, and what follows it. -/
def takeLane : List Char → Option LaneSize × List Char
  | '.' :: c :: cs => (laneOf? c, cs)
  | cs => (none, cs)

/-- The qualifier behind a slash, if there is one. -/
def qualifierOf : List Char → Option Qualifier
  | '/' :: c :: _ => some (if c = 'z' then .zeroing else .merging)
  | _ => none

/-- The index behind a bracket, if there is one. -/
def indexOf : List Char → List Lexeme
  | '[' :: cs => [.number (integerOf cs)]
  | _ => []

/-- What follows a number sign: a branch offset or another number. -/
def immediateOf (cs : List Char) : Lexeme :=
  if 'x' ∈ cs then
    match cs with
    | '+' :: cs => .operand (.label (natImm (numberOf 16 (cs.drop 2))))
    | '-' :: cs => .operand (.label (intImm (-(numberOf 16 (cs.drop 2) : Int))))
    | cs => .number (natImm (numberOf 16 (cs.drop 2))).toInt
  else .number (integerOf cs)

/-- A register with a lane size and an index, if it has them. -/
def elementOf (register : Nat → Option LaneSize → Operand) (cs : List Char) : List Lexeme :=
  match scanNat 10 cs with
  | none => []
  | some (n, rest) => .operand (register n (takeLane rest).1) :: indexOf (takeLane rest).2

/-- A word that its first character does not tell: a scalar register, the stack pointer, a shift, or nothing. -/
def otherOf (c : Char) (cs : List Char) : List Lexeme :=
  match scanNat 10 cs with
  | some (n, _) => [.operand (.ofV ⟨n, laneOf? c⟩)]
  | none =>
    if c :: cs = ['s', 'p'] then [.operand (.ofX ⟨31, .x⟩)]
    else ((ShiftType.all.find? fun t => t.name.toList == c :: cs).map Lexeme.shift).toList

/-- **What a word stands for.** Words that say nothing beyond the mnemonic stand for nothing. -/
def ofWord : List Char → List Lexeme
  | [] => []
  | '#' :: cs => [immediateOf cs]
  | '[' :: cs => [.base (numberOf 10 (cs.drop 1))]
  | 'x' :: cs => [.operand (.ofX ⟨numberOf 10 cs, .x⟩)]
  | 'w' :: cs => [.operand (.ofX ⟨numberOf 10 cs, .w⟩)]
  | 'z' :: cs => elementOf (fun n lane => .ofZ ⟨n, lane⟩) cs
  | 'v' :: cs => elementOf (fun n lane => .ofV ⟨n, lane⟩) cs
  | 'p' :: cs =>
    match scanNat 10 cs with
    | none => []
    | some (n, rest) => [.operand (.ofP ⟨n, (takeLane rest).1, qualifierOf (takeLane rest).2⟩)]
  | c :: cs => otherOf c cs

end Lexeme

open Lexeme

/-- **The lexemes of a text**, word by word. -/
def lexemes (cs : List Char) : List Lexeme := (cs.splitOnP separates).flatMap ofWord

theorem lexemes_nil : lexemes [] = [] := rfl

/-- **Lexemes do not cross a separator.** -/
theorem lexemes_append {c : Char} (sep : separates c = true) (xs ys : List Char) :
    lexemes (xs ++ c :: ys) = lexemes xs ++ lexemes ys := by
  unfold lexemes
  rw [List.splitOnP_append_cons xs ys sep, List.flatMap_append]

/-- The lexemes of one word. -/
theorem lexemes_word {w : List Char} (solid : Solid w) : lexemes w = ofWord w := by
  unfold lexemes
  rw [List.splitOnP_eq_singleton solid, List.flatMap_singleton]

theorem lexemes_comma (xs ys : List Char) : lexemes (xs ++ ',' :: ' ' :: ys) = lexemes xs ++ lexemes ys := by
  have blank : lexemes (' ' :: ys) = lexemes ys := lexemes_append (c := ' ') (by decide) [] ys
  rw [lexemes_append (by decide), blank]

/-- Texts with a comma and a blank between them are read one by one. -/
theorem lexemes_join (ss : List String) : lexemes (join ", " ss).toList = ss.flatMap fun s => lexemes s.toList := by
  unfold join
  rw [String.toList_intercalate]
  -- the last text has no comma behind it
  induction ss with
  | nil => rfl
  | cons s ss ih =>
    cases ss with
    | nil => simp
    | cons s' ss =>
      rw [List.map_cons, List.map_cons, List.intercalate_cons_cons, ← List.map_cons, List.append_assoc]
      exact (lexemes_comma _ _).trans (congrArg (lexemes s.toList ++ ·) ih)

/-! ### Numbers in words -/

theorem solid_cons {c : Char} {w : List Char} : Solid (c :: w) ↔ separates c = false ∧ Solid w := List.forall_mem_cons

theorem solid_append {v w : List Char} : Solid (v ++ w) ↔ Solid v ∧ Solid w := List.forall_mem_append

theorem toList_dec (n : Nat) : (dec n).toList = digits 10 n := String.toList_ofList

theorem toList_hex (n : Nat) : (hex n).toList = digits 16 n := String.toList_ofList

theorem solid_digits {base : Nat} (low : 2 ≤ base) (small : base ≤ 16) (n : Nat) : Solid (digits base n) := by
  have table : ∀ d < 16, separates (digitChar d) = false := by decide
  intro c hc
  obtain ⟨d, hd, rfl⟩ := mem_digits low hc
  exact table d (by omega)

/-- A character that is no digit is in no number. -/
theorem not_mem_digits {c : Char} {base : Nat} (low : 2 ≤ base) (small : base ≤ 16)
    (other : ∀ d < 16, digitChar d ≠ c) (n : Nat) : c ∉ digits base n := by
  intro hc
  obtain ⟨d, hd, same⟩ := mem_digits low hc
  exact other d (by omega) same.symm

theorem numberOf_digits {base : Nat} (low : 2 ≤ base) (small : base ≤ 36) (n : Nat) :
    numberOf base (digits base n) = n := by
  rw [numberOf, scanNat_digits low small]
  rfl

/-- **A decimal number is read back.** -/
theorem integerOf_intDigits (z : Int) : integerOf (intDigits 10 z) = z := by
  have plain : ∀ n, numberOf 10 (digits 10 n) = n := numberOf_digits (by decide) (by decide)
  unfold intDigits
  split
  · rw [integerOf, plain]
    omega
  · have unsigned : integerOf (digits 10 z.natAbs) = numberOf 10 (digits 10 z.natAbs) := by
      unfold integerOf
      split
      · rename_i written
        have unsigned : '-' ∉ digits 10 z.natAbs := not_mem_digits (by decide) (by decide) (by decide) _
        exact absurd (written ▸ List.mem_cons_self) unsigned
      · rfl
    rw [unsigned, plain]
    omega

theorem solid_intDigits (z : Int) : Solid (intDigits 10 z) := by
  unfold intDigits
  split
  · exact solid_cons.mpr ⟨by decide, solid_digits (by decide) (by decide) _⟩
  · exact solid_digits (by decide) (by decide) _

/-- A decimal number has no mark of another base. -/
theorem unmarked_intDigits (z : Int) : 'x' ∉ intDigits 10 z := by
  have unmarked : ∀ n, 'x' ∉ digits 10 n := not_mem_digits (by decide) (by decide) (by decide)
  unfold intDigits
  split
  · exact List.not_mem_cons_of_ne_of_not_mem (by decide) (unmarked _)
  · exact unmarked _

theorem intDigits_natCast (n : Nat) : intDigits 10 (n : Int) = digits 10 n := by
  rw [intDigits, if_neg (by omega), Int.natAbs_natCast]

/-- A number behind a number sign. -/
theorem lexemes_decimal (z : Int) : lexemes ('#' :: intDigits 10 z) = [.number z] := by
  rw [lexemes_word (solid_cons.mpr ⟨by decide, solid_intDigits z⟩), ofWord]
  unfold immediateOf
  rw [if_neg (unmarked_intDigits z), integerOf_intDigits]

/-- A hexadecimal number behind a mark that ends in `x`. -/
theorem lexemes_marked {mark : List Char} (solid : Solid mark) (n : Nat) :
    lexemes ('#' :: (mark ++ 'x' :: digits 16 n)) = [immediateOf (mark ++ 'x' :: digits 16 n)] := by
  have number : Solid ('x' :: digits 16 n) := solid_cons.mpr ⟨by decide, solid_digits (by decide) (by decide) n⟩
  exact lexemes_word (solid_cons.mpr ⟨by decide, solid_append.mpr ⟨solid, number⟩⟩)

/-! ## Operands -/

namespace Operand

/-- The shift of an operand, if it has one. -/
def shiftLexemes (op : Operand) : List Lexeme :=
  if op.shift ≠ 0 ∨ op.shiftType ≠ .lsl then [.shift op.shiftType, .number op.shift] else []

/-- **What an operand is written with**, whatever its place. -/
def lexemes (op : Operand) : List Lexeme :=
  match op.kind with
  | .mem | .memMulVl => .base op.reg :: if op.imm = 0 then [] else [.number op.value]
  | .imm => .number op.value :: op.shiftLexemes
  | _ => .operand { op with shiftType := .lsl, shift := 0 } :: op.shiftLexemes

/-- **An operand that has lexemes of its own**: every kind but a pattern, with no fields beyond those of its kind. -/
inductive Written : Operand → Prop
  | general (r : XReg) (type : ShiftType) (amount : Nat) : Written (.shifted r type amount)
  | scalar (r : VReg) : Written (.ofV r)
  | vector (r : ZReg) : Written (.ofZ r)
  | predicate (r : PReg) : Written (.ofP r)
  | immediate (v : BitVec 64) (amount : Nat) : Written (.shiftedImm v amount)
  | label (v : BitVec 64) : Written (.label v)
  | memory (base : Nat) (v : BitVec 64) : Written (.memOffset base v)
  | lengths (base : Nat) (v : BitVec 64) : Written (.mulVl base v)

end Operand

theorem solid_generalName (is64 : Bool) (c : Code31) (code : Nat) :
    Solid (Operand.generalName is64 c code).toList := by
  unfold Operand.generalName
  split
  · cases c <;> cases is64 <;> decide
  · rw [String.toList_append, toList_dec, solid_append]
    exact ⟨by cases is64 <;> decide, solid_digits (by decide) (by decide) code⟩

theorem ofWord_generalName (is64 : Bool) (c : Code31) (code : Nat) :
    ofWord (Operand.generalName is64 c code).toList = [.operand (.ofX ⟨code, if is64 then .x else .w⟩)] := by
  unfold Operand.generalName
  split
  · rename_i named
    subst named
    cases c <;> cases is64 <;> rfl
  · have number : numberOf 10 (digits 10 code) = code := numberOf_digits (by decide) (by decide) code
    rw [String.toList_append, toList_dec]
    cases is64
    · exact congrArg (fun n => [Lexeme.operand (.ofX ⟨n, .w⟩)]) number
    · exact congrArg (fun n => [Lexeme.operand (.ofX ⟨n, .x⟩)]) number

/-- The base register of a memory operand. -/
theorem lexemes_base (code : Nat) : lexemes ('[' :: (Operand.generalName true .stack code).toList) = [.base code] := by
  rw [lexemes_word (solid_cons.mpr ⟨by decide, solid_generalName _ _ _⟩)]
  unfold Operand.generalName
  split
  · rename_i named
    subst named
    rfl
  · have number : numberOf 10 (digits 10 code) = code := numberOf_digits (by decide) (by decide) code
    rw [String.toList_append, toList_dec]
    exact congrArg (fun n => [Lexeme.base n]) number

/-- A shift and its amount. -/
theorem lexemes_shift (type : ShiftType) (amount : Nat) :
    lexemes (type.name.toList ++ ' ' :: '#' :: digits 10 amount) = [.shift type, .number amount] := by
  have named : lexemes type.name.toList = [.shift type] := by cases type <;> rfl
  rw [lexemes_append (by decide), named, ← intDigits_natCast, lexemes_decimal]
  rfl

/-- **A general register**, with its shift. -/
theorem lexemes_generalText (c : Code31) (r : XReg) (type : ShiftType) (amount : Nat) :
    lexemes ((Operand.shifted r type amount).generalText c).toList = (Operand.shifted r type amount).lexemes := by
  have name : lexemes (Operand.generalName ((Operand.shifted r type amount).kind == .x) c r.code).toList =
      [.operand (.ofX r)] := by
    rw [lexemes_word (solid_generalName _ _ _), ofWord_generalName]
    obtain ⟨code, width⟩ := r
    cases width <;> rfl
  have plain : (Operand.shifted r type amount).lexemes =
      .operand (.ofX r) :: (Operand.shifted r type amount).shiftLexemes := by
    obtain ⟨code, width⟩ := r
    cases width <;> rfl
  unfold Operand.generalText
  rw [plain, Operand.shiftLexemes, String.toList_append]
  show lexemes (_ ++ (if amount ≠ 0 ∨ type ≠ .lsl then ", " ++ type.name ++ " #" ++ dec amount else "").toList) =
    _ :: if amount ≠ 0 ∨ type ≠ .lsl then _ else _
  split
  · have text : (", " ++ type.name ++ " #" ++ dec amount).toList =
        ',' :: ' ' :: (type.name.toList ++ ' ' :: '#' :: digits 10 amount) := by
      simp [toList_dec]
    rw [text, lexemes_comma]
    exact congr (congrArg _ name) (lexemes_shift type amount)
  · rw [String.toList_empty, List.append_nil]
    exact name

/-! ### Registers with lanes -/

/-- A lane size is read from its letter. -/
theorem laneOf?_letter (lane : Option LaneSize) :
    ∃ c, (laneLetter lane).toList = [c] ∧ laneOf? c = lane ∧ separates c = false ∧ ∀ cs, ofWord (c :: cs) = otherOf c cs := by
  rcases lane with _ | l
  · exact ⟨'?', rfl, rfl, rfl, fun _ => rfl⟩
  · cases l <;> exact ⟨_, rfl, rfl, rfl, fun _ => rfl⟩

/-- A lane size behind a number, and what follows it. -/
theorem takeLane_laneSuffix (lane : Option LaneSize) (rest : List Char) (stop : ∀ c ∈ rest.head?, c ≠ '.') :
    takeLane ((laneSuffix lane).toList ++ rest) = (lane, rest) := by
  rcases lane with _ | l
  · cases rest with
    | nil => rfl
    | cons c cs =>
      have other : c ≠ '.' := stop c rfl
      simp [laneSuffix, takeLane, other]
  · cases l <;> rfl

theorem solid_laneSuffix (lane : Option LaneSize) : Solid (laneSuffix lane).toList := by
  rcases lane with _ | l
  · decide
  · cases l <;> decide

/-- **A scalar register.** -/
theorem lexemes_scalarText (r : VReg) : lexemes (Operand.ofV r).scalarText.toList = (Operand.ofV r).lexemes := by
  obtain ⟨code, lane⟩ := r
  obtain ⟨c, letter, size, solid, other⟩ := laneOf?_letter lane
  have text : (Operand.ofV ⟨code, lane⟩).scalarText.toList = c :: digits 10 code := by
    show (laneLetter lane ++ dec code).toList = _
    rw [String.toList_append, toList_dec, letter]
    rfl
  have word : Solid (c :: digits 10 code) := solid_cons.mpr ⟨solid, solid_digits (by decide) (by decide) code⟩
  rw [text, lexemes_word word, other, otherOf, scanNat_digits (by decide) (by decide), size]
  rfl

/-- What begins with a dot, a slash or a bracket, or has nothing in it, does not go on with a number. -/
theorem no_digit {cs : List Char} (front : ∀ c ∈ cs.head?, c = '.' ∨ c = '/' ∨ c = '[') :
    ∀ c ∈ cs.head?, digitIn? 10 c = none := by
  intro c hc
  rcases front c hc with rfl | rfl | rfl <;> decide

/-- A register with a lane size, and what follows it. -/
theorem elementOf_digits (register : Nat → Option LaneSize → Operand) (code : Nat) {suffix rest : List Char}
    {lane : Option LaneSize} (stop : ∀ c ∈ suffix.head?, c = '.' ∨ c = '/' ∨ c = '[')
    (taken : takeLane suffix = (lane, rest)) :
    elementOf register (digits 10 code ++ suffix) = .operand (register code lane) :: indexOf rest := by
  rw [elementOf, scanNat_digits_append (by decide) (by decide) code suffix (no_digit stop)]
  simp only [taken]

theorem laneSuffix_head (lane : Option LaneSize) (rest : List Char) (front : ∀ c ∈ rest.head?, c = '/' ∨ c = '[') :
    ∀ c ∈ ((laneSuffix lane).toList ++ rest).head?, c = '.' ∨ c = '/' ∨ c = '[' := by
  rcases lane with _ | l
  · exact fun c hc => .inr (front c hc)
  · cases l <;> exact fun c hc => .inl (Option.some.inj hc).symm

theorem toList_vectorText (r : ZReg) :
    (Operand.ofZ r).vectorText.toList = 'z' :: (digits 10 r.code ++ (laneSuffix r.lane).toList) := by
  show ("z" ++ dec r.code ++ laneSuffix r.lane).toList = _
  simp [toList_dec]

theorem solid_vectorText (r : ZReg) : Solid (Operand.ofZ r).vectorText.toList := by
  rw [toList_vectorText, solid_cons, solid_append]
  exact ⟨by decide, solid_digits (by decide) (by decide) r.code, solid_laneSuffix r.lane⟩

/-- **A vector register.** -/
theorem lexemes_vectorText (r : ZReg) : lexemes (Operand.ofZ r).vectorText.toList = (Operand.ofZ r).lexemes := by
  have taken := takeLane_laneSuffix r.lane [] (by simp)
  have front := laneSuffix_head r.lane [] (by simp)
  rw [List.append_nil] at taken front
  rw [lexemes_word (solid_vectorText r), toList_vectorText]
  exact elementOf_digits (fun n lane => .ofZ ⟨n, lane⟩) r.code front taken

/-- A register with an index in brackets. -/
theorem lexemes_element {letter : Char} (mark : separates letter = false) (register : Nat → Option LaneSize → Operand)
    (reads : ∀ cs, ofWord (letter :: cs) = elementOf register cs) (code : Nat) {suffix : List Char}
    (solid : Solid suffix) {lane : Option LaneSize} (z : Int)
    (stop : ∀ c ∈ (suffix ++ '[' :: intDigits 10 z).head?, c = '.' ∨ c = '/' ∨ c = '[')
    (taken : takeLane (suffix ++ '[' :: intDigits 10 z) = (lane, '[' :: intDigits 10 z)) :
    lexemes (letter :: (digits 10 code ++ (suffix ++ '[' :: intDigits 10 z)) ++ ']' :: []) =
      [.operand (register code lane), .number z] := by
  have word : Solid (letter :: (digits 10 code ++ (suffix ++ '[' :: intDigits 10 z))) := by
    rw [solid_cons, solid_append, solid_append, solid_cons]
    exact ⟨mark, solid_digits (by decide) (by decide) code, solid, by decide, solid_intDigits z⟩
  rw [lexemes_append (by decide), lexemes_word word, reads, elementOf_digits register code stop taken, indexOf,
    integerOf_intDigits]
  rfl

/-- A vector register with an index. -/
theorem lexemes_vectorElement (r : ZReg) (z : Int) :
    lexemes ((Operand.ofZ r).vectorText ++ "[" ++ decInt z ++ "]").toList = [.operand (.ofZ r), .number z] := by
  have text : ((Operand.ofZ r).vectorText ++ "[" ++ decInt z ++ "]").toList =
      'z' :: (digits 10 r.code ++ ((laneSuffix r.lane).toList ++ '[' :: intDigits 10 z)) ++ ']' :: [] := by
    simp [toList_vectorText, decInt]
  rw [text]
  have mark : separates 'z' = false := by decide
  exact lexemes_element mark (fun n lane => .ofZ ⟨n, lane⟩) (fun _ => rfl) r.code (solid_laneSuffix r.lane) z
    (laneSuffix_head _ _ (by simp)) (takeLane_laneSuffix r.lane _ (by simp))

/-- An element of a scalar register. -/
theorem lexemes_elementText (r : VReg) (index : Operand) :
    lexemes (elementText (.ofV r) index).toList = [.operand (.ofV r), .number index.value] := by
  obtain ⟨c, letter, size, solid, -⟩ := laneOf?_letter r.lane
  have text : (elementText (.ofV r) index).toList =
      'v' :: (digits 10 r.code ++ (['.', c] ++ '[' :: intDigits 10 index.value)) ++ ']' :: [] := by
    show ("v" ++ dec r.code ++ "." ++ laneLetter r.lane ++ "[" ++ decInt index.value ++ "]").toList = _
    simp [toList_dec, letter, decInt]
  have inside : Solid ['.', c] := solid_cons.mpr ⟨by decide, solid_cons.mpr ⟨solid, by decide⟩⟩
  have mark : separates 'v' = false := by decide
  rw [text]
  exact lexemes_element mark (fun n lane => .ofV ⟨n, lane⟩) (fun _ => rfl) r.code inside index.value (by simp)
    (congrArg (fun lane => (lane, '[' :: intDigits 10 index.value)) size)

theorem toList_predicateText (r : PReg) : (Operand.ofP r).predicateText.toList =
    'p' :: (digits 10 r.code ++ ((laneSuffix r.lane).toList ++ (qualifierSuffix r.qualifier).toList)) := by
  show ("p" ++ dec r.code ++ laneSuffix r.lane ++ qualifierSuffix r.qualifier).toList = _
  simp [toList_dec]

theorem solid_predicateText (r : PReg) : Solid (Operand.ofP r).predicateText.toList := by
  have inside : ∀ q, Solid (qualifierSuffix q).toList := by
    rintro (_ | _ | _) <;> decide
  rw [toList_predicateText, solid_cons, solid_append, solid_append]
  exact ⟨by decide, solid_digits (by decide) (by decide) r.code, solid_laneSuffix r.lane, inside r.qualifier⟩

/-- **A predicate register**, with its lane size or its qualifier. -/
theorem lexemes_predicateText (r : PReg) : lexemes (Operand.ofP r).predicateText.toList = (Operand.ofP r).lexemes := by
  rw [lexemes_word (solid_predicateText r), toList_predicateText]
  obtain ⟨code, lane, q⟩ := r
  have front : ∀ c ∈ (qualifierSuffix q).toList.head?, c = '/' := by
    rcases q with _ | _ | _ <;> simp [qualifierSuffix]
  have number := scanNat_digits_append (by decide) (by decide) code _
    (no_digit (laneSuffix_head lane _ fun c hc => .inl (front c hc)))
  have taken := takeLane_laneSuffix lane (qualifierSuffix q).toList fun c hc => by
    rw [front c hc]
    decide
  have read : qualifierOf (qualifierSuffix q).toList = q := by rcases q with _ | _ | _ <;> rfl
  rw [ofWord, number]
  simp only [taken, read]
  rfl

/-! ### Immediates -/

/-- The left shift of an immediate. -/
theorem lexemes_shiftText {front : List Char} {v : BitVec 64} {amount : Nat} (number : lexemes front = [.number v.toInt]) :
    lexemes (front ++ (Operand.shiftedImm v amount).shiftText.toList) = (Operand.shiftedImm v amount).lexemes := by
  show lexemes (front ++ (if amount ≠ 0 then ", lsl #" ++ dec amount else "").toList) =
    .number v.toInt :: if amount ≠ 0 ∨ ShiftType.lsl ≠ .lsl then _ else _
  by_cases zero : amount = 0
  · rw [if_neg (not_not.mpr zero), if_neg (by simp [zero]), String.toList_empty, List.append_nil, number]
  · rw [if_pos zero, if_pos (.inl zero)]
    have text : (", lsl #" ++ dec amount).toList =
        ',' :: ' ' :: (ShiftType.lsl.name.toList ++ ' ' :: '#' :: digits 10 amount) := by
      simp [toList_dec, ShiftType.name]
    rw [text, lexemes_comma, number, lexemes_shift]
    rfl

/-- **An immediate in decimal.** -/
theorem lexemes_decimalText (v : BitVec 64) (amount : Nat) :
    lexemes (Operand.shiftedImm v amount).decimalText.toList = (Operand.shiftedImm v amount).lexemes := by
  have text : (Operand.shiftedImm v amount).decimalText.toList =
      '#' :: intDigits 10 v.toInt ++ (Operand.shiftedImm v amount).shiftText.toList := by
    show ("#" ++ decInt v.toInt ++ _).toList = _
    simp [decInt]
  rw [text, lexemes_shiftText (lexemes_decimal v.toInt)]

/-- **An immediate in hexadecimal.** -/
theorem lexemes_hexText (v : BitVec 64) (amount : Nat) :
    lexemes (Operand.shiftedImm v amount).hexText.toList = (Operand.shiftedImm v amount).lexemes := by
  have text : (Operand.shiftedImm v amount).hexText.toList =
      '#' :: (['0'] ++ 'x' :: digits 16 v.toNat) ++ (Operand.shiftedImm v amount).shiftText.toList := by
    show ("#0x" ++ hex v.toNat ++ _).toList = _
    simp [toList_hex]
  have number : lexemes ('#' :: (['0'] ++ 'x' :: digits 16 v.toNat)) = [.number v.toInt] := by
    rw [lexemes_marked (by decide)]
    unfold immediateOf
    rw [if_pos (by simp)]
    show [Lexeme.number (natImm (numberOf 16 (digits 16 v.toNat))).toInt] = _
    rw [numberOf_digits (by decide) (by decide), natImm_toNat]
  rw [text, lexemes_shiftText number]

/-- **A branch offset.** -/
theorem lexemes_labelText (v : BitVec 64) : lexemes (Operand.label v).labelText.toList = (Operand.label v).lexemes := by
  show lexemes ((if v.toInt < 0 then "#-0x" else "#+0x") ++ hex v.toInt.natAbs).toList = [.operand (.label v)]
  split
  · rename_i negative
    have text : ("#-0x" ++ hex v.toInt.natAbs).toList = '#' :: (['-', '0'] ++ 'x' :: digits 16 v.toInt.natAbs) := by
      simp [toList_hex]
    rw [text, lexemes_marked (by decide)]
    unfold immediateOf
    rw [if_pos (by simp)]
    show [Lexeme.operand (.label (intImm (-(numberOf 16 (digits 16 v.toInt.natAbs) : Int))))] = _
    rw [numberOf_digits (by decide) (by decide), show -(v.toInt.natAbs : Int) = v.toInt by omega, intImm_toInt]
  · rename_i positive
    have text : ("#+0x" ++ hex v.toInt.natAbs).toList = '#' :: (['+', '0'] ++ 'x' :: digits 16 v.toInt.natAbs) := by
      simp [toList_hex]
    have same : v.toInt.natAbs = v.toNat := by
      have := toNat_eq_toInt (v := v) (by omega)
      omega
    rw [text, lexemes_marked (by decide)]
    unfold immediateOf
    rw [if_pos (by simp)]
    show [Lexeme.operand (.label (natImm (numberOf 16 (digits 16 v.toInt.natAbs))))] = _
    rw [numberOf_digits (by decide) (by decide), same, natImm_toNat]

/-! ### Memory operands -/

/-- **A memory operand**, in bytes or in register lengths. -/
theorem lexemes_memoryText {op : Operand} (memory : op.kind = .mem ∨ op.kind = .memMulVl) :
    lexemes op.memoryText.toList = op.lexemes := by
  have written : op.lexemes = .base op.reg :: if op.imm = 0 then [] else [.number op.value] := by
    unfold Operand.lexemes
    rcases memory with kind | kind <;> rw [kind]
  have bracket : ∀ cs : List Char, lexemes (cs ++ [']']) = lexemes cs := fun cs => by
    rw [lexemes_append (by decide), lexemes_nil, List.append_nil]
  have units : lexemes "mul vl".toList = [] := rfl
  rw [written]
  unfold Operand.memoryText
  by_cases zero : op.imm = 0
  · have text : ("[" ++ Operand.generalName true .stack op.reg ++ "" ++ "" ++ "]").toList =
        '[' :: (Operand.generalName true .stack op.reg).toList ++ [']'] := by
      simp
    simp only [zero, ne_eq, not_true_eq_false, if_false, if_true, false_and, text, bracket, lexemes_base]
  · rcases memory with kind | kind
    · have text : ("[" ++ Operand.generalName true .stack op.reg ++ (", #" ++ decInt op.value) ++ "" ++ "]").toList =
          '[' :: (Operand.generalName true .stack op.reg).toList ++ ',' :: ' ' :: ('#' :: intDigits 10 op.value) ++
            [']'] := by
        simp [decInt]
      simp only [zero, kind, ne_eq, not_false_eq_true, if_true, if_false, true_and, reduceCtorEq, text, bracket,
        lexemes_comma, lexemes_base, lexemes_decimal]
      rfl
    · have text : ("[" ++ Operand.generalName true .stack op.reg ++ (", #" ++ decInt op.value) ++ ", mul vl" ++
          "]").toList = '[' :: (Operand.generalName true .stack op.reg).toList ++
            ',' :: ' ' :: ('#' :: intDigits 10 op.value ++ ',' :: ' ' :: "mul vl".toList) ++ [']'] := by
        simp [decInt]
      simp only [zero, kind, ne_eq, not_false_eq_true, if_true, if_false, true_and, text, bracket, lexemes_comma,
        lexemes_base, lexemes_decimal, units]
      rfl

end ArmToolkit.A64
