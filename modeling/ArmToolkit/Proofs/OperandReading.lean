import ArmToolkit.Proofs.Decoded
import ArmToolkit.Proofs.Lexemes
import Mathlib.Data.List.Sections

/-!
# `Proofs.OperandReading` — the operands of an instruction read back from its text

## Contents
- **Rows.** `gather` puts lexemes together to operands. Written operands are gathered again, up to the unit of a memory
  offset (`gather_lexemes`), and that unit goes by the first operand (`restore_shown`).
- **Slots.** `Slot.shows_of_read?`: a slot prints the operand that it has read with the lexemes of that operand.
- **Forms.** `Form.operandsOf_operandTexts`: the operands of a decoded instruction are read back from its text. A form
  that leaves out an operand with its usual value is excepted, and the operand that a move does not show is not there.
-/

namespace ArmToolkit.A64

open Text
open Slot (intImm natImm intImm_toInt)

/-! ## Rows -/

namespace Operand

/-- Whether the operand is a place in memory. -/
def inMemory (op : Operand) : Bool := op.kind == .mem || op.kind == .memMulVl

/-- An operand as its lexemes show it: an offset without its unit. -/
def shown (op : Operand) : Operand := if op.kind = .memMulVl then .memOffset op.reg op.imm else op

/-- An offset in register lengths. -/
def inLengths (op : Operand) : Operand := if op.kind = .mem then .mulVl op.reg op.imm else op

end Operand

/-- **The operands that lexemes stand for.** A shift belongs to the operand in front of it, and a number behind a base
    register is its offset. -/
def gather : List Lexeme → List Operand
  | [] => []
  | .operand op :: .shift type :: .number n :: rest => { op with shiftType := type, shift := n.toNat } :: gather rest
  | .operand op :: rest => op :: gather rest
  | .number z :: .shift type :: .number n :: rest =>
    { Operand.ofImm (intImm z) with shiftType := type, shift := n.toNat } :: gather rest
  | .number z :: rest => .ofImm (intImm z) :: gather rest
  | .base code :: .number z :: rest => .memOffset code (intImm z) :: gather rest
  | .base code :: rest => .memOffset code 0 :: gather rest
  | .shift _ :: rest => gather rest

/-- Whether a lexeme goes with the operand in front of it. -/
def Lexeme.isShift : Lexeme → Bool
  | .shift _ => true
  | _ => false

theorem gather_operand (op : Operand) {rest : List Lexeme} (next : ∀ l ∈ rest.head?, l.isShift = false) :
    gather (.operand op :: rest) = op :: gather rest := by
  cases rest with
  | nil => rfl
  | cons l rest =>
    cases l with
    | shift => exact absurd (next _ rfl) (by simp [Lexeme.isShift])
    | _ => rfl

theorem gather_number (z : Int) {rest : List Lexeme} (next : ∀ l ∈ rest.head?, l.isShift = false) :
    gather (.number z :: rest) = .ofImm (intImm z) :: gather rest := by
  cases rest with
  | nil => rfl
  | cons l rest =>
    cases l with
    | shift => exact absurd (next _ rfl) (by simp [Lexeme.isShift])
    | _ => rfl

/-- No operand begins with a shift. -/
theorem isShift_lexemes {op : Operand} {rest : List Lexeme} : ∀ l ∈ (op.lexemes ++ rest).head?, l.isShift = false := by
  intro l hl
  unfold Operand.lexemes at hl
  split at hl <;> (cases hl; rfl)

/-- A base register and its offset. -/
theorem gather_base (n : Nat) (v : BitVec 64) :
    gather (.base n :: if v = 0 then [] else [.number v.toInt]) = [.memOffset n v] := by
  split
  · rename_i zero
    rw [zero]
    rfl
  · exact congrArg (fun w => [Operand.memOffset n w]) (intImm_toInt v)

/-- **An operand in front of others is gathered**, if it is no place in memory or the last one. -/
theorem gather_append {op : Operand} (written : op.Written) {rest : List Lexeme} (last : op.inMemory = true → rest = [])
    (next : ∀ l ∈ rest.head?, l.isShift = false) : gather (op.lexemes ++ rest) = op.shown :: gather rest := by
  cases written with
  | general r type amount =>
    have written : (Operand.shifted r type amount).lexemes =
        .operand (.ofX r) :: (Operand.shifted r type amount).shiftLexemes := by
      cases r with | mk n width => cases width <;> rfl
    have shown : (Operand.shifted r type amount).shown = .shifted r type amount := by
      cases r with | mk n width => cases width <;> rfl
    rw [written, shown, Operand.shiftLexemes]
    -- a shift stands behind its operand, and is taken with it
    split
    · show gather (.operand (.ofX r) :: .shift type :: .number amount :: rest) = _
      rw [gather, Int.toNat_natCast]
      rfl
    · rename_i plain
      obtain ⟨rfl, rfl⟩ : amount = 0 ∧ type = .lsl := by simpa [Operand.shifted] using plain
      exact gather_operand _ next
  | scalar r => exact gather_operand _ next
  | vector r => exact gather_operand _ next
  | predicate r => exact gather_operand _ next
  | immediate v amount =>
    show gather (.number v.toInt :: (Operand.shiftedImm v amount).shiftLexemes ++ rest) = _
    rw [Operand.shiftLexemes]
    split
    · show gather (.number v.toInt :: .shift .lsl :: .number amount :: rest) = _
      rw [gather, Int.toNat_natCast, intImm_toInt]
      rfl
    · rename_i plain
      obtain rfl : amount = 0 := by simpa [Operand.shiftedImm] using plain
      show gather (.number v.toInt :: rest) = _
      rw [gather_number _ next, intImm_toInt]
      rfl
  | label v => exact gather_operand _ next
  | memory n v =>
    obtain rfl := last rfl
    rw [List.append_nil]
    exact gather_base n v
  | lengths n v =>
    obtain rfl := last rfl
    rw [List.append_nil]
    exact gather_base n v

/-- **Operands are gathered from their lexemes**, if only the last one is a place in memory. -/
theorem gather_lexemes {ops : List Operand} (written : ∀ op ∈ ops, op.Written)
    (last : ∀ op ∈ ops.dropLast, op.inMemory = false) :
    gather (ops.flatMap Operand.lexemes) = ops.map Operand.shown := by
  induction ops with
  | nil => rfl
  | cons op ops ih =>
    have here := written op List.mem_cons_self
    cases ops with
    | nil => exact gather_append here (fun _ => rfl) (by simp)
    | cons op' ops =>
      rw [List.dropLast_cons_cons] at last
      have inside : op.inMemory = false := last op List.mem_cons_self
      have later := ih (fun x hx => written x (List.mem_cons_of_mem _ hx)) fun x hx => last x (List.mem_cons_of_mem _ hx)
      have next : ∀ l ∈ ((op' :: ops).flatMap Operand.lexemes).head?, l.isShift = false := by
        rw [List.flatMap_cons]
        exact isShift_lexemes
      rw [List.flatMap_cons, gather_append here (by simp [inside]) next, later]
      rfl

/-- **Whether memory is transferred by the register length**: it is if the first operand is a vector or a predicate. -/
def byLength (ks : List OperandKind) : Bool := ks.head?.any fun k => k == .z || k == .p

/-- **How operands stand in a row**, by their kinds: a place in memory is the last one, and its offset is in the unit that
    the first one asks for. -/
structure Arranged (ks : List OperandKind) : Prop where
  last : ∀ k ∈ ks.dropLast, k ≠ .mem ∧ k ≠ .memMulVl
  bytes : .mem ∈ ks → byLength ks = false
  lengths : .memMulVl ∈ ks → byLength ks = true

instance (ks : List OperandKind) : Decidable (Arranged ks) :=
  decidable_of_iff ((∀ k ∈ ks.dropLast, k ≠ .mem ∧ k ≠ .memMulVl) ∧ (.mem ∈ ks → byLength ks = false) ∧
      (.memMulVl ∈ ks → byLength ks = true))
    ⟨fun ⟨last, bytes, lengths⟩ => ⟨last, bytes, lengths⟩, fun h => ⟨h.last, h.bytes, h.lengths⟩⟩

/-- **Operands with their offsets in the unit that the first one asks for.** -/
def restore (ops : List Operand) : List Operand :=
  if byLength (ops.map Operand.kind) then ops.map Operand.inLengths else ops

theorem byLength_shown (ops : List Operand) :
    byLength ((ops.map Operand.shown).map Operand.kind) = byLength (ops.map Operand.kind) := by
  cases ops with
  | nil => rfl
  | cons op ops =>
    show (op.shown.kind == .z || op.shown.kind == .p) = (op.kind == .z || op.kind == .p)
    unfold Operand.shown
    split
    · rename_i kind
      rw [kind]
      rfl
    · rfl

/-- **The unit of an offset is restored.** -/
theorem restore_shown {ops : List Operand} (written : ∀ op ∈ ops, op.Written)
    (arranged : Arranged (ops.map Operand.kind)) : restore (ops.map Operand.shown) = ops := by
  unfold restore
  rw [byLength_shown]
  split
  · rename_i long
    rw [List.map_map]
    refine (List.map_congr_left fun op hop => ?_).trans (List.map_id ops)
    have bytes : op.kind ≠ .mem := fun kind => by
      have := arranged.bytes (kind ▸ List.mem_map_of_mem hop)
      rw [long] at this
      cases this
    cases written op hop with
    | memory => exact absurd rfl bytes
    | general r => cases r with | mk n width => cases width <;> rfl
    | _ => rfl
  · rename_i short
    refine (List.map_congr_left fun op hop => ?_).trans (List.map_id ops)
    have lengths : op.kind ≠ .memMulVl := fun kind =>
      short (arranged.lengths (kind ▸ List.mem_map_of_mem hop))
    exact if_neg lengths

/-- **The operands that a text shows.** -/
def operandsOf (cs : List Char) : List Operand := restore (gather (lexemes cs))

/-- Operands are read from a text that has their lexemes. -/
theorem operandsOf_eq {cs : List Char} {ops : List Operand} (written : ∀ op ∈ ops, op.Written)
    (arranged : Arranged (ops.map Operand.kind)) (text : lexemes cs = ops.flatMap Operand.lexemes) :
    operandsOf cs = ops := by
  have last : ∀ op ∈ ops.dropLast, op.inMemory = false := by
    intro op hop
    have kinds := arranged.last op.kind (by rw [← List.map_dropLast]; exact List.mem_map_of_mem hop)
    simp [Operand.inMemory, kinds.1, kinds.2]
  rw [operandsOf, text, gather_lexemes written last, restore_shown written arranged]

/-! ## Slots -/

namespace Slot

/-- Whether the slot prints the lexemes of its operand and nothing else. -/
def spelled : Slot → Bool
  | pattern | multiplier | scalarIndex | vectorIndex => false
  | again s => s.spelled
  | _ => true

/-- **An operand that is read is printed with its lexemes.** A pattern has none, and a number without a mark or with
    another one is not printed with them. -/
theorem shows_of_read? {s : Slot} {lane : Option LaneSize} {w : Word} {op : Operand} (other : .pattern ∉ s.kinds)
    (h : s.read? lane w = some op) :
    op.Written ∧ (s.spelled = true → lexemes (s.text op).toList = op.lexemes) := by
  -- each slot reads operands of one constructor, and the lexemes of that constructor are what its printer gives
  induction s with
  | general f width c =>
    cases h
    exact ⟨.general ⟨f.get w, width⟩ .lsl 0, fun _ => lexemes_generalText c ⟨f.get w, width⟩ .lsl 0⟩
  | generalOfLane f c =>
    cases h
    exact ⟨.general ⟨f.get w, _⟩ .lsl 0, fun _ => lexemes_generalText c ⟨f.get w, _⟩ .lsl 0⟩
  | shifted width rotates =>
    simp only [read?] at h
    split at h
    · cases h
    · cases h
      exact ⟨.general _ _ _, fun _ => lexemes_generalText .zero _ _ _⟩
  | scalarAt | scalar =>
    cases h
    exact ⟨.scalar _, fun _ => lexemes_scalarText _⟩
  | vector =>
    cases h
    exact ⟨.vector _, fun _ => lexemes_vectorText _⟩
  | predicate | governing =>
    cases h
    exact ⟨.predicate _, fun _ => lexemes_predicateText _⟩
  | again s ih => exact ih other h
  | halfword width =>
    simp only [read?] at h
    split at h
    · cases h
    · cases h
      exact ⟨.immediate _ _, fun _ => lexemes_hexText _ _⟩
  | arithmetic =>
    cases h
    exact ⟨.immediate _ _, fun _ => lexemes_hexText _ _⟩
  | bitmask width =>
    obtain ⟨p, -, rfl⟩ := Option.map_eq_some_iff.mp h
    exact ⟨.immediate _ 0, fun _ => lexemes_hexText _ 0⟩
  | laneBitmask =>
    obtain ⟨p, -, rfl⟩ := Option.map_eq_some_iff.mp h
    exact ⟨.immediate _ 0, fun _ => lexemes_hexText _ 0⟩
  | target =>
    cases h
    exact ⟨.label _, fun _ => lexemes_labelText _⟩
  | code =>
    cases h
    exact ⟨.immediate _ 0, fun _ => lexemes_hexText _ 0⟩
  | unsigned | signed =>
    cases h
    exact ⟨.immediate _ 0, fun _ => lexemes_decimalText _ 0⟩
  | byte isSigned shiftable =>
    simp only [read?] at h
    split at h
    · cases h
    · cases h
      exact ⟨.immediate _ _, fun _ => lexemes_decimalText _ _⟩
  | multiplier | scalarIndex | vectorIndex =>
    cases h
    exact ⟨.immediate _ 0, fun spelled => nomatch spelled⟩
  | term f source =>
    cases source with
    | imm =>
      cases h
      exact ⟨.immediate _ 0, fun _ => lexemes_decimalText _ 0⟩
    | reg =>
      cases h
      refine ⟨.general ⟨f.get w, _⟩ .lsl 0, fun _ => ?_⟩
      have general : (Operand.ofX ⟨f.get w, if isDouble lane then .x else .w⟩).isGeneral = true := by
        cases isDouble lane <;> rfl
      simp only [text, general, if_true]
      exact lexemes_generalText .zero ⟨f.get w, _⟩ .lsl 0
  | pattern => exact absurd List.mem_cons_self other
  | offset =>
    cases h
    exact ⟨.memory _ _, fun _ => lexemes_memoryText (.inl rfl)⟩
  | registerOffset | vectorOffset =>
    cases h
    exact ⟨.lengths _ _, fun _ => lexemes_memoryText (.inr rfl)⟩

end Slot

/-! ## Forms -/

namespace Form

/-- **The operands that are shown.** A move is a disjunction of a register with itself, which is shown once. -/
def IsMove (f : Form) (ops : List Operand) : Prop := f = .bitwise .orr ∧ (arg ops 1).reg = (arg ops 2).reg

instance (f : Form) (ops : List Operand) : Decidable (f.IsMove ops) := inferInstanceAs (Decidable (_ ∧ _))

def shownOps (f : Form) (ops : List Operand) : List Operand := if f.IsMove ops then ops.take 2 else ops

/-- Whether the form leaves out an operand that has its usual value. -/
def omits : Form → Bool
  | ret | ptrue _ | elementCount _ _ => true
  | _ => false

/-- Whether the form prints its operands in another way than slot by slot. -/
def rewords : Form → Bool
  | moveElement | dupIndex => true
  | _ => false

theorem slots_arranged (f : Form) : ∀ ks ∈ (f.slots.map Slot.kinds).sections, Arranged ks := by
  have table : ∀ f ∈ all, ∀ ks ∈ (f.slots.map Slot.kinds).sections, Arranged ks := by decide +kernel
  exact table f (mem_all f)

theorem slots_spelled {f : Form} (whole : f.omits = false) (plain : f.rewords = false) :
    ∀ s ∈ f.slots, s.spelled = true := by
  have table : ∀ f ∈ all, f.omits = false → f.rewords = false → ∀ s ∈ f.slots, s.spelled = true := by decide +kernel
  exact table f (mem_all f) whole plain

theorem slots_without_pattern {f : Form} (whole : f.omits = false) : ∀ s ∈ f.slots, .pattern ∉ s.kinds := by
  have table : ∀ f ∈ all, f.omits = false → ∀ s ∈ f.slots, .pattern ∉ s.kinds := by decide +kernel
  exact table f (mem_all f) whole

/-! ### Texts of forms -/

/-- The slots print the operands one by one. -/
theorem slotTexts_eq {f : Form} {ops : List Operand} (length : f.slots.length = ops.length) :
    f.slotTexts ops = List.zipWith Slot.text f.slots ops := by
  unfold slotTexts
  apply List.ext_getElem
  · simp [length]
  · intro i hi hi'
    have inside : i < ops.length := by
      rw [List.length_zipWith] at hi'
      omega
    simp [arg, List.getD_eq_getElem?_getD, List.getElem?_eq_getElem inside]

/-- Operands that are printed with their lexemes in a row. -/
theorem lexemes_slotTexts {f : Form} {ops : List Operand}
    (row : List.Forall₂ (fun s op => lexemes (Slot.text s op).toList = op.lexemes) f.slots ops) :
    lexemes (join ", " (f.slotTexts ops)).toList = ops.flatMap Operand.lexemes := by
  rw [slotTexts_eq row.length_eq, lexemes_join]
  generalize f.slots = slots at row
  induction row with
  | nil => rfl
  | cons head _ ih => rw [List.zipWith_cons_cons, List.flatMap_cons, List.flatMap_cons, head, ih]

/-- Braces are not read. -/
theorem lexemes_braced (s : String) : lexemes (braced s).toList = lexemes s.toList := by
  have text : (braced s).toList = [] ++ '\x7b' :: (s.toList ++ '\x7d' :: []) := by simp [braced]
  rw [text, lexemes_append (by decide), lexemes_append (by decide), lexemes_nil, List.nil_append, List.append_nil]

/-- **A form that prints its operands slot by slot** does so up to braces and the name of the flags. -/
theorem lexemes_operandTexts_plain {f : Form} {ops : List Operand} (whole : f.omits = false) (plain : f.rewords = false)
    (move : ¬ f.IsMove ops) :
    lexemes (join ", " (f.operandTexts ops)).toList = lexemes (join ", " (f.slotTexts ops)).toList := by
  have flags : lexemes ['n', 'z', 'c', 'v'] = [] := rfl
  rw [lexemes_join, lexemes_join]
  -- forms that leave out or reword operands are excluded; the others differ in braces and names without lexemes
  cases f with
  | ret | ptrue | elementCount => cases whole
  | moveElement | dupIndex => cases plain
  | readFlags | writeFlags =>
    show List.flatMap _ _ = List.flatMap _ [(arg ops 0).generalText .zero]
    simp [operandTexts, flags]
  | permute op =>
    cases op with
    | tbl =>
      show List.flatMap _ _ = List.flatMap _ [(arg ops 0).vectorText, (arg ops 1).vectorText, (arg ops 2).vectorText]
      simp [operandTexts, lexemes_braced]
    | _ => rfl
  | bitwise op =>
    cases op with
    | orr =>
      have other : (arg ops 1).reg ≠ (arg ops 2).reg := fun same => move ⟨rfl, same⟩
      simp [operandTexts, other]
    | _ => rfl
  | ld1 | st1 =>
    show List.flatMap _ _ =
      List.flatMap _ [(arg ops 0).vectorText, (arg ops 1).predicateText, (arg ops 2).memoryText]
    simp [operandTexts, lexemes_braced]
  | _ => rfl

end Form

namespace Instruction.Decodes

variable {f : Form} {lane : Option LaneSize} {ops : List Operand} {w : Word}

theorem exists_slot (h : Decodes f lane w ops) {op : Operand} (hop : op ∈ ops) :
    ∃ s ∈ f.slots, s.read? lane w = some op := by
  obtain ⟨i, at_i⟩ := List.getElem?_of_mem hop
  obtain ⟨s, hs, read⟩ := Form.row_get h.operands.flip at_i
  exact ⟨s, List.mem_of_getElem? hs, read⟩

theorem written (h : Decodes f lane w ops) (whole : f.omits = false) : ∀ op ∈ ops, op.Written := by
  intro op hop
  obtain ⟨s, hs, read⟩ := h.exists_slot hop
  exact (Slot.shows_of_read? (Form.slots_without_pattern whole s hs) read).1

theorem arranged (h : Decodes f lane w ops) : Arranged (ops.map Operand.kind) := by
  apply f.slots_arranged
  rw [List.mem_sections, List.forall₂_map_left_iff, List.forall₂_map_right_iff]
  exact (h.row.imp fun s op fits => Slot.accepts_kind fits.1.accepted).flip

/-- The operands of an unpredicated bitwise operation. -/
theorem eq_of_bitwise {op : BitwiseOp} (h : Decodes (.bitwise op) lane w ops) :
    ∃ a b c, ops = [.ofZ ⟨a, lane⟩, .ofZ ⟨b, lane⟩, .ofZ ⟨c, lane⟩] := by
  have row := h.operands
  simp only [Form.slots, List.forall₂_cons_left_iff, List.forall₂_nil_left_iff] at row
  obtain ⟨a, -, ha, ⟨b, -, hb, ⟨c, -, hc, rfl, rfl⟩, rfl⟩, rfl⟩ := row
  cases ha
  cases hb
  cases hc
  exact ⟨_, _, _, rfl⟩

/-- **The text of a form has the lexemes of the operands that it shows.** -/
theorem lexemes_operandTexts (h : Decodes f lane w ops) (whole : f.omits = false) :
    lexemes (join ", " (f.operandTexts ops)).toList = (f.shownOps ops).flatMap Operand.lexemes := by
  unfold Form.shownOps
  by_cases move : f.IsMove ops
  · rw [if_pos move]
    obtain ⟨rfl, same⟩ := move
    obtain ⟨a, b, c, rfl⟩ := h.eq_of_bitwise
    have shown : Form.operandTexts (.bitwise .orr) [.ofZ ⟨a, lane⟩, .ofZ ⟨b, lane⟩, .ofZ ⟨c, lane⟩] =
        [(Operand.ofZ ⟨a, lane⟩).vectorText, (Operand.ofZ ⟨b, lane⟩).vectorText] := if_pos same
    rw [shown, lexemes_join]
    simp [lexemes_vectorText]
  rw [if_neg move]
  by_cases plain : f.rewords = false
  · rw [Form.lexemes_operandTexts_plain whole plain move]
    refine Form.lexemes_slotTexts (Form.forall₂_imp_mem h.operands fun s hs op read => ?_)
    exact (Slot.shows_of_read? (Form.slots_without_pattern whole s hs) read).2 (Form.slots_spelled whole plain s hs)
  -- an element is printed with its index in brackets
  have row := h.operands
  cases f with
  | moveElement =>
    simp only [Form.slots, List.forall₂_cons_left_iff, List.forall₂_nil_left_iff] at row
    obtain ⟨a, -, ha, ⟨b, -, hb, ⟨c, -, hc, rfl, rfl⟩, rfl⟩, rfl⟩ := row
    cases ha
    cases hb
    cases hc
    rw [Form.operandTexts, lexemes_join]
    simp only [arg, List.getD_cons_zero, List.getD_cons_succ, List.flatMap_cons, List.flatMap_nil, lexemes_scalarText,
      lexemes_elementText]
    rfl
  | dupIndex =>
    simp only [Form.slots, Form.vec, List.forall₂_cons_left_iff, List.forall₂_nil_left_iff] at row
    obtain ⟨a, -, ha, ⟨b, -, hb, ⟨c, -, hc, rfl, rfl⟩, rfl⟩, rfl⟩ := row
    cases ha
    cases hb
    cases hc
    rw [Form.operandTexts, lexemes_join]
    simp only [arg, List.getD_cons_zero, List.getD_cons_succ, List.flatMap_cons, List.flatMap_nil, lexemes_vectorText,
      lexemes_vectorElement]
    rfl
  | _ => exact absurd rfl plain

/-- **The operands are read back** from the text of a form, as far as it shows them. -/
theorem operandsOf_operandTexts (h : Decodes f lane w ops) (whole : f.omits = false) :
    operandsOf (join ", " (f.operandTexts ops)).toList = f.shownOps ops := by
  refine operandsOf_eq ?_ ?_ (h.lexemes_operandTexts whole)
  · intro op hop
    apply h.written whole
    unfold Form.shownOps at hop
    split at hop
    · exact List.mem_of_mem_take hop
    · exact hop
  · unfold Form.shownOps
    split
    · rename_i move
      obtain ⟨rfl, -⟩ := move
      obtain ⟨a, b, c, rfl⟩ := h.eq_of_bitwise
      show Arranged [.z, .z]
      decide
    · exact h.arranged

end Instruction.Decodes

end ArmToolkit.A64
