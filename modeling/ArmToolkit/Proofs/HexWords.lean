import ArmToolkit.Proofs.Numerals
import ArmToolkit.Proofs.Words
import ArmToolkit.Text.HexBytes

/-!
# `Proofs.HexWords` — byte lists as words of two digits

## Contents
- **Words.** `words` cuts a text at blanks, whatever blanks they are and however many stand in a row.
- **Bytes.** `byteOf?` reads a word of two hexadecimal digits. Reading a text is reading its words one by one
  (`decodeByteChars_eq`), so that a byte list is read back from what is written for it (`words_encodeBytes`,
  `mapM_byteDigits`).
-/

namespace ArmToolkit.Text

/-! ## Words -/

/-- **The words of a text**: the longest runs of visible characters. -/
def words (cs : List Char) : List (List Char) := (cs.splitOnP isBlank).filter fun w => !w.isEmpty

theorem words_nil : words [] = [] := rfl

/-- **Words do not cross a blank.** -/
theorem words_append {c : Char} (blank : isBlank c = true) (xs ys : List Char) :
    words (xs ++ c :: ys) = words xs ++ words ys := by
  unfold words
  rw [List.splitOnP_append_cons xs ys blank, List.filter_append]

/-- A blank in front does not matter. -/
theorem words_cons {c : Char} (blank : isBlank c = true) (cs : List Char) : words (c :: cs) = words cs :=
  words_append blank [] cs

/-- A word is one word. -/
theorem words_word {w : List Char} (word : IsWord w) : words w = [w] := by
  unfold words
  rw [List.splitOnP_eq_singleton word.visible]
  simp [word.nonempty]

/-- A word with a blank behind it. -/
theorem words_word_append {w : List Char} (word : IsWord w) {c : Char} (blank : isBlank c = true) (cs : List Char) :
    words (w ++ c :: cs) = w :: words cs := by
  rw [words_append blank, words_word word, List.singleton_append]

/-- Blanks have no words. -/
theorem words_blanks {bs : List Char} (blank : AllBlank bs) : words bs = [] := by
  induction bs with
  | nil => rfl
  | cons c bs ih =>
    rw [words_cons (blank c List.mem_cons_self)]
    exact ih fun d hd => blank d (List.mem_cons_of_mem c hd)

/-- Blanks in front of a text have no part in its words. -/
theorem words_blanks_append {as : List Char} (blank : AllBlank as) (cs : List Char) : words (as ++ cs) = words cs := by
  induction as with
  | nil => rfl
  | cons c as ih =>
    rw [List.cons_append, words_cons (blank c List.mem_cons_self)]
    exact ih fun d hd => blank d (List.mem_cons_of_mem c hd)

/-- Blanks behind a text have no part in its words. -/
theorem words_append_blanks {bs : List Char} (blank : AllBlank bs) (cs : List Char) : words (cs ++ bs) = words cs := by
  cases bs with
  | nil => rw [List.append_nil]
  | cons c bs =>
    have rest : AllBlank bs := fun d hd => blank d (List.mem_cons_of_mem c hd)
    rw [words_append (blank c List.mem_cons_self), words_blanks rest, List.append_nil]

/-- So a text has the words of what is left when it is stripped. -/
theorem words_stripChars (cs : List Char) : words (stripChars cs) = words cs := by
  obtain ⟨as, bs, front, back, whole⟩ := exists_margins cs
  have same := congrArg words whole
  rw [words_append_blanks back, words_blanks_append front] at same
  exact same.symm

/-- A word and what follows it after a blank, or nothing at all. -/
theorem words_append_of_head {w rest : List Char} (word : IsWord w) (stop : ∀ c ∈ rest.head?, isBlank c = true) :
    words (w ++ rest) = w :: words rest := by
  cases rest with
  | nil => rw [List.append_nil, words_word word, words_nil]
  | cons c rest => rw [words_word_append word (stop c rfl), words_cons (stop c rfl)]

/-- The visible characters from a visible one on are a word. -/
theorem isWord_takeWhile {c : Char} (visible : isBlank c = false) (cs : List Char) :
    IsWord (c :: cs.takeWhile fun d => !isBlank d) := by
  refine ⟨List.cons_ne_nil _ _, ?_⟩
  intro d hd
  rcases List.mem_cons.mp hd with rfl | later
  · exact visible
  · simpa using List.all_eq_true.mp List.all_takeWhile d later

/-- Behind the visible characters comes a blank, or the end. -/
theorem blank_of_dropWhile (cs : List Char) : ∀ d ∈ (cs.dropWhile fun d => !isBlank d).head?, isBlank d = true := by
  intro d hd
  have stop := List.head?_dropWhile_not (fun d => !isBlank d) cs
  rw [hd] at stop
  simpa using stop

/-- **The first word** goes up to the next blank. -/
theorem words_visible {c : Char} (visible : isBlank c = false) (cs : List Char) :
    words (c :: cs) = (c :: cs.takeWhile fun d => !isBlank d) :: words (cs.dropWhile fun d => !isBlank d) := by
  have whole : c :: cs = (c :: cs.takeWhile fun d => !isBlank d) ++ cs.dropWhile fun d => !isBlank d := by
    rw [List.cons_append, List.takeWhile_append_dropWhile]
  rw [whole]
  exact words_append_of_head (isWord_takeWhile visible cs) (blank_of_dropWhile cs)

/-- **Words with one blank between them** are the words. -/
theorem words_intercalate {ws : List (List Char)} (h : ∀ w ∈ ws, IsWord w) : words ([' '].intercalate ws) = ws := by
  -- the last word has no blank behind it
  induction ws with
  | nil => rfl
  | cons w ws ih =>
    have word := h w List.mem_cons_self
    cases ws with
    | nil =>
      rw [List.intercalate_singleton]
      exact words_word word
    | cons w' ws =>
      rw [List.intercalate_cons_cons, List.append_assoc, List.singleton_append, words_word_append word rfl,
        ih fun w hw => h w (List.mem_cons_of_mem _ hw)]

/-! ## Bytes -/

/-- **The byte that a word stands for**: it has two hexadecimal digits. -/
def byteOf? : List Char → Option Byte
  | [h, l] =>
    match digitIn? 16 h, digitIn? 16 l with
    | some a, some b => some (BitVec.ofNat 8 (16 * a + b))
    | _, _ => none
  | _ => none

/-- A hexadecimal digit is visible. -/
theorem visible_of_digit {c : Char} {d : Nat} (digit : digitIn? 16 c = some d) : isBlank c = false := by
  refine Bool.eq_false_iff.mpr fun blank => ?_
  have low : c.toNat ≤ 32 := by
    simp only [isBlank, Bool.or_eq_true, decide_eq_true_eq, beq_iff_eq] at blank
    rcases blank with ⟨-, control⟩ | rfl
    · exact Nat.le_trans control (by decide)
    · decide
  have none : digitValue? c = none := by
    have above : ∀ f : Char, 32 < f.toNat → ¬ f ≤ c := fun f high le => by
      have := Nat.le_trans (show f.toNat ≤ c.toNat from le) low
      omega
    unfold digitValue?
    rw [if_neg fun h => above '0' (by decide) h.1, if_neg fun h => above 'a' (by decide) h.1,
      if_neg fun h => above 'A' (by decide) h.1]
  rw [digitIn?, none] at digit
  cases digit

/-- A text whose first word is no byte has no bytes. -/
theorem mapM_words_eq_none {c : Char} (visible : isBlank c = false) {cs : List Char}
    (none : byteOf? (c :: cs.takeWhile fun d => !isBlank d) = none) : (words (c :: cs)).mapM byteOf? = .none := by
  rw [words_visible visible, List.mapM_cons, none]
  rfl

/-- **A text is read word by word.** -/
theorem decodeByteChars_eq (cs : List Char) : decodeByteChars cs = (words cs).mapM byteOf? := by
  -- along the reader: blanks are skipped, and a word of two digits is a byte
  fun_induction decodeByteChars cs with
  | case1 => rfl
  | case2 c blank =>
    rw [words_cons blank]
    rfl
  | case3 c visible =>
    rw [mapM_words_eq_none (Bool.eq_false_iff.mpr visible) rfl]
  | case4 h l cs blank ih =>
    rw [words_cons blank, ih]
  | case5 h l visible a b hl hh =>
    have word : IsWord [h, l] := ⟨List.cons_ne_nil _ _, by simp [visible_of_digit hh, visible_of_digit hl]⟩
    rw [words_word word, List.mapM_cons, byteOf?, hh, hl]
    rfl
  | case6 h l visible a b hl hh c cs blank ih =>
    have word : IsWord [h, l] := ⟨List.cons_ne_nil _ _, by simp [visible_of_digit hh, visible_of_digit hl]⟩
    have cut : words (h :: l :: c :: cs) = [h, l] :: words cs := words_word_append word blank cs
    rw [cut, List.mapM_cons, byteOf?, hh, hl, ih, words_cons blank]
    cases (words cs).mapM byteOf? <;> rfl
  | case7 h l visible a b hl hh c cs further =>
    -- a third digit
    refine (mapM_words_eq_none (visible_of_digit hh) ?_).symm
    simp [visible_of_digit hl, further, byteOf?]
  | case8 h l cs visible other =>
    refine (mapM_words_eq_none (Bool.eq_false_iff.mpr visible) ?_).symm
    cases blank : isBlank l with
    | true => simp [blank, byteOf?]
    | false =>
      rw [List.takeWhile_cons_of_pos (by simp [blank])]
      cases cs.takeWhile fun d => !isBlank d with
      | cons => rfl
      | nil =>
        rw [byteOf?]
        split
        · rename_i a b hh hl
          exact (other a b hh hl).elim
        · rfl

/-- In a text that has bytes all visible characters are digits. -/
theorem digit_of_mem {cs : List Char} {bytes : List Byte} (denotes : (words cs).mapM byteOf? = some bytes) {c : Char}
    (hc : c ∈ cs) : isBlank c = true ∨ ∃ d, digitIn? 16 c = some d := by
  rw [← decodeByteChars_eq] at denotes
  fun_induction decodeByteChars cs generalizing bytes with
  | case1 => cases hc
  | case2 c' blank =>
    rw [List.mem_singleton.mp hc]
    exact .inl blank
  | case4 h l cs blank ih =>
    rcases List.mem_cons.mp hc with rfl | later
    · exact .inl blank
    · exact ih denotes later
  | case5 h l visible a b hl hh =>
    rcases List.mem_cons.mp hc with rfl | later
    · exact .inr ⟨a, hh⟩
    · rw [List.mem_singleton.mp later]
      exact .inr ⟨b, hl⟩
  | case6 h l visible a b hl hh c' cs blank ih =>
    obtain ⟨rest, denotes, -⟩ := Option.map_eq_some_iff.mp denotes
    rcases List.mem_cons.mp hc with rfl | later
    · exact .inr ⟨a, hh⟩
    · rcases List.mem_cons.mp later with rfl | later
      · exact .inr ⟨b, hl⟩
      · exact ih denotes later
  | case3 | case7 | case8 => cases denotes

/-- The digits of a byte are digits. -/
theorem digitIn?_byteDigits (b : Byte) : digitIn? 16 (digitChar (b.toNat / 16)) = some (b.toNat / 16) ∧
    digitIn? 16 (digitChar (b.toNat % 16)) = some (b.toNat % 16) :=
  ⟨digitIn?_digitChar (by decide) (by omega), digitIn?_digitChar (by decide) (Nat.mod_lt _ (by decide))⟩

/-- The digits of a byte are a word. -/
theorem isWord_byteDigits (b : Byte) : IsWord (byteDigits b) := by
  obtain ⟨high, low⟩ := digitIn?_byteDigits b
  exact ⟨List.cons_ne_nil _ _, by simp [byteDigits, visible_of_digit high, visible_of_digit low]⟩

/-- The digits of a byte stand for the byte. -/
theorem byteOf?_byteDigits (b : Byte) : byteOf? (byteDigits b) = some b := by
  obtain ⟨high, low⟩ := digitIn?_byteDigits b
  unfold byteDigits byteOf?
  simp only [high, low]
  rw [Nat.div_add_mod, BitVec.ofNat_toNat, BitVec.setWidth_eq]

/-- A byte list is written with one space between bytes. -/
theorem toList_encodeBytes (bs : List Byte) : (encodeBytes bs).toList = [' '].intercalate (bs.map byteDigits) := by
  unfold encodeBytes
  rw [String.toList_intercalate, List.map_map]
  congr 1
  exact List.map_congr_left fun b _ => String.toList_ofList

/-- The words of a byte list that is written. -/
theorem words_encodeBytes (bs : List Byte) : words (encodeBytes bs).toList = bs.map byteDigits := by
  rw [toList_encodeBytes]
  apply words_intercalate
  intro w hw
  obtain ⟨b, -, rfl⟩ := List.mem_map.mp hw
  exact isWord_byteDigits b

/-- **A byte list is read back.** -/
theorem mapM_byteDigits (bs : List Byte) : (bs.map byteDigits).mapM byteOf? = some bs := by
  induction bs with
  | nil => rfl
  | cons b bs ih =>
    rw [List.map_cons, List.mapM_cons, byteOf?_byteDigits, ih]
    rfl

end ArmToolkit.Text
