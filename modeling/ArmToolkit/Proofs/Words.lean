import ArmToolkit.Text.Ascii

/-!
# `Proofs.Words` — texts that are words with blanks between them

## Contents
- **Stripping.** A text that neither begins nor ends with a blank is left as it is (`stripChars_of_ends`). What is stripped
  are blanks (`exists_margins`), and blanks around a text do not matter (`stripChars_margins`).
- **Cutting.** A text is cut at a delimiter into the pieces that it was put together from (`pieces_intercalate`); if
  these are stripped, splitting gives them back (`splitChars_intercalate`). In general the pieces are what is between
  delimiters, less an empty one at the end (`splitOn_eq_pieces`).
- **Words.** `IsWord`: a text with characters, none of which is a blank. Words with blanks between them are not stripped
  (`stripChars_words`), and are cut into the words (`split_words`).
-/

namespace ArmToolkit.Text

/-! ## Stripping -/

theorem dropWhile_blank_of_head {cs : List Char} (h : ∀ c ∈ cs.head?, isBlank c = false) : cs.dropWhile isBlank = cs := by
  cases cs with
  | nil => rfl
  | cons c cs => simp [h c rfl]

/-- **A text that neither begins nor ends with a blank** is left as it is. -/
theorem stripChars_of_ends {cs : List Char} (front : ∀ c ∈ cs.head?, isBlank c = false)
    (back : ∀ c ∈ cs.getLast?, isBlank c = false) : stripChars cs = cs := by
  unfold stripChars stripFront stripBack
  rw [dropWhile_blank_of_head front, dropWhile_blank_of_head (by simpa using back), List.reverse_reverse]

/-- A text is left as it is if something in front of it begins without a blank and it has an end without one. -/
theorem stripChars_append {c : Char} {cs ds : List Char} (front : isBlank c = false)
    (back : ∀ d ∈ ds.getLast?, isBlank d = false) (some : ds ≠ []) : stripChars (c :: cs ++ ds) = c :: cs ++ ds := by
  apply stripChars_of_ends
  · intro c' hc'
    obtain rfl : c = c' := by simpa using hc'
    exact front
  · intro d hd
    apply back
    rw [List.getLast?_append, List.getLast?_eq_some_getLast some] at hd
    rw [List.getLast?_eq_some_getLast some]
    exact hd

/-- A blank in front is stripped. -/
theorem stripChars_cons {c : Char} (blank : isBlank c = true) (cs : List Char) : stripChars (c :: cs) = stripChars cs := by
  unfold stripChars stripFront
  rw [List.dropWhile_cons_of_pos blank]

/-- **A text with nothing but blanks.** -/
def AllBlank (cs : List Char) : Prop := ∀ c ∈ cs, isBlank c = true

/-- A blank text is blank from the other end as well. -/
theorem AllBlank.reverse {cs : List Char} (h : AllBlank cs) : AllBlank cs.reverse := by
  intro c hc
  exact h c (List.mem_reverse.mp hc)

/-- Blanks in front of a text do not matter when it is stripped. -/
theorem stripChars_blanks_append {as : List Char} (blank : AllBlank as) (cs : List Char) :
    stripChars (as ++ cs) = stripChars cs := by
  unfold stripChars stripFront
  rw [List.dropWhile_append_of_pos blank]

/-- Blanks behind a text do not matter when it is stripped at the back. -/
theorem stripBack_append_blanks {bs : List Char} (blank : AllBlank bs) (cs : List Char) :
    stripBack (cs ++ bs) = stripBack cs := by
  unfold stripBack
  rw [List.reverse_append, List.dropWhile_append_of_pos blank.reverse]

/-- All that is stripped at the front are blanks. -/
theorem exists_stripFront (cs : List Char) : ∃ as, AllBlank as ∧ cs = as ++ stripFront cs := by
  refine ⟨cs.takeWhile isBlank, ?_, List.takeWhile_append_dropWhile.symm⟩
  intro c hc
  exact List.all_eq_true.mp List.all_takeWhile c hc

/-- What stays begins with a visible character. -/
theorem visible_stripFront {cs rest : List Char} {c : Char} (stays : stripFront cs = c :: rest) : isBlank c = false := by
  have first := List.head?_dropWhile_not isBlank cs
  unfold stripFront at stays
  rw [stays] at first
  exact first

/-- All that is stripped at the end are blanks. -/
theorem exists_stripBack (cs : List Char) : ∃ bs, AllBlank bs ∧ cs = stripBack cs ++ bs := by
  obtain ⟨bs, blank, whole⟩ := exists_stripFront cs.reverse
  refine ⟨bs.reverse, blank.reverse, ?_⟩
  have turned := congrArg List.reverse whole
  rw [List.reverse_reverse, List.reverse_append] at turned
  exact turned

/-- **All that is stripped are blanks.** -/
theorem exists_margins (cs : List Char) : ∃ as bs, AllBlank as ∧ AllBlank bs ∧ cs = as ++ stripChars cs ++ bs := by
  obtain ⟨as, front, whole⟩ := exists_stripFront cs
  obtain ⟨bs, back, rest⟩ := exists_stripBack (stripFront cs)
  refine ⟨as, bs, front, back, ?_⟩
  rw [List.append_assoc]
  exact whole.trans (congrArg (as ++ ·) rest)

/-- A visible character stays, with all that is behind it, when the front is stripped. -/
theorem stripFront_visible {c : Char} (visible : isBlank c = false) (xs ys : List Char) :
    stripFront (xs ++ c :: ys) = stripFront xs ++ c :: ys := by
  unfold stripFront
  induction xs with
  | nil => simp [visible]
  | cons x xs ih => by_cases blank : isBlank x = true <;> simp [blank, ih]

/-- A visible character stays, with all that is in front of it, when the back is stripped. -/
theorem stripBack_visible {c : Char} (visible : isBlank c = false) (xs ys : List Char) :
    stripBack (xs ++ c :: ys) = xs ++ c :: stripBack ys := by
  have turned := stripFront_visible visible ys.reverse xs.reverse
  unfold stripFront at turned
  unfold stripBack
  rw [List.reverse_append, List.reverse_cons, List.append_assoc, List.singleton_append, turned]
  simp

/-- **Around a visible character** the text is stripped at its two ends. -/
theorem stripChars_visible {c : Char} (visible : isBlank c = false) (xs ys : List Char) :
    stripChars (xs ++ c :: ys) = stripFront xs ++ c :: stripBack ys := by
  rw [stripChars, stripFront_visible visible, stripBack_visible visible]

/-- **Nothing is left of a text when it is stripped** exactly if all of it is blank. -/
theorem stripChars_eq_nil_iff {cs : List Char} : stripChars cs = [] ↔ AllBlank cs := by
  constructor
  · intro none
    obtain ⟨as, bs, front, back, whole⟩ := exists_margins cs
    rw [none, List.append_nil] at whole
    intro c hc
    rw [whole] at hc
    exact (List.mem_append.mp hc).elim (front c) (back c)
  · intro blank
    have same := stripChars_blanks_append blank []
    rw [List.append_nil] at same
    exact same

/-- Blanks behind a text do not matter. -/
theorem stripChars_append_blanks {bs : List Char} (blank : AllBlank bs) (cs : List Char) :
    stripChars (cs ++ bs) = stripChars cs := by
  cases front : stripFront cs with
  | nil =>
    -- the text is blank as well
    have nothing : stripChars cs = [] := by
      rw [stripChars, front]
      rfl
    have all : AllBlank (cs ++ bs) := fun c hc =>
      (List.mem_append.mp hc).elim (stripChars_eq_nil_iff.mp nothing c) (blank c)
    rw [nothing, stripChars_eq_nil_iff.mpr all]
  | cons c rest =>
    obtain ⟨as, blanks, whole⟩ := exists_stripFront cs
    have visible := visible_stripFront front
    rw [front] at whole
    rw [whole, List.append_assoc, List.cons_append, stripChars_visible visible, stripChars_visible visible,
      stripBack_append_blanks blank]

/-- **Blanks around a text do not matter.** -/
theorem stripChars_margins {as bs : List Char} (front : AllBlank as) (back : AllBlank bs) (cs : List Char) :
    stripChars (as ++ cs ++ bs) = stripChars cs := by
  rw [stripChars_append_blanks back, stripChars_blanks_append front]

/-- A text that has been stripped at one end can be stripped at both. -/
theorem stripChars_stripFront (cs : List Char) : stripChars (stripFront cs) = stripChars cs := by
  obtain ⟨as, blank, whole⟩ := exists_stripFront cs
  have same := congrArg stripChars whole
  rw [stripChars_blanks_append blank] at same
  exact same.symm

theorem stripChars_stripBack (cs : List Char) : stripChars (stripBack cs) = stripChars cs := by
  obtain ⟨bs, blank, whole⟩ := exists_stripBack cs
  have same := congrArg stripChars whole
  rw [stripChars_append_blanks blank] at same
  exact same.symm

/-! ## Cutting -/

/-- A piece in front of a delimiter is cut off. -/
theorem pieces_append {d : Char} {p : List Char} (h : d ∉ p) (rest : List Char) :
    pieces d (p ++ d :: rest) = p :: pieces d rest := by
  induction p with
  | nil => simp [pieces, consPiece]
  | cons c p ih =>
    simp only [List.mem_cons, not_or] at h
    have later := ih h.2
    unfold pieces at later ⊢
    rw [List.cons_append, List.foldr_cons, later]
    exact if_neg (Ne.symm h.1)

/-- A text without a delimiter is one piece. -/
theorem pieces_of_not_mem {d : Char} {p : List Char} (h : d ∉ p) (some : p ≠ []) : pieces d p = [p] := by
  induction p with
  | nil => exact absurd rfl some
  | cons c p ih =>
    simp only [List.mem_cons, not_or] at h
    unfold pieces at ih ⊢
    rw [List.foldr_cons]
    cases p with
    | nil => exact if_neg (Ne.symm h.1)
    | cons c' p =>
      rw [ih h.2 (by simp)]
      exact if_neg (Ne.symm h.1)

/-- **A text is cut into the pieces that it was put together from**, if the last one is not empty. -/
theorem pieces_intercalate {d : Char} {ps : List (List Char)} (apart : ∀ p ∈ ps, d ∉ p)
    (last : ∀ p ∈ ps.getLast?, p ≠ []) : pieces d ([d].intercalate ps) = ps := by
  induction ps with
  | nil => rfl
  | cons p ps ih =>
    cases ps with
    | nil =>
      simp only [List.intercalate_singleton]
      exact pieces_of_not_mem (apart p List.mem_cons_self) (last p rfl)
    | cons q ps =>
      rw [List.intercalate_cons_cons, List.append_assoc, List.singleton_append,
        pieces_append (apart p List.mem_cons_self)]
      rw [ih (fun p hp => apart p (List.mem_cons_of_mem _ hp)) (by simpa using last)]

/-- **Pieces are what is between delimiters**, less an empty one at the end. -/
theorem splitOn_eq_pieces (d : Char) (cs : List Char) :
    cs.splitOn d = pieces d cs ∨ cs.splitOn d = pieces d cs ++ [[]] := by
  induction cs with
  | nil => exact .inr (List.splitOn_nil d)
  | cons c cs ih =>
    have cut : pieces d (c :: cs) = consPiece d c (pieces d cs) := rfl
    rw [List.splitOn_cons_eq_if_modifyHead, cut]
    unfold consPiece
    by_cases delimiter : c = d
    · rw [if_pos (beq_iff_eq.mpr delimiter), if_pos delimiter]
      exact ih.imp (congrArg ([] :: ·)) (congrArg ([] :: ·))
    · rw [if_neg (mt beq_iff_eq.mp delimiter), if_neg delimiter]
      -- the character joins the first piece; if there is none, it opens what was the empty one
      cases all : pieces d cs with
      | nil =>
        rw [all] at ih
        rcases ih with none | empty
        · exact absurd none (List.splitOn_ne_nil d cs)
        · rw [empty]
          exact .inl rfl
      | cons p ps =>
        rw [all] at ih
        rcases ih with same | empty
        · rw [same]
          exact .inl rfl
        · rw [empty]
          exact .inr rfl

/-- **Stripped parts with delimiters between them are split again.** -/
theorem splitChars_intercalate {d : Char} {ps : List (List Char)} (stripped : ∀ p ∈ ps, stripChars p = p)
    (apart : ∀ p ∈ ps, d ∉ p) (last : ∀ p ∈ ps.getLast?, p ≠ []) (skipEmpty : Bool) :
    splitChars d skipEmpty ([d].intercalate ps) = ps.filter fun p => !(skipEmpty && p.isEmpty) := by
  have same : ps.map stripChars = ps.map id := List.map_congr_left stripped
  unfold splitChars
  rw [pieces_intercalate apart last, same, List.map_id]

/-! ## Words -/

/-- **A word**: characters, none of which is a blank. -/
structure IsWord (w : List Char) : Prop where
  nonempty : w ≠ []
  visible : ∀ c ∈ w, isBlank c = false

/-- The characters of words with a delimiter between them. -/
theorem mem_intercalate {d c : Char} {ps : List (List Char)} (h : c ∈ [d].intercalate ps) : c = d ∨ ∃ p ∈ ps, c ∈ p := by
  induction ps with
  | nil => simp at h
  | cons p ps ih =>
    cases ps with
    | nil => exact .inr ⟨p, List.mem_cons_self, by simpa using h⟩
    | cons q ps =>
      rw [List.intercalate_cons_cons] at h
      simp only [List.mem_append, List.mem_singleton] at h
      rcases h with (front | delimiter) | back
      · exact .inr ⟨p, List.mem_cons_self, front⟩
      · exact .inl delimiter
      · rcases ih back with delimiter | ⟨r, hr, hc⟩
        · exact .inl delimiter
        · exact .inr ⟨r, List.mem_cons_of_mem _ hr, hc⟩

section

variable {ws : List (List Char)}

/-- The first character of words in a row is that of the first word, and the last one is that of the last. -/
theorem ends_words (h : ∀ w ∈ ws, IsWord w) :
    (∀ c ∈ ([' '].intercalate ws).head?, isBlank c = false) ∧ ∀ c ∈ ([' '].intercalate ws).getLast?, isBlank c = false := by
  induction ws with
  | nil => simp
  | cons w ws ih =>
    have word := h w List.mem_cons_self
    cases ws with
    | nil =>
      simp only [List.intercalate_singleton]
      exact ⟨fun c hc => word.visible c (List.mem_of_mem_head? hc), fun c hc => word.visible c (List.mem_of_mem_getLast? hc)⟩
    | cons w' ws =>
      obtain ⟨-, back⟩ := ih fun w hw => h w (List.mem_cons_of_mem _ hw)
      rw [List.intercalate_cons_cons]
      constructor
      · intro c hc
        cases w with
        | nil => exact absurd rfl word.nonempty
        | cons c' w =>
          have same : c' = c := by simpa using hc
          exact same ▸ word.visible c' List.mem_cons_self
      · intro c hc
        rw [List.getLast?_append] at hc
        cases rest : ([' '].intercalate (w' :: ws)).getLast? with
        | some c' =>
          rw [rest] at hc
          have same : c' = c := by simpa using hc
          exact back c (rest.trans (congrArg some same))
        | none =>
          -- the words behind the first one are not empty
          have empty := List.getLast?_eq_none_iff.mp rest
          have later := (h w' (by simp)).nonempty
          cases ws with
          | nil => exact absurd (by simpa using empty) later
          | cons w'' ws => simp [List.intercalate_cons_cons] at empty

/-- **Words in a row are not stripped.** -/
theorem stripChars_words (h : ∀ w ∈ ws, IsWord w) : stripChars ([' '].intercalate ws) = [' '].intercalate ws :=
  stripChars_of_ends (ends_words h).1 (ends_words h).2

/-- A word is not stripped. -/
theorem IsWord.stripChars {w : List Char} (h : IsWord w) : stripChars w = w :=
  stripChars_of_ends (fun c hc => h.visible c (List.mem_of_mem_head? hc)) fun c hc =>
    h.visible c (List.mem_of_mem_getLast? hc)

/-- **Words in a row are cut into the words.** -/
theorem splitChars_words (h : ∀ w ∈ ws, IsWord w) : splitChars ' ' true ([' '].intercalate ws) = ws := by
  have apart : ∀ w ∈ ws, ' ' ∉ w := by
    intro w hw blank
    have := (h w hw).visible ' ' blank
    exact absurd this (by decide)
  have last : ∀ w ∈ ws.getLast?, w ≠ [] := fun w hw => (h w (List.mem_of_mem_getLast? hw)).nonempty
  rw [splitChars_intercalate (fun w hw => (h w hw).stripChars) apart last, List.filter_eq_self]
  intro w hw
  simpa using (h w hw).nonempty

/-- `splitChars_words` on strings. -/
theorem split_words {ss : List String} (h : ∀ s ∈ ss, IsWord s.toList) :
    split ' ' true (String.ofList ([' '].intercalate (ss.map String.toList))) = ss := by
  unfold split
  rw [String.toList_ofList, splitChars_words (by simpa using h), List.map_map]
  have same : ∀ s ∈ ss, (String.ofList ∘ String.toList) s = id s := fun s _ => String.ofList_toList
  rw [List.map_congr_left same, List.map_id]

end

end ArmToolkit.Text
