import ArmToolkit.Proofs.Words
import Mathlib.Data.List.Basic
import Mathlib.Data.List.TakeWhile

/-!
# `Proofs.StrippedTexts` — what stays of a text that is stripped, and texts put together of such parts

## Contents
- **The longest part.** `IsLongestTrimmed`: a part of a text that neither begins nor ends with a blank, and in which every other
  such part lies. There is one (`isLongestTrimmed_stripChars`) and no other (`IsLongestTrimmed.unique`). It is also what is
  visible (`visibleChars_eq`), and stripping it leaves it as it is (`stripChars_stripChars`).
- **Parts that are joined.** Stripped parts with delimiters between them are split again, up to the empty ones where these are
  skipped (`split_join`).
-/

namespace ArmToolkit.Text

/-! ## The longest part -/

/-- **A text that neither begins nor ends with a blank.** -/
structure Trimmed (cs : List Char) : Prop where
  front : ∀ c ∈ cs.head?, isBlank c = false
  back : ∀ c ∈ cs.getLast?, isBlank c = false

/-- **The longest part of a text that neither begins nor ends with a blank**: every other such part lies within it. -/
structure IsLongestTrimmed (whole part : List Char) : Prop where
  inside : part <:+: whole
  trimmed : Trimmed part
  longest : ∀ other, other <:+: whole → Trimmed other → other <:+: part

/-- No other part is as long. -/
theorem IsLongestTrimmed.unique {whole part other : List Char} (h : IsLongestTrimmed whole part)
    (h' : IsLongestTrimmed whole other) : part = other := by
  have within := h'.longest part h.inside h.trimmed
  have around := h.longest other h'.inside h'.trimmed
  exact within.eq_of_length_le around.length_le

section

variable {part : List Char}

/-- **What stays of a text around such a part**: the part, and what is in front of it and behind it stripped at its far
    end. -/
theorem Trimmed.stripChars_around (h : Trimmed part) (some : part ≠ []) (xs ys : List Char) :
    stripChars (xs ++ part ++ ys) = stripFront xs ++ part ++ stripBack ys := by
  obtain ⟨c, cs, begins⟩ := List.exists_cons_of_ne_nil some
  obtain ⟨ds, d, ends⟩ := (List.eq_nil_or_concat part).resolve_left some
  have first : isBlank c = false := h.front c (by simp [begins])
  have final : isBlank d = false := h.back d (by simp [ends])
  have front : stripFront (xs ++ part ++ ys) = stripFront xs ++ part ++ ys := by
    rw [begins, List.append_assoc, List.append_assoc]
    exact stripFront_visible first xs (cs ++ ys)
  have back : stripBack (stripFront xs ++ part ++ ys) = stripFront xs ++ part ++ stripBack ys := by
    rw [ends, List.concat_eq_append, ← List.append_assoc, List.append_assoc _ [d], List.append_assoc _ [d]]
    exact stripBack_visible final (stripFront xs ++ ds) ys
  rw [stripChars, front, back]

/-- Blanks are taken up to a character that is none. -/
theorem takeWhile_blanks {as rest : List Char} (blank : AllBlank as) (stop : ∀ c ∈ rest.head?, isBlank c = false) :
    (as ++ rest).takeWhile isBlank = as := by
  rw [List.takeWhile_append_of_pos blank]
  cases rest with
  | nil => exact List.append_nil as
  | cons c rest => rw [List.takeWhile_cons_of_neg (by simp [stop c rfl]), List.append_nil]

/-- **Between blanks it is the part that is visible.** -/
theorem Trimmed.visibleChars_between (h : Trimmed part) (some : part ≠ []) {as bs : List Char} (front : AllBlank as)
    (back : AllBlank bs) : visibleChars (as ++ part ++ bs) = part := by
  have starts : visibleStart (as ++ part ++ bs) = as.length := by
    have stop : ∀ c ∈ (part ++ bs).head?, isBlank c = false := by
      rw [List.head?_append_of_ne_nil _ some]
      exact h.front
    rw [visibleStart, List.append_assoc, takeWhile_blanks front stop]
  have stops : visibleEnd (as ++ part ++ bs) = (as ++ part).length := by
    have stop : ∀ c ∈ (as ++ part).reverse.head?, isBlank c = false := by
      rw [List.head?_reverse, List.getLast?_append_of_ne_nil _ some]
      exact h.back
    have sizes : (as ++ part ++ bs).length = (as ++ part).length + bs.length := List.length_append
    rw [visibleEnd, List.reverse_append, takeWhile_blanks back.reverse stop, List.length_reverse, sizes, Nat.add_sub_cancel]
  rw [visibleChars, starts, stops, List.take_left, List.drop_left]

end

/-- What is stripped neither begins nor ends with a blank. -/
theorem trimmed_stripChars (cs : List Char) : Trimmed (stripChars cs) := by
  constructor
  · unfold stripChars
    cases stays : stripFront cs with
    | nil => simp [stripBack]
    | cons c rest =>
      have visible := visible_stripFront stays
      rw [show stripBack (c :: rest) = c :: stripBack rest from stripBack_visible visible [] rest]
      intro d hd
      obtain rfl : c = d := by simpa using hd
      exact visible
  · intro c hc
    unfold stripChars stripBack at hc
    rw [List.getLast?_reverse] at hc
    have stop := List.head?_dropWhile_not isBlank (stripFront cs).reverse
    rw [hc] at stop
    exact stop

/-- **What is stripped is the longest part** that neither begins nor ends with a blank. -/
theorem isLongestTrimmed_stripChars (cs : List Char) : IsLongestTrimmed cs (stripChars cs) where
  inside := by
    obtain ⟨as, bs, -, -, whole⟩ := exists_margins cs
    exact ⟨as, bs, whole.symm⟩
  trimmed := trimmed_stripChars cs
  longest := by
    rintro other ⟨xs, ys, rfl⟩ trimmed
    by_cases none : other = []
    · rw [none]
      exact List.nil_infix
    · rw [trimmed.stripChars_around none]
      exact List.infix_append _ _ _

/-- **The text between the first visible character and the last** is what is left of it when it is stripped. -/
theorem visibleChars_eq (cs : List Char) : visibleChars cs = stripChars cs := by
  obtain ⟨as, bs, front, back, whole⟩ := exists_margins cs
  by_cases none : stripChars cs = []
  · -- the blanks at the end are the whole text
    have blank := stripChars_eq_nil_iff.mp none
    have all : cs.reverse.takeWhile isBlank = cs.reverse := List.takeWhile_eq_self_iff.mpr blank.reverse
    unfold visibleChars visibleEnd
    rw [none, all, List.length_reverse, Nat.sub_self, List.take_zero, List.drop_nil]
  · have between := (trimmed_stripChars cs).visibleChars_between none front back
    rwa [← whole] at between

/-- Stripping once is enough. -/
theorem stripChars_stripChars (cs : List Char) : stripChars (stripChars cs) = stripChars cs :=
  stripChars_of_ends (trimmed_stripChars cs).front (trimmed_stripChars cs).back

/-! ## Parts that are joined -/

section

variable {s : String}

theorem toList_strip : (strip s).toList = stripChars s.toList := String.toList_ofList

/-- A string is stripped exactly if its characters are. -/
theorem strip_eq_self_iff : strip s = s ↔ stripChars s.toList = s.toList := by
  rw [← String.toList_inj, toList_strip]

end

/-- **Stripped texts that are joined are split again.** -/
theorem split_join {d : Char} {ps : List String} (stripped : ∀ p ∈ ps, strip p = p) (apart : ∀ p ∈ ps, d ∉ p.toList)
    (last : ∀ p ∈ ps.getLast?, p ≠ "") (skipEmpty : Bool) :
    split d skipEmpty (join (String.singleton d) ps) = ps.filter fun p => !(skipEmpty && p.isEmpty) := by
  have joined : (join (String.singleton d) ps).toList = [d].intercalate (ps.map String.toList) := by
    unfold join
    rw [String.toList_intercalate, String.toList_singleton]
  have cut : splitChars d skipEmpty ([d].intercalate (ps.map String.toList)) =
      (ps.map String.toList).filter fun p => !(skipEmpty && p.isEmpty) :=
    splitChars_intercalate (by simpa [strip_eq_self_iff] using stripped) (by simpa using apart) (by simpa using last) skipEmpty
  have empty : ∀ p : String, p.toList.isEmpty = p.isEmpty := by
    intro p
    rw [Bool.eq_iff_iff, List.isEmpty_iff, String.toList_eq_nil_iff, String.isEmpty_iff]
  have whole : ∀ p : String, (String.ofList ∘ String.toList) p = id p := fun _ => String.ofList_toList
  unfold split
  rw [joined, cut, List.filter_map, List.map_map, List.map_congr_left fun p _ => whole p, List.map_id]
  apply List.filter_congr
  intro p _
  rw [Function.comp_apply, empty]

/-- **Stripping and splitting.** However a text is stripped, what stays is its longest part that neither begins nor ends with a
    blank, and stripping once is enough. Stripped texts without a delimiter in them, of which the last is not empty, are split
    as they were joined, or without those that are empty. -/
theorem strip_split (s : String) :
    visible s = strip s ∧ (∀ part, IsLongestTrimmed s.toList part ↔ part = (strip s).toList) ∧ strip (strip s) = strip s ∧
    ∀ (d : Char) (ps : List String), (∀ p ∈ ps, strip p = p) → (∀ p ∈ ps, d ∉ p.toList) → (∀ p ∈ ps.getLast?, p ≠ "") →
      split d false (join (String.singleton d) ps) = ps ∧
      split d true (join (String.singleton d) ps) = ps.filter fun p => p ≠ "" := by
  refine ⟨?_, ?_, ?_, ?_⟩
  · exact congrArg String.ofList (visibleChars_eq s.toList)
  · intro part
    have longest := isLongestTrimmed_stripChars s.toList
    rw [← toList_strip] at longest
    constructor
    · intro other
      exact other.unique longest
    · rintro rfl
      exact longest
  · rw [strip_eq_self_iff, toList_strip, stripChars_stripChars]
  · intro d ps stripped apart last
    rw [split_join stripped apart last, split_join stripped apart last]
    constructor
    · simp
    · apply List.filter_congr
      intro p _
      rw [Bool.eq_iff_iff]
      simp

/-- Lines of which some are empty, with blanks in the others. -/
theorem strip_split_lines :
    let lines := ["", "a \t b", "", "c"]
    (∀ line ∈ lines, strip line = line) ∧ join (String.singleton '\n') lines = "\na \t b\n\nc" ∧
      split '\n' false "\na \t b\n\nc" = lines ∧ split '\n' true "\na \t b\n\nc" = ["a \t b", "c"] := by
  intro lines
  have stripped : ∀ line ∈ lines, strip line = line := by decide
  have joined : join (String.singleton '\n') lines = "\na \t b\n\nc" := by decide
  obtain ⟨kept, some⟩ := (strip_split "").2.2.2 '\n' lines stripped (by decide) (by decide)
  rw [joined] at kept some
  exact ⟨stripped, joined, kept, some⟩

end ArmToolkit.Text
