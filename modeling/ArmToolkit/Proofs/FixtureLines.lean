import ArmToolkit.Fixture.Entry
import ArmToolkit.Proofs.HexWords
import Mathlib.Data.List.TakeDrop
import Mathlib.Data.List.TakeWhile

/-!
# `Proofs.FixtureLines` — fixtures line by line

A number sign is a comment in front of the bar and a part of the text behind it, and a second bar is a part of the text as
well. So it is the first of either that decides about a line.

## Contents
- **Lines.** Every line is one of three: it says nothing (`Silent`), it holds an entry (`IsEntry`), or something is wrong
  with it (`IsFault`). `readLine` tells which (`readLine_of_silent`, `readLine_of_isEntry`, `readLine_of_isFault`).
- **Fixtures.** `Records` are the entries of lines, with the numbers of their lines. A fixture is read up to its first wrong
  line (`LoadedFrom`, `readLines_cases`), and its lines are what is between newlines (`loadEntries_eq`).
- **Written fixtures.** `Row` is a line as it is written. `loadEntries_lines` says that rows are read back, and what is read
  before an error.
-/

namespace ArmToolkit.Fixture

open Text

/-! ## Lines -/

/-- **A line that says nothing**: the first character that is no blank, if there is one, begins a comment. -/
def Silent (line : List Char) : Prop := ∀ c ∈ (stripFront line).head?, c = '#'

/-- The check looks at one character. -/
instance (line : List Char) : Decidable (Silent line) :=
  decidable_of_iff ((stripFront line).head?.all (· == '#') = true) <| by
    unfold Silent
    cases (stripFront line).head? <;> simp

/-- **A line that holds an entry**: words of two hexadecimal digits in front of the first bar, and a text behind it. -/
inductive IsEntry : List Char → List Byte → List Char → Prop
  | intro {front back : List Char} {bytes : List Byte} (denotes : (words front).mapM byteOf? = some bytes)
    (some : bytes ≠ []) (visible : ¬ AllBlank back) : IsEntry (front ++ '|' :: back) bytes (stripChars back)

/-- **What is wrong with line `n`**, if it has visible characters in front of a comment: there is no bar, or no bytes are in
    front of it, or no text is behind it. -/
inductive IsFault (n : Nat) : List Char → LineError → Prop
  | noSeparator {line : List Char} (visible : ¬ Silent line) (none : '|' ∉ line.takeWhile (· != '#')) :
    IsFault n line (.noSeparator n)
  | bytes {front back : List Char} (bar : '|' ∉ front) (number : '#' ∉ front)
    (none : ∀ bytes, (words front).mapM byteOf? = some bytes → bytes = []) :
    IsFault n (front ++ '|' :: back) (.bytes n (String.ofList (stripChars front)))
  | noText {front back : List Char} {bytes : List Byte} (denotes : (words front).mapM byteOf? = some bytes)
    (some : bytes ≠ []) (blank : AllBlank back) : IsFault n (front ++ '|' :: back) (.noText n)

/-- The number of a line in an error. -/
def LineError.line : LineError → Nat
  | noSeparator n => n
  | bytes n _ => n
  | noText n => n

/-- A fault has the number of its line. -/
theorem IsFault.line_eq {n : Nat} {line : List Char} {e : LineError} (h : IsFault n line e) : e.line = n := by
  cases h <;> rfl

/-- The message of a fault begins with the number of its line. -/
theorem LineError.message_eq (e : LineError) : ∃ rest, e.message = "Line " ++ dec e.line ++ ": " ++ rest := by
  cases e with
  | noSeparator n => exact ⟨"missing '|' separator", String.ext (by simp [message, line])⟩
  | bytes n s => exact ⟨"invalid bytes '" ++ s ++ "'", String.ext (by simp [message, line])⟩
  | noText n => exact ⟨"missing instruction text", String.ext (by simp [message, line])⟩

variable {n : Nat} {front back : List Char} {bytes : List Byte}

/-- A character that is neither a blank nor a hexadecimal digit is in no bytes. -/
theorem not_mem_of_bytes (denotes : (words front).mapM byteOf? = some bytes) {c : Char} (visible : isBlank c = false)
    (other : digitIn? 16 c = none) : c ∉ front := by
  intro hc
  rcases digit_of_mem denotes hc with blank | ⟨d, digit⟩
  · rw [visible] at blank
    cases blank
  · rw [other] at digit
    cases digit

/-- A line is read by what is left of it without its comment and the blanks around it. -/
theorem readLine_congr {line line' : List Char}
    (same : stripChars (withoutComment line) = stripChars (withoutComment line')) : readLine n line = readLine n line' := by
  unfold readLine
  rw [same]

/-- There is no number sign among blanks. -/
theorem number_of_blank {bs : List Char} (blank : AllBlank bs) : ∀ c ∈ bs, (c != '#') = true := by
  intro c hc
  rw [bne_iff_ne]
  rintro rfl
  exact absurd (blank _ hc) (by decide)

/-- There is no bar among blanks. -/
theorem bar_of_blank {bs : List Char} (blank : AllBlank bs) : '|' ∉ bs := by
  intro hc
  exact absurd (blank _ hc) (by decide)

/-- Blanks in front of a line do not matter for its comment. -/
theorem withoutComment_blanks_append {as : List Char} (blank : AllBlank as) (line : List Char) :
    withoutComment (as ++ line) = as ++ withoutComment line := by
  have bar : (as ++ line.takeWhile (· != '#')).contains '|' = (line.takeWhile (· != '#')).contains '|' := by
    simp [bar_of_blank blank]
  unfold withoutComment
  dsimp only
  rw [List.takeWhile_append_of_pos (number_of_blank blank), bar]
  split <;> rfl

/-- Blanks behind a line do not matter for its comment: some of them stay behind the rest. -/
theorem withoutComment_append_blanks {bs : List Char} (blank : AllBlank bs) (line : List Char) :
    ∃ bs', AllBlank bs' ∧ withoutComment (line ++ bs) = withoutComment line ++ bs' := by
  by_cases plain : ∀ c ∈ line, (c != '#') = true
  · -- there is no comment at all
    have whole : ∀ cs, (∀ c ∈ cs, (c != '#') = true) → withoutComment cs = cs := by
      intro cs h
      unfold withoutComment
      rw [List.takeWhile_eq_self_iff.mpr h]
      exact ite_self cs
    refine ⟨bs, blank, ?_⟩
    rw [whole line plain, whole (line ++ bs)]
    intro c hc
    exact (List.mem_append.mp hc).elim (plain c) (number_of_blank blank c)
  · have same : (line ++ bs).takeWhile (· != '#') = line.takeWhile (· != '#') := by
      refine List.takeWhile_append.trans (if_neg fun all => plain ?_)
      have whole := List.IsPrefix.eq_of_length (List.takeWhile_prefix _) all
      intro c hc
      rw [← whole] at hc
      exact List.all_eq_true.mp List.all_takeWhile c hc
    unfold withoutComment
    dsimp only
    rw [same]
    split
    · exact ⟨bs, blank, rfl⟩
    · exact ⟨[], List.forall_mem_nil _, (List.append_nil _).symm⟩

/-- **A line can be stripped first.** -/
theorem readLine_stripChars (n : Nat) (line : List Char) : readLine n (stripChars line) = readLine n line := by
  obtain ⟨as, bs, front, back, whole⟩ := exists_margins line
  apply readLine_congr
  obtain ⟨bs', blank, behind⟩ := withoutComment_append_blanks back (stripChars line)
  rw [← stripChars_margins front blank (withoutComment (stripChars line)), List.append_assoc, ← behind,
    ← withoutComment_blanks_append front, ← List.append_assoc, ← whole]

/-- **A line that says nothing** is left out. -/
theorem readLine_of_silent {line : List Char} (silent : Silent line) : readLine n line = .ok none := by
  obtain ⟨as, blank, whole⟩ := exists_stripFront line
  have nothing : withoutComment (stripFront line) = [] := by
    cases rest : stripFront line with
    | nil => rfl
    | cons c cs =>
      rw [Silent, rest] at silent
      obtain rfl := silent c rfl
      rfl
  have body : stripChars (withoutComment line) = [] := by
    rw [whole, withoutComment_blanks_append blank, nothing, List.append_nil, stripChars_eq_nil_iff]
    exact blank
  unfold readLine
  rw [body]
  rfl

/-- **A line with a bar in front of any number sign** is cut at its first bar. -/
theorem readLine_bar (bar : '|' ∉ front) (number : '#' ∉ front) (back : List Char) :
    readLine n (front ++ '|' :: back) =
      match (words front).mapM byteOf? with
      | none | some [] => .error (.bytes n (String.ofList (stripChars front)))
      | some bytes =>
        if (stripChars back).isEmpty then .error (.noText n)
        else .ok (some { line := n, bytes, text := String.ofList (stripChars back) }) := by
  have whole : withoutComment (front ++ '|' :: back) = front ++ '|' :: back := by
    have plain : ∀ c ∈ front, (c != '#') = true := fun c hc => bne_iff_ne.mpr fun same => number (same ▸ hc)
    unfold withoutComment
    dsimp only
    rw [List.takeWhile_append_of_pos plain]
    exact if_pos (by simp)
  -- blanks at the ends go first; then the bar is the first one, and both sides are stripped again
  have cut : (stripFront front ++ '|' :: stripBack back).span (· != '|') = (stripFront front, '|' :: stripBack back) := by
    have plain : ∀ c ∈ stripFront front, (c != '|') = true := by
      intro c hc
      rw [bne_iff_ne]
      rintro rfl
      exact bar ((List.dropWhile_sublist _).mem hc)
    rw [List.span_eq_takeWhile_dropWhile, List.takeWhile_append_of_pos plain, List.dropWhile_append_of_pos plain]
    simp
  unfold readLine
  rw [whole, stripChars_visible (by decide)]
  dsimp only
  rw [if_neg (by simp), cut]
  dsimp only
  rw [stripChars_stripFront, stripChars_stripBack]
  have read : decodeByteChars (stripChars front) = (words front).mapM byteOf? := by
    rw [decodeByteChars_eq, words_stripChars]
  cases denotes : (words front).mapM byteOf? with
  | none =>
    rw [denotes] at read
    simp only [read]
  | some bytes =>
    rw [denotes] at read
    cases bytes <;> simp only [read]

/-- **A line with an entry** gives the entry, with the number of the line. -/
theorem readLine_of_isEntry {line text : List Char} (h : IsEntry line bytes text) :
    readLine n line = .ok (some { line := n, bytes, text := String.ofList text }) := by
  obtain ⟨denotes, some, visible⟩ := h
  rw [readLine_bar (not_mem_of_bytes denotes rfl rfl) (not_mem_of_bytes denotes rfl rfl), denotes]
  cases bytes with
  | nil => exact absurd rfl some
  | cons => exact if_neg fun none => visible (stripChars_eq_nil_iff.mp (List.isEmpty_iff.mp none))

/-- A line with visible characters in front of any comment. -/
theorem visible_of_not_silent {line : List Char} (visible : ¬ Silent line) :
    ∃ c ∈ line.takeWhile (· != '#'), isBlank c = false := by
  obtain ⟨as, blank, whole⟩ := exists_stripFront line
  cases rest : stripFront line with
  | nil => exact absurd (fun c hc => by rw [rest] at hc; cases hc) visible
  | cons c cs =>
    have first := visible_stripFront rest
    have plain : (c != '#') = true := by
      rw [bne_iff_ne]
      rintro rfl
      refine visible fun d hd => ?_
      rw [rest] at hd
      exact (Option.mem_some.mp hd).symm
    refine ⟨c, ?_, first⟩
    rw [whole, rest, List.takeWhile_append_of_pos (number_of_blank blank),
      List.takeWhile_cons_of_pos (p := (· != '#')) plain]
    exact List.mem_append_right _ List.mem_cons_self

/-- **A wrong line** gives what is wrong with it. -/
theorem readLine_of_isFault {line : List Char} {e : LineError} (h : IsFault n line e) : readLine n line = .error e := by
  cases h with
  | noSeparator visible none =>
    obtain ⟨c, hc, shown⟩ := visible_of_not_silent visible
    -- without a bar, what is in front of the number sign is all of the line
    generalize front : line.takeWhile (· != '#') = cs at none hc
    have cut : withoutComment line = cs := by
      unfold withoutComment
      dsimp only
      rw [front]
      exact if_neg (by simpa using none)
    have some : ¬ (stripChars cs).isEmpty := fun nothing => by
      have blank := stripChars_eq_nil_iff.mp (List.isEmpty_iff.mp nothing) c hc
      rw [shown] at blank
      cases blank
    have bars : ∀ d ∈ stripChars cs, (d != '|') = true := by
      intro d hd
      rw [bne_iff_ne]
      rintro rfl
      obtain ⟨as, bs, -, -, whole⟩ := exists_margins cs
      rw [whole] at none
      exact none (List.mem_append_left _ (List.mem_append_right _ hd))
    have whole : (stripChars cs).span (· != '|') = (stripChars cs, []) := by
      rw [List.span_eq_takeWhile_dropWhile, List.takeWhile_eq_self_iff.mpr bars, List.dropWhile_eq_nil_iff.mpr bars]
    unfold readLine
    rw [cut]
    dsimp only
    rw [if_neg some, whole]
  | @bytes front back bar number none =>
    rw [readLine_bar bar number]
    cases denotes : (words front).mapM byteOf? with
    | none => rfl
    | some bytes =>
      obtain rfl := none bytes denotes
      rfl
  | @noText front back bytes denotes some blank =>
    rw [readLine_bar (not_mem_of_bytes denotes rfl rfl) (not_mem_of_bytes denotes rfl rfl), denotes]
    cases bytes with
    | nil => exact absurd rfl some
    | cons => exact if_pos (List.isEmpty_iff.mpr (stripChars_eq_nil_iff.mpr blank))

/-- **Every line is one of the three.** -/
theorem line_cases (n : Nat) (line : List Char) :
    Silent line ∨ (∃ bytes text, IsEntry line bytes text) ∨ ∃ e, IsFault n line e := by
  by_cases bar : '|' ∈ line.takeWhile (· != '#')
  · -- the first bar separates, and any number sign is behind it
    right
    obtain ⟨front, middle, cut, first⟩ := List.eq_append_cons_of_mem bar
    have number : '#' ∉ front := by
      intro hc
      have plain := List.all_eq_true.mp (List.all_takeWhile (l := line) (p := (· != '#'))) '#'
        (cut ▸ List.mem_append_left _ hc)
      simp at plain
    obtain ⟨back, whole⟩ : ∃ back, line = front ++ '|' :: back :=
      ⟨middle ++ line.dropWhile (· != '#'), by
        rw [← List.cons_append, ← List.append_assoc, ← cut, List.takeWhile_append_dropWhile]⟩
    subst whole
    cases denotes : (words front).mapM byteOf? with
    | none => exact .inr ⟨_, .bytes first number fun bytes some => by rw [denotes] at some; cases some⟩
    | some bytes =>
      by_cases none : bytes = []
      · refine .inr ⟨_, .bytes first number fun bytes' some => ?_⟩
        rw [denotes] at some
        exact Option.some.inj some ▸ none
      · by_cases blank : AllBlank back
        · exact .inr ⟨_, .noText denotes none blank⟩
        · exact .inl ⟨_, _, .intro denotes none blank⟩
  · by_cases silent : Silent line
    · exact .inl silent
    · exact .inr (.inr ⟨_, .noSeparator silent bar⟩)

/-! ## Fixtures -/

/-- **The entries of lines**, counted from `n`, none of which is wrong. -/
inductive Records : Nat → List (List Char) → List Entry → Prop
  | nil {n : Nat} : Records n [] []
  | silent {n : Nat} {line : List Char} {lines : List (List Char)} {entries : List Entry} (silent : Silent line)
    (rest : Records (n + 1) lines entries) : Records n (line :: lines) entries
  | entry {n : Nat} {line text : List Char} {lines : List (List Char)} {bytes : List Byte} {entries : List Entry}
    (entry : IsEntry line bytes text) (rest : Records (n + 1) lines entries) :
    Records n (line :: lines) ({ line := n, bytes, text := String.ofList text } :: entries)

/-- Lines none of which is wrong give their entries. -/
theorem Records.readLines_eq {n : Nat} {lines : List (List Char)} {entries : List Entry} (h : Records n lines entries) :
    readLines n lines = { entries } := by
  induction h with
  | nil => rfl
  | silent silent rest ih => rw [readLines, readLine_of_silent silent, ih]
  | entry entry rest ih => rw [readLines, readLine_of_isEntry entry, ih]

/-- **What is loaded from lines**, counted from `n`: what all of them hold; or what those in front of a wrong one hold, and what
    is wrong with it. -/
def LoadedFrom (n : Nat) (lines : List (List Char)) (loaded : Loaded) : Prop :=
  (Records n lines loaded.entries ∧ loaded.error = none) ∨
    ∃ before line after e, lines = before ++ line :: after ∧ Records n before loaded.entries ∧
      IsFault (n + before.length) line e ∧ loaded.error = some e

/-- A line in front that is not wrong adds what it holds. -/
theorem LoadedFrom.cons {line : List Char} {lines : List (List Char)} {loaded : Loaded}
    (h : LoadedFrom (n + 1) lines loaded) (own : List Entry)
    (adds : ∀ {lines entries}, Records (n + 1) lines entries → Records n (line :: lines) (own ++ entries)) :
    LoadedFrom n (line :: lines) { loaded with entries := own ++ loaded.entries } := by
  rcases h with ⟨records, fine⟩ | ⟨before, bad, after, e, rfl, records, fault, error⟩
  · exact .inl ⟨adds records, fine⟩
  · refine .inr ⟨line :: before, bad, after, e, rfl, adds records, ?_, error⟩
    rwa [List.length_cons, Nat.add_comm before.length, ← Nat.add_assoc]

/-- **Lines are read up to the first wrong one.** -/
theorem readLines_cases (n : Nat) (lines : List (List Char)) : LoadedFrom n lines (readLines n lines) := by
  -- the number goes up with every line, skipped or not
  induction lines generalizing n with
  | nil => exact .inl ⟨.nil, rfl⟩
  | cons line lines ih =>
    rcases line_cases n line with silent | ⟨bytes, text, entry⟩ | ⟨e, fault⟩
    · rw [readLines, readLine_of_silent silent]
      exact (ih (n + 1)).cons [] (.silent silent)
    · rw [readLines, readLine_of_isEntry entry]
      exact (ih (n + 1)).cons [_] (.entry entry)
    · rw [readLines, readLine_of_isFault fault]
      exact .inr ⟨[], line, lines, e, rfl, .nil, fault, rfl⟩

/-- Lines can be stripped before they are read. -/
theorem readLines_map_stripChars (n : Nat) (lines : List (List Char)) :
    readLines n (lines.map stripChars) = readLines n lines := by
  induction lines generalizing n with
  | nil => rfl
  | cons line lines ih =>
    rw [List.map_cons, readLines, readLines, readLine_stripChars, ih]

/-- An empty line at the end does not matter. -/
theorem readLines_append_empty (n : Nat) (lines : List (List Char)) : readLines n (lines ++ [[]]) = readLines n lines := by
  induction lines generalizing n with
  | nil => rfl
  | cons line lines ih =>
    rw [List.cons_append, readLines, readLines, ih]

/-- **The lines of a fixture**: what is between newlines. -/
def lines (contents : String) : List (List Char) := contents.toList.splitOn '\n'

/-- **A fixture is read line by line**, from line one on. -/
theorem loadEntries_eq (contents : String) : loadEntries contents = readLines 1 (lines contents) := by
  have all : ∀ pieces : List (List Char), pieces.filter (fun p => !(false && p.isEmpty)) = pieces := fun pieces =>
    List.filter_eq_self.mpr fun _ _ => rfl
  unfold loadEntries splitChars lines
  rw [all, readLines_map_stripChars]
  rcases splitOn_eq_pieces '\n' contents.toList with same | empty
  · rw [same]
  · rw [empty, readLines_append_empty]

/-! ## Written fixtures -/

/-- **A line as it is written**: some line that says nothing, or an entry with blanks around its bar. -/
inductive Row
  | skipped (line : String)
  | entry (bytes : List Byte) (before after text : String)

/-- The text of a row. -/
def Row.line : Row → String
  | skipped line => line
  | entry bytes before after text => encodeBytes bytes ++ before ++ "|" ++ after ++ text

/-- **Blanks on one line**, around a bar. -/
def Padding (s : String) : Prop := ∀ c ∈ s.toList, isBlank c = true ∧ c ≠ '\n'

/-- The check goes through the characters of the text, not through those that there are. -/
instance (s : String) : Decidable (Padding s) :=
  decidable_of_iff ((s.toList.all fun c => isBlank c && c != '\n') = true) <| by
    simp only [Padding, List.all_eq_true, Bool.and_eq_true, bne_iff_ne]

/-- **Rows that can be written**: each on one line, with visible bytes and a visible text that is stripped. -/
def Row.Writable : Row → Prop
  | skipped line => Silent line.toList ∧ '\n' ∉ line.toList
  | entry bytes before after text =>
    bytes ≠ [] ∧ Padding before ∧ Padding after ∧ text ≠ "" ∧ strip text = text ∧ '\n' ∉ text.toList

instance (row : Row) : Decidable row.Writable :=
  match row with
  | .skipped line => inferInstanceAs (Decidable (Silent line.toList ∧ '\n' ∉ line.toList))
  | .entry bytes before after text =>
    inferInstanceAs (Decidable (bytes ≠ [] ∧ Padding before ∧ Padding after ∧ text ≠ "" ∧ strip text = text ∧
      '\n' ∉ text.toList))

/-- **The entries of rows**, which are counted from `n`. -/
def entriesFrom (n : Nat) : List Row → List Entry
  | [] => []
  | .skipped _ :: rows => entriesFrom (n + 1) rows
  | .entry bytes _ _ text :: rows => { line := n, bytes, text } :: entriesFrom (n + 1) rows

/-- The characters of a written entry. -/
theorem Row.toList_entry (bytes : List Byte) (before after text : String) :
    (Row.entry bytes before after text).line.toList =
      ((encodeBytes bytes).toList ++ before.toList) ++ '|' :: (after.toList ++ text.toList) := by
  simp [Row.line]

/-- A written entry is an entry. -/
theorem Row.Writable.isEntry {before after text : String} (h : (Row.entry bytes before after text).Writable) :
    IsEntry (Row.entry bytes before after text).line.toList bytes text.toList := by
  obtain ⟨some, before_blank, after_blank, visible, stripped, -⟩ := h
  have front : AllBlank before.toList := fun c hc => (before_blank c hc).1
  have back : AllBlank after.toList := fun c hc => (after_blank c hc).1
  have whole : stripChars text.toList = text.toList := String.toList_ofList.symm.trans (congrArg String.toList stripped)
  have behind : stripChars (after.toList ++ text.toList) = text.toList := by
    rw [stripChars_blanks_append back, whole]
  have denotes : (words ((encodeBytes bytes).toList ++ before.toList)).mapM byteOf? = .some bytes := by
    rw [words_append_blanks front, words_encodeBytes, mapM_byteDigits]
  have shown : ¬ AllBlank (after.toList ++ text.toList) := by
    rw [← stripChars_eq_nil_iff, behind]
    exact mt String.toList_eq_nil_iff.mp visible
  have entry := IsEntry.intro denotes some shown
  rw [behind] at entry
  rwa [Row.toList_entry]

/-- There is no newline in written bytes. -/
theorem newline_not_mem_encodeBytes (bytes : List Byte) : '\n' ∉ (encodeBytes bytes).toList := by
  rw [toList_encodeBytes]
  intro hc
  rcases mem_intercalate hc with space | ⟨w, hw, inside⟩
  · exact absurd space (by decide)
  · obtain ⟨b, -, rfl⟩ := List.mem_map.mp hw
    exact absurd ((isWord_byteDigits b).visible _ inside) (by decide)

/-- A row that can be written is one line. -/
theorem Row.Writable.newline_not_mem {row : Row} (h : row.Writable) : '\n' ∉ row.line.toList := by
  cases row with
  | skipped line => exact h.2
  | entry bytes before after text =>
    obtain ⟨-, before_blank, after_blank, -, -, single⟩ := h
    rw [Row.toList_entry]
    intro hc
    rcases List.mem_append.mp hc with front | back
    · rcases List.mem_append.mp front with digits | before
      · exact newline_not_mem_encodeBytes bytes digits
      · exact (before_blank _ before).2 rfl
    · rcases List.mem_append.mp (List.mem_of_ne_of_mem (by decide) back) with after | text
      · exact (after_blank _ after).2 rfl
      · exact single text

/-- Written rows hold their entries. -/
theorem records_rows {rows : List Row} (h : ∀ row ∈ rows, row.Writable) (n : Nat) :
    Records n (rows.map (·.line.toList)) (entriesFrom n rows) := by
  induction rows generalizing n with
  | nil => exact .nil
  | cons row rows ih =>
    have rest := ih (fun row hr => h row (List.mem_cons_of_mem _ hr)) (n + 1)
    have first := h row List.mem_cons_self
    cases row with
    | skipped line => exact .silent first.1 rest
    | entry bytes before after text =>
      have records := Records.entry (n := n) first.isEntry rest
      rwa [String.ofList_toList] at records

/-- The lines of a fixture that is written are the rows. -/
theorem lines_join {rows : List Row} (h : ∀ row ∈ rows, row.Writable) (some : rows ≠ []) :
    lines (join "\n" (rows.map Row.line)) = rows.map (·.line.toList) := by
  have apart : ∀ line ∈ rows.map (·.line.toList), '\n' ∉ line := by
    intro line hl
    obtain ⟨row, hr, rfl⟩ := List.mem_map.mp hl
    exact (h row hr).newline_not_mem
  have written : (join "\n" (rows.map Row.line)).toList = ['\n'].intercalate (rows.map (·.line.toList)) := by
    unfold join
    rw [String.toList_intercalate, List.map_map]
    rfl
  unfold lines
  rw [written, List.splitOn_intercalate '\n' apart (mt List.map_eq_nil_iff.mp some)]

/-- **Rows are read back**, with the numbers of their lines: a fixture is any rows that can be written, in any order. (A
    newline at the end is an empty row.) **An error names the first line** that neither says nothing nor holds an entry, and
    what has been read is what the lines before it hold. -/
theorem loadEntries_lines :
    (∀ rows : List Row, (∀ row ∈ rows, row.Writable) →
      loadEntries (join "\n" (rows.map Row.line)) = { entries := entriesFrom 1 rows, error := none }) ∧
    ∀ contents e, (loadEntries contents).error = some e →
      ∃ before line after, lines contents = before ++ line :: after ∧
        Records 1 before (loadEntries contents).entries ∧
        ¬ Silent line ∧ (∀ bytes text, ¬ IsEntry line bytes text) ∧ IsFault (before.length + 1) line e ∧
        ∃ reason, e.message = "Line " ++ dec (before.length + 1) ++ ": " ++ reason := by
  -- a fixture is read as its lines are, up to the first that is wrong
  refine ⟨fun rows writable => ?_, fun contents e error => ?_⟩
  · cases rows with
    | nil => rfl
    | cons row rows =>
      rw [loadEntries_eq, lines_join writable (List.cons_ne_nil _ _), (records_rows writable 1).readLines_eq]
  · rw [loadEntries_eq] at error ⊢
    rcases readLines_cases 1 (lines contents) with ⟨-, fine⟩ | ⟨before, line, after, e', cut, records, fault, error'⟩
    · rw [fine] at error
      cases error
    · obtain rfl : e' = e := Option.some.inj (error'.symm.trans error)
      rw [Nat.add_comm] at fault
      have read := readLine_of_isFault fault
      refine ⟨before, line, after, cut, records, fun silent => ?_, fun bytes text entry => ?_, fault, ?_⟩
      · rw [readLine_of_silent silent] at read
        cases read
      · rw [readLine_of_isEntry entry] at read
        cases read
      · rw [← fault.line_eq]
        exact e'.message_eq

/-- A fixture with a comment, a number sign and a bar in a text, and no newline at its end; and one whose second line has
    bytes that are none. -/
theorem loadEntries_lines_commented :
    loadEntries "# header | c8\n20 00 00 04 | add z0.b\n \t\nc8 1c|  Add r0 #3 | x" =
        { entries := [⟨2, [0x20, 0, 0, 0x04], "add z0.b"⟩, ⟨4, [0xc8, 0x1c], "Add r0 #3 | x"⟩], error := none } ∧
      (loadEntries "c8 1c | Add\nzz | Cmn").error = some (.bytes 2 "zz") ∧
      ∃ before line after, lines "c8 1c | Add\nzz | Cmn" = before ++ line :: after ∧
        Records 1 before (loadEntries "c8 1c | Add\nzz | Cmn").entries ∧
        ¬ Silent line ∧ (∀ bytes text, ¬ IsEntry line bytes text) ∧ IsFault (before.length + 1) line (.bytes 2 "zz") ∧
        ∃ reason, (LineError.bytes 2 "zz").message = "Line " ++ dec (before.length + 1) ++ ": " ++ reason := by
  have error : (loadEntries "c8 1c | Add\nzz | Cmn").error = some (.bytes 2 "zz") := by cbv
  let rows : List Row := [.skipped "# header | c8", .entry [0x20, 0, 0, 0x04] " " " " "add z0.b", .skipped " \t",
    .entry [0xc8, 0x1c] "" "  " "Add r0 #3 | x"]
  have writable : ∀ row ∈ rows, row.Writable := by decide
  have written : join "\n" (rows.map Row.line) = "# header | c8\n20 00 00 04 | add z0.b\n \t\nc8 1c|  Add r0 #3 | x" := by
    decide
  exact ⟨written ▸ loadEntries_lines.1 rows writable, error, loadEntries_lines.2 _ _ error⟩

end ArmToolkit.Fixture
