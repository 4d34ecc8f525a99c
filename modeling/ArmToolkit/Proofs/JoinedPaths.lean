import ArmToolkit.Path
import Mathlib.Data.List.DropRight
import Mathlib.Logic.Relation

/-!
# `Proofs.JoinedPaths` — paths that are joined

## Contents
- **Names.** `names` are the texts between slashes. A path is read as what stands in front of its first slash (`front`) and
  the names behind it (`below`).
- **Tidy paths.** Making every run of slashes one and dropping those at the end leaves these alone, with one slash in front of
  every name (`dropSlashes_collapse`), so that joining two paths puts the names of the second one behind those of the first
  (`combineChars_eq`).
- **Slashes that do not matter.** `Trims` takes away one slash that is repeated or at the end. Paths that are the same up to
  such slashes have the same front and the same names, and no others have (`sameBase_iff`); with slashes in front, the same
  names (`sameNext_iff`).
-/

namespace ArmToolkit.Path

/-! ## Names -/

/-- **The names in a path**: the texts between slashes. -/
def names (cs : List Char) : List (List Char) := (cs.splitOn '/').filter fun n => !n.isEmpty

/-- What stands in front of the first slash. -/
def front (cs : List Char) : List Char := cs.takeWhile (· != '/')

/-- The names from the first slash on. -/
def below (cs : List Char) : List (List Char) := names (cs.dropWhile (· != '/'))

/-- A name is some characters, none of which is a slash. -/
structure IsName (n : List Char) : Prop where
  nonempty : n ≠ []
  whole : '/' ∉ n

/-- **Names do not cross a slash.** -/
theorem names_append (xs ys : List Char) : names (xs ++ '/' :: ys) = names xs ++ names ys := by
  unfold names
  rw [List.splitOn_append_cons_self, List.filter_append]

/-- A slash in front does not matter. -/
theorem names_cons (ys : List Char) : names ('/' :: ys) = names ys := names_append [] ys

/-- Characters without a slash are one name. -/
theorem names_of_isName {n : List Char} (name : IsName n) : names n = [n] := by
  unfold names
  rw [List.splitOn_eq_singleton name.whole]
  simp [name.nonempty]

/-- No slash is left when a text is cut at slashes. -/
theorem not_mem_of_mem_splitOn {cs p : List Char} (mem : p ∈ cs.splitOn '/') : '/' ∉ p := by
  induction cs generalizing p with
  | nil =>
    rw [List.splitOn_nil, List.mem_singleton] at mem
    simp [mem]
  | cons c cs ih =>
    rw [List.splitOn_cons_eq_if_modifyHead] at mem
    -- a slash begins another piece, and any other character belongs to the first one
    split at mem
    · rcases List.mem_cons.mp mem with rfl | mem
      · simp
      · exact ih mem
    · rename_i other
      cases pieces : cs.splitOn '/' with
      | nil => exact absurd pieces (List.splitOn_ne_nil '/' cs)
      | cons q qs =>
        rw [pieces] at ih mem
        rcases List.mem_cons.mp mem with rfl | mem
        · simp only [List.mem_cons, not_or]
          exact ⟨fun same => other (beq_iff_eq.mpr same.symm), ih List.mem_cons_self⟩
        · exact ih (List.mem_cons_of_mem q mem)

theorem isName_of_mem_names {cs n : List Char} (mem : n ∈ names cs) : IsName n := by
  obtain ⟨piece, nonempty⟩ := List.mem_filter.mp mem
  exact ⟨by simpa using nonempty, not_mem_of_mem_splitOn piece⟩

theorem isName_of_mem_below {cs n : List Char} (mem : n ∈ below cs) : IsName n := isName_of_mem_names mem

/-- What is in front of the first slash has none. -/
theorem not_mem_front (cs : List Char) : '/' ∉ front cs := by
  intro mem
  have := List.all_eq_true.mp (List.all_takeWhile (p := (· != '/')) (l := cs)) '/' mem
  simp at this

/-- **A slash that is added** ends what is in front. -/
theorem front_append (xs ys : List Char) : front (xs ++ '/' :: ys) = front xs := by
  unfold front
  induction xs with
  | nil => rfl
  | cons x xs ih => by_cases slash : x = '/' <;> simp [slash, ih]

/-- **What is added behind a slash** is behind the first slash. -/
theorem below_append (xs ys : List Char) : below (xs ++ '/' :: ys) = below xs ++ names ys := by
  unfold below
  induction xs with
  | nil => exact names_cons ys
  | cons x xs ih =>
    by_cases slash : x = '/'
    · subst slash
      exact names_append ('/' :: xs) ys
    · simpa [slash] using ih

/-- A text without slashes is all front. -/
theorem front_of_not_mem {cs : List Char} (whole : '/' ∉ cs) : front cs = cs := by
  unfold front
  rw [List.takeWhile_eq_self_iff]
  intro c mem
  simpa using fun slash : c = '/' => whole (slash ▸ mem)

theorem below_of_not_mem {cs : List Char} (whole : '/' ∉ cs) : below cs = [] := by
  unfold below
  rw [List.dropWhile_eq_nil_iff.mpr]
  · rfl
  · intro c mem
    simpa using fun slash : c = '/' => whole (slash ▸ mem)

/-- **The names of a path** are its front, if it has one, and the names below. -/
theorem names_eq (cs : List Char) : names cs = names (front cs) ++ below cs := by
  by_cases slash : '/' ∈ cs
  · obtain ⟨xs, ys, rfl, whole⟩ := List.eq_append_cons_of_mem slash
    rw [front_append, below_append, front_of_not_mem whole, below_of_not_mem whole, List.nil_append, names_append]
  · rw [front_of_not_mem slash, below_of_not_mem slash, List.append_nil]

/-- A character that is no slash belongs to the front. -/
theorem front_cons {c : Char} (other : c ≠ '/') (cs : List Char) : front (c :: cs) = c :: front cs := by
  simp [front, other]

theorem below_cons {c : Char} (other : c ≠ '/') (cs : List Char) : below (c :: cs) = below cs := by
  simp [below, other]

/-- A path that begins with a slash has no front. -/
theorem front_slash (cs : List Char) : front ('/' :: cs) = [] := rfl

theorem below_slash (cs : List Char) : below ('/' :: cs) = names cs := names_cons cs

/-- The first name of a path that does not begin with a slash. -/
theorem names_cons_of_ne {c : Char} (other : c ≠ '/') (cs : List Char) : names (c :: cs) = (c :: front cs) :: below cs := by
  have name : IsName (c :: front cs) := by
    refine ⟨List.cons_ne_nil _ _, ?_⟩
    simp only [List.mem_cons, not_or]
    exact ⟨Ne.symm other, not_mem_front cs⟩
  rw [names_eq, front_cons other, below_cons other, names_of_isName name, List.singleton_append]

/-! ## Tidy paths -/

/-- **Names with a slash in front of each.** -/
def rooted (ns : List (List Char)) : List Char := ns.flatMap ('/' :: ·)

theorem rooted_append (ms ns : List (List Char)) : rooted (ms ++ ns) = rooted ms ++ rooted ns := List.flatMap_append

/-- **The names of a path below the root** are those that it is put together from. -/
theorem names_rooted {ns : List (List Char)} (h : ∀ n ∈ ns, IsName n) : names (rooted ns) = ns := by
  induction ns with
  | nil => rfl
  | cons n ns ih =>
    have name := h n List.mem_cons_self
    have later := ih fun m mem => h m (List.mem_cons_of_mem n mem)
    have cut : rooted (n :: ns) = '/' :: (n ++ rooted ns) := rfl
    rw [cut, names_cons]
    cases ns with
    | nil => rw [rooted, List.flatMap_nil, List.append_nil, names_of_isName name]
    | cons m ms =>
      have next : rooted (m :: ms) = '/' :: (m ++ rooted ms) := rfl
      rw [next, names_cons] at later
      rw [next, names_append, names_of_isName name, later, List.singleton_append]

section

variable {f : List Char} {ns : List (List Char)}

/-- A path that is put together has the front that it is put together from. -/
theorem front_rooted (whole : '/' ∉ f) : front (f ++ rooted ns) = f := by
  cases ns with
  | nil => rw [rooted, List.flatMap_nil, List.append_nil, front_of_not_mem whole]
  | cons n ns => exact (front_append f (n ++ rooted ns)).trans (front_of_not_mem whole)

/-- A path that is put together has the names that it is put together from. -/
theorem below_rooted (whole : '/' ∉ f) (h : ∀ n ∈ ns, IsName n) : below (f ++ rooted ns) = ns := by
  cases ns with
  | nil => rw [rooted, List.flatMap_nil, List.append_nil, below_of_not_mem whole]
  | cons n ns =>
    have same : below (f ++ rooted (n :: ns)) = below f ++ names (n ++ rooted ns) := below_append f (n ++ rooted ns)
    have cut : rooted (n :: ns) = '/' :: (n ++ rooted ns) := rfl
    rw [same, below_of_not_mem whole, List.nil_append, ← names_cons, ← cut, names_rooted h]

end

/-- **Characters in front of one that is no slash** stay. -/
theorem dropSlashes_append_cons {c : Char} (other : c ≠ '/') (xs ys : List Char) :
    dropSlashes (xs ++ c :: ys) = xs ++ c :: dropSlashes ys := by
  unfold dropSlashes
  rw [List.reverse_append, List.reverse_cons, List.append_assoc, List.dropWhile_append]
  split
  · rename_i none
    rw [List.isEmpty_iff.mp none]
    simp [other]
  · simp

/-- **A text that does not end with a slash** stays. -/
theorem dropSlashes_append {xs : List Char} (last : xs.getLast? ≠ some '/') (ys : List Char) :
    dropSlashes (xs ++ ys) = xs ++ dropSlashes ys := by
  rcases List.eq_nil_or_concat xs with rfl | ⟨zs, c, rfl⟩
  · rfl
  · rw [List.concat_eq_append] at last ⊢
    have other : c ≠ '/' := by simpa using last
    rw [List.append_assoc, List.singleton_append, dropSlashes_append_cons other, List.append_assoc, List.singleton_append]

/-- No slash is left at the end. -/
theorem getLast?_dropSlashes (cs : List Char) : (dropSlashes cs).getLast? ≠ some '/' := by
  intro slash
  have stop := List.head?_dropWhile_not (· == '/') cs.reverse
  unfold dropSlashes at slash
  rw [List.getLast?_reverse] at slash
  rw [slash] at stop
  simp at stop

/-- **What is left of a path** are its front and its names, behind a slash the names alone. -/
theorem dropSlashes_collapse (cs : List Char) :
    dropSlashes ('/' :: collapse true cs) = rooted (names cs) ∧
      dropSlashes (collapse false cs) = front cs ++ rooted (below cs) := by
  -- both together, since behind a slash the text goes on as names and elsewhere as the front
  induction cs with
  | nil => exact ⟨rfl, rfl⟩
  | cons c cs ih =>
    obtain ⟨behind, whole⟩ := ih
    by_cases slash : c = '/'
    · subst slash
      rw [names_cons, front_slash, below_slash]
      exact ⟨behind, behind⟩
    · have after : ∀ b, collapse b (c :: cs) = c :: collapse false cs := fun b => if_neg slash
      have kept := dropSlashes_append_cons slash
      rw [after, after, names_cons_of_ne slash, front_cons slash, below_cons slash]
      constructor
      · refine (kept ['/'] _).trans ?_
        rw [whole]
        rfl
      · refine (kept [] _).trans ?_
        rw [whole]
        rfl

/-- A path without the slashes that do not matter. -/
def tidy (cs : List Char) : List Char := dropSlashes (collapse false cs)

theorem tidy_eq (cs : List Char) : tidy cs = front cs ++ rooted (below cs) := (dropSlashes_collapse cs).2

/-- **Joined paths** have the front of the first one, its names, and behind them the names of the second one. -/
theorem combineChars_eq (a b : List Char) : combineChars a b = front a ++ rooted (below a ++ names b) := by
  have cut : combineChars a b = dropSlashes (tidy a ++ '/' :: collapse true b) := rfl
  have last : (tidy a).getLast? ≠ some '/' := getLast?_dropSlashes _
  rw [cut, dropSlashes_append last, (dropSlashes_collapse b).1, tidy_eq, rooted_append, List.append_assoc]

section

variable (a b : List Char)

/-- The names of joined paths are names. -/
theorem isName_of_joined {n : List Char} (mem : n ∈ below a ++ names b) : IsName n :=
  (List.mem_append.mp mem).elim isName_of_mem_below isName_of_mem_names

theorem front_combineChars : front (combineChars a b) = front a := by
  rw [combineChars_eq, front_rooted (not_mem_front a)]

theorem below_combineChars : below (combineChars a b) = below a ++ names b := by
  rw [combineChars_eq, below_rooted (not_mem_front a) fun _ => isName_of_joined a b]

/-- **The names of joined paths** are those of both. -/
theorem names_combineChars : names (combineChars a b) = names a ++ names b := by
  rw [names_eq, front_combineChars, below_combineChars, ← List.append_assoc, ← names_eq]

/-- **Joining is associative.** -/
theorem combineChars_assoc (c : List Char) :
    combineChars (combineChars a b) c = combineChars a (combineChars b c) := by
  rw [combineChars_eq, combineChars_eq a (combineChars b c), front_combineChars, below_combineChars, names_combineChars,
    List.append_assoc]

/-- Joined paths are the same exactly if their fronts and their names are. -/
theorem combineChars_eq_iff {a b a' b' : List Char} :
    combineChars a b = combineChars a' b' ↔ front a = front a' ∧ below a ++ names b = below a' ++ names b' := by
  constructor
  · intro same
    refine ⟨?_, ?_⟩
    · rw [← front_combineChars a b, same, front_combineChars]
    · rw [← below_combineChars, same, below_combineChars]
  · rintro ⟨fronts, rest⟩
    rw [combineChars_eq, combineChars_eq, fronts, rest]

/-- A joined path is left as it is. -/
theorem tidy_combineChars : tidy (combineChars a b) = combineChars a b := by
  rw [tidy_eq, front_combineChars, below_combineChars, ← combineChars_eq]

end

/-! ## Slashes that do not matter -/

/-- **One slash less**: of two in a row, or at the end. -/
inductive Trims : List Char → List Char → Prop
  | repeated (xs ys : List Char) : Trims (xs ++ '/' :: '/' :: ys) (xs ++ '/' :: ys)
  | trailing (xs : List Char) : Trims (xs ++ ['/']) xs

/-- **Texts that are the same up to slashes** that are repeated or at the end. -/
def SameBase : List Char → List Char → Prop := Relation.EqvGen Trims

/-- **Texts that are the same up to slashes** that are repeated, at the end or in front. -/
def SameNext : List Char → List Char → Prop := Relation.EqvGen fun cs ds => Trims cs ds ∨ cs = '/' :: ds

section

variable {cs ds : List Char}

/-- Taking such a slash away keeps the front and the names. -/
theorem Trims.same (h : Trims cs ds) : front cs = front ds ∧ below cs = below ds := by
  cases h with
  | repeated xs ys => simp only [front_append, below_append, names_cons, and_self]
  | trailing xs =>
    rw [front_append, below_append]
    exact ⟨rfl, List.append_nil _⟩

theorem Trims.length_lt (h : Trims cs ds) : ds.length < cs.length := by
  cases h <;> simp

theorem length_collapse_le (after : Bool) (cs : List Char) : (collapse after cs).length ≤ cs.length := by
  induction cs generalizing after with
  | nil => exact Nat.le_refl _
  | cons c cs ih =>
    unfold collapse
    split
    · split
      · exact Nat.le_succ_of_le (ih true)
      · exact Nat.succ_le_succ (ih true)
    · exact Nat.succ_le_succ (ih false)

theorem length_tidy_le (cs : List Char) : (tidy cs).length ≤ cs.length := by
  refine Nat.le_trans ?_ (length_collapse_le false cs)
  unfold tidy dropSlashes
  rw [List.length_reverse]
  refine Nat.le_trans (List.dropWhile_sublist _).length_le ?_
  rw [List.length_reverse]

/-- **A path that is left as it is** has no slash that could be taken away. -/
theorem Trims.tidy_ne (h : Trims cs ds) : tidy cs ≠ cs := by
  intro same
  obtain ⟨fronts, rest⟩ := h.same
  have short : (tidy cs).length ≤ ds.length := by
    rw [tidy_eq, fronts, rest, ← tidy_eq]
    exact length_tidy_le ds
  rw [same] at short
  exact absurd h.length_lt (Nat.not_lt.mpr short)

/-- Making runs of slashes one does not matter. -/
theorem sameBase_collapse (xs cs : List Char) (after : Bool) (slash : after = true → ∃ ys, xs = ys ++ ['/']) :
    SameBase (xs ++ cs) (xs ++ collapse after cs) := by
  induction cs generalizing xs after with
  | nil => exact .refl _
  | cons c cs ih =>
    -- `xs` is what stands in front, and ends with a slash where the next one would be repeated
    have step : ∀ b, (b = true → c = '/') → SameBase (xs ++ c :: cs) (xs ++ c :: collapse b cs) := by
      intro b ends
      have later := ih (xs ++ [c]) b fun on => ⟨xs, by rw [ends on]⟩
      simpa using later
    unfold collapse
    split
    · rename_i same
      subst same
      split
      · rename_i on
        obtain ⟨ys, rfl⟩ := slash on
        have once : Trims (ys ++ '/' :: '/' :: cs) (ys ++ '/' :: cs) := .repeated ys cs
        have later := ih (ys ++ ['/']) true fun _ => ⟨ys, rfl⟩
        refine .trans _ _ _ (.rel _ _ ?_) later
        simpa using once
      · exact step true fun _ => rfl
    · exact step false fun on => by cases on

/-- Dropping slashes at the end does not matter. -/
theorem sameBase_dropSlashes (cs : List Char) : SameBase cs (dropSlashes cs) := by
  -- from the end, where the slashes are
  induction cs using List.reverseRecOn with
  | nil => exact .refl _
  | append_singleton cs c ih =>
    by_cases slash : c = '/'
    · subst slash
      have same : dropSlashes (cs ++ ['/']) = dropSlashes cs := by simp [dropSlashes]
      rw [same]
      exact .trans _ _ _ (.rel _ _ (.trailing cs)) ih
    · rw [dropSlashes_append_cons slash]
      exact .refl _

/-- **A path is the same as what is left of it.** -/
theorem sameBase_tidy (cs : List Char) : SameBase cs (tidy cs) :=
  .trans _ _ _ (sameBase_collapse [] cs false fun on => by cases on) (sameBase_dropSlashes _)

theorem SameBase.next (h : SameBase cs ds) : SameNext cs ds := by
  have more : Trims ≤ fun cs ds => Trims cs ds ∨ cs = '/' :: ds := fun _ _ once => Or.inl once
  exact Relation.EqvGen.mono more _ _ h

/-- Behind a slash it is the same as its names. -/
theorem sameNext_rooted (cs : List Char) : SameNext cs (rooted (names cs)) := by
  have leading : SameNext cs ('/' :: cs) := .symm _ _ (.rel _ _ (.inr rfl))
  have collapsed : SameBase ('/' :: cs) ('/' :: collapse true cs) := sameBase_collapse ['/'] cs true fun _ => ⟨[], rfl⟩
  have dropped := sameBase_dropSlashes ('/' :: collapse true cs)
  rw [(dropSlashes_collapse cs).1] at dropped
  exact .trans _ _ _ leading (SameBase.next (.trans _ _ _ collapsed dropped))

/-- **Paths are the same up to slashes that are repeated or at the end** exactly if their fronts and their names are. -/
theorem sameBase_iff : SameBase cs ds ↔ front cs = front ds ∧ below cs = below ds := by
  constructor
  · intro h
    induction h with
    | rel _ _ once => exact once.same
    | refl => exact ⟨rfl, rfl⟩
    | symm _ _ _ ih => exact ⟨ih.1.symm, ih.2.symm⟩
    | trans _ _ _ _ _ ih ih' => exact ⟨ih.1.trans ih'.1, ih.2.trans ih'.2⟩
  · rintro ⟨fronts, rest⟩
    have same : tidy cs = tidy ds := by rw [tidy_eq, tidy_eq, fronts, rest]
    exact .trans _ _ _ (sameBase_tidy cs) (same ▸ .symm _ _ (sameBase_tidy ds))

/-- **Texts are the same up to slashes in front as well** exactly if their names are. -/
theorem sameNext_iff : SameNext cs ds ↔ names cs = names ds := by
  constructor
  · intro h
    induction h with
    | rel _ _ once =>
      rcases once with once | rfl
      · obtain ⟨fronts, rest⟩ := once.same
        rw [names_eq, fronts, rest, ← names_eq]
      · exact names_cons _
    | refl => rfl
    | symm _ _ _ ih => exact ih.symm
    | trans _ _ _ _ _ ih ih' => exact ih.trans ih'
  · intro same
    exact .trans _ _ _ (sameNext_rooted cs) (same ▸ .symm _ _ (sameNext_rooted ds))

end

/-! ## Joining -/

theorem toList_combine (a b : String) : (combine a b).toList = combineChars a.toList b.toList := String.toList_ofList

theorem combine_inj {a b a' b' : String} :
    combine a b = combine a' b' ↔ combineChars a.toList b.toList = combineChars a'.toList b'.toList := by
  rw [← toList_combine, ← toList_combine, String.toList_inj]

/-- **Joining paths.** It is associative. The joined path has no two slashes in a row and none at its end. Slashes that are
    repeated or at the end do not matter, and neither do those in front of the second path; but nothing else may change. -/
theorem combine_slashes (a b c : String) :
    combine (combine a b) c = combine a (combine b c) ∧
      ¬ ['/', '/'] <:+: (combine a b).toList ∧ (combine a b).toList.getLast? ≠ some '/' ∧
      (∀ a', combine a b = combine a' b ↔ SameBase a.toList a'.toList) ∧
      ∀ b', combine a b = combine a b' ↔ SameNext b.toList b'.toList := by
  have tidied : tidy (combine a b).toList = (combine a b).toList := by
    rw [toList_combine, tidy_combineChars]
  refine ⟨?_, ?_, ?_, ?_, ?_⟩
  · rw [combine_inj, toList_combine, toList_combine]
    exact combineChars_assoc _ _ _
  · rintro ⟨xs, ys, cut⟩
    have once : Trims (combine a b).toList (xs ++ '/' :: ys) := by
      rw [← cut]
      simpa using Trims.repeated xs ys
    exact once.tidy_ne tidied
  · rw [← tidied]
    exact getLast?_dropSlashes _
  · intro a'
    rw [combine_inj, combineChars_eq_iff, sameBase_iff, List.append_cancel_right_eq]
  · intro b'
    rw [combine_inj, combineChars_eq_iff, sameNext_iff, List.append_cancel_left_eq]
    exact and_iff_right rfl

end ArmToolkit.Path
