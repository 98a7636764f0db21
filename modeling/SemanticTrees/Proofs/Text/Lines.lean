import Mathlib.Data.List.DropRight
import Mathlib.Data.List.Forall2
import SemanticTrees.Text.Lines

/-! Lines of a text. Cutting the text at its line ends gives its lines and nothing else does; the
normal form of a text consists of its lines without the blanks at their ends, and without the empty
lines at the end of the text. -/
namespace SemanticTrees.Text

/-! ### Trimming -/

section Trimming

variable {α : Type} {passes : α → Bool} {whole trimmed tail : List α}

/-- A list without the elements at its end that pass a test: only such elements are left out, and
the last one that stays is none of them. -/
structure IsTrimmed (passes : α → Bool) (whole trimmed : List α) : Prop where
  cut : ∃ tail, whole = trimmed ++ tail ∧ ∀ x ∈ tail, passes x = true
  last : ∀ x, trimmed.getLast? = some x → passes x = false

theorem rdropWhile_append (all : ∀ x ∈ tail, passes x = true) :
    (whole ++ tail).rdropWhile passes = whole.rdropWhile passes := by
  rw [List.rdropWhile, List.reverse_append, List.dropWhile_append_of_pos (by simpa using all)]
  rfl

/-- Leaving out elements from the end one by one trims a list, and there is no other way. -/
theorem isTrimmed_iff : IsTrimmed passes whole trimmed ↔ trimmed = whole.rdropWhile passes := by
  constructor
  · rintro ⟨⟨tail, rfl, all⟩, last⟩
    rw [rdropWhile_append all, eq_comm, List.rdropWhile_eq_self_iff]
    intro some
    simp [last _ (List.getLast?_eq_some_getLast some)]
  · rintro rfl
    refine ⟨⟨whole.rtakeWhile passes, List.rdropWhile_append_rtakeWhile.symm, ?_⟩, ?_⟩
    · exact fun x member => List.mem_rtakeWhile_imp member
    · intro x final
      have some : whole.rdropWhile passes ≠ [] := by
        intro none
        simp [none] at final
      rw [List.getLast?_eq_some_getLast some] at final
      obtain rfl := Option.some.inj final
      exact Bool.not_eq_true _ ▸ List.rdropWhile_last_not passes whole some

end Trimming

variable {text line before after rest blanks : List Char} {ls normal : List (List Char)}

theorem trimEnd_append (blank : ∀ c ∈ blanks, isBlank c = true) :
    trimEnd (line ++ blanks) = trimEnd line :=
  rdropWhile_append blank

theorem trimEnd_eq_nil (blank : ∀ c ∈ blanks, isBlank c = true) : trimEnd blanks = [] :=
  List.rdropWhile_eq_nil_iff.mpr blank

theorem trimEnd_dropReturn (line : List Char) : trimEnd (dropReturn line) = trimEnd line := by
  unfold dropReturn
  split
  · next final =>
    obtain ⟨init, rfl⟩ := List.getLast?_eq_some_iff.mp final
    rw [List.dropLast_concat, trimEnd_append (List.forall_mem_singleton.mpr (by decide))]
  · rfl

/-! ### Pieces -/

theorem pieces_of_not_mem (inside : '\n' ∉ line) : pieces line = [line] := by
  induction line with
  | nil => rfl
  | cons c rest ih =>
    obtain ⟨other, inside⟩ := List.ne_and_not_mem_of_not_mem_cons inside
    simp only [pieces, if_neg (Ne.symm other), ih inside]

/-- A line feed parts a text, wherever it stands. -/
theorem pieces_feed (before after : List Char) :
    pieces (before ++ '\n' :: after) = pieces before ++ pieces after := by
  induction before with
  | nil => simp [pieces]
  | cons c rest ih =>
    rw [List.cons_append, pieces, pieces, ih]
    split
    · rfl
    · cases found : pieces rest with
      | nil => exact absurd found (pieces_ne_nil rest)
      | cons first more => rfl

theorem mem_of_mem_pieces {c : Char} (listed : line ∈ pieces text) (inside : c ∈ line) :
    c ∈ text := by
  induction text generalizing line with
  | nil =>
    obtain rfl := List.mem_singleton.mp listed
    exact inside
  | cons d rest ih =>
    rw [pieces] at listed
    split at listed
    · obtain rfl | later := List.mem_cons.mp listed
      · contradiction
      · exact .tail _ (ih later inside)
    · cases found : pieces rest with
      | nil => exact absurd found (pieces_ne_nil rest)
      | cons first more =>
        rw [found] at listed ih
        obtain rfl | later := List.mem_cons.mp listed
        · obtain rfl | inside := List.mem_cons.mp inside
          · exact List.mem_cons_self
          · exact .tail _ (ih List.mem_cons_self inside)
        · exact .tail _ (ih (.tail _ later) inside)

/-- What stands behind the last line feed. -/
theorem exists_last_line (text : List Char) :
    '\n' ∉ text ∨ ∃ before line, text = before ++ '\n' :: line ∧ '\n' ∉ line := by
  by_cases member : '\n' ∈ text.reverse
  · obtain ⟨line, before, reversed, inside⟩ := List.eq_append_cons_of_mem member
    refine .inr ⟨before.reverse, line.reverse, ?_, by simpa using inside⟩
    simpa using congrArg List.reverse reversed
  · exact .inl (by simpa using member)

/-! ### Lines -/

theorem lines_of_not_mem (inside : '\n' ∉ line) :
    lines line = if line = [] then [] else [line] := by
  simp only [lines, pieces_of_not_mem inside]
  cases line <;> rfl

theorem lines_feed (inside : '\n' ∉ line) :
    lines (line ++ '\n' :: rest) = dropReturn line :: lines rest := by
  have some := pieces_ne_nil rest
  have whole : pieces (line ++ '\n' :: rest) = line :: pieces rest := by
    rw [pieces_feed, pieces_of_not_mem inside, List.singleton_append]
  simp only [lines, whole, List.dropLast_cons_of_ne_nil some, List.getLast?_cons_of_ne_nil some,
    List.map_cons, List.cons_append]

/-- The lines that a text consists of. A line ends with a line feed, or with a carriage return and
a line feed; the last one may also end with the text, if there is anything of it. -/
inductive Splits : List Char → List (List Char) → Prop
  | nothing : Splits [] []
  | unended {line : List Char} (some : line ≠ []) (inside : '\n' ∉ line) : Splits line [line]
  | feed {line rest : List Char} {ls : List (List Char)} (inside : '\n' ∉ line)
      (bare : line.getLast? ≠ some '\r') (others : Splits rest ls) :
      Splits (line ++ '\n' :: rest) (line :: ls)
  | returnFeed {line rest : List Char} {ls : List (List Char)} (inside : '\n' ∉ line)
      (others : Splits rest ls) : Splits (line ++ '\r' :: '\n' :: rest) (line :: ls)

theorem Splits.eq_lines (splits : Splits text ls) : ls = lines text := by
  induction splits with
  | nothing => rfl
  | unended some inside => rw [lines_of_not_mem inside, if_neg some]
  | feed inside bare _ ih => rw [lines_feed inside, dropReturn, if_neg bare, ih]
  | @returnFeed line rest ls inside _ ih =>
    have whole : line ++ '\r' :: '\n' :: rest = (line ++ ['\r']) ++ '\n' :: rest := by simp
    rw [whole, lines_feed (by simpa using inside), dropReturn, if_pos (by simp),
      List.dropLast_concat, ih]

theorem splits_lines (text : List Char) : Splits text (lines text) := by
  by_cases member : '\n' ∈ text
  · obtain ⟨line, rest, rfl, inside⟩ := List.eq_append_cons_of_mem member
    have others := splits_lines rest
    rw [lines_feed inside, dropReturn]
    split
    · next final =>
      obtain ⟨init, rfl⟩ := List.getLast?_eq_some_iff.mp final
      rw [List.dropLast_concat, List.append_assoc]
      exact .returnFeed (fun member => inside (List.mem_append_left _ member)) others
    · next bare => exact .feed inside bare others
  · rw [lines_of_not_mem member]
    split
    · next none => exact none ▸ .nothing
    · next some => exact .unended some member
termination_by text.length
decreasing_by
  subst text
  simp only [List.length_append, List.length_cons]
  omega

/-! ### Normal forms -/

/-- The normal form of a text: its lines, trimmed at their ends, and the list of them trimmed of the
empty lines at its end. -/
def IsNormalForm (text : List Char) (normal : List (List Char)) : Prop :=
  ∃ ls tidy, Splits text ls ∧ List.Forall₂ (IsTrimmed isBlank) ls tidy ∧
    IsTrimmed List.isEmpty tidy normal

theorem isNormalForm_iff : IsNormalForm text normal ↔ normal = normalLines text := by
  have trims {ls tidy : List (List Char)} :
      List.Forall₂ (IsTrimmed isBlank) ls tidy ↔ tidy = ls.map trimEnd := by
    have same : IsTrimmed isBlank = fun line tidied => trimEnd line = tidied := by
      funext line tidied
      exact propext (isTrimmed_iff.trans eq_comm)
    rw [same, ← List.forall₂_map_left_iff, List.forall₂_eq_eq_eq, eq_comm]
  constructor
  · rintro ⟨ls, tidy, splits, trimmed, cut⟩
    obtain rfl := splits.eq_lines
    obtain rfl := trims.mp trimmed
    exact isTrimmed_iff.mp cut
  · rintro rfl
    exact ⟨_, _, splits_lines text, trims.mpr rfl, isTrimmed_iff.mpr rfl⟩

/-- A carriage return at the end of a line is blank and the end of the text ends no line, so the
pieces between line feeds can be trimmed in place of the lines. -/
theorem normalLines_eq (text : List Char) :
    normalLines text = ((pieces text).map trimEnd).rdropWhile List.isEmpty := by
  obtain ⟨init, last, parted⟩ := List.eq_nil_or_concat' (pieces text) |>.resolve_left
    (pieces_ne_nil text)
  have tidied : (init.map dropReturn).map trimEnd = init.map trimEnd := by
    simp [Function.comp_def, trimEnd_dropReturn]
  have all : lines text = init.map dropReturn ++ [last].filter fun last => !last.isEmpty := by
    simp only [lines, parted, List.dropLast_concat, List.getLast?_concat, Option.toList_some]
  change ((lines text).map trimEnd).rdropWhile List.isEmpty = _
  rw [all, parted, List.map_append, List.map_append, tidied]
  cases last with
  | nil =>
    refine (congrArg _ (List.append_nil _)).trans (rdropWhile_append ?_).symm
    simp [trimEnd_eq_nil]
  | cons c rest => rfl

end SemanticTrees.Text
