import Mathlib.Logic.Relation
import SemanticTrees.Proofs.Text.Lines
import SemanticTrees.Text.Difference

/-! Differences of texts. A difference is the first place where the normal forms of the texts differ,
so nothing that leaves the normal forms alone can hide it, move it or bring it about. -/
namespace SemanticTrees.Text

/-! ### First differences -/

/-- The least number of a line where two normal forms differ, with what they have there; a normal
form has nothing behind its end. -/
structure Difference.IsFirst (d : Difference) (expected actual : List (List Char)) : Prop where
  counted : 1 ≤ d.line
  same : ∀ n, n + 1 < d.line → expected[n]? = actual[n]?
  differ : expected[d.line - 1]? ≠ actual[d.line - 1]?
  expected : d.expected = expected[d.line - 1]?
  actual : d.actual = actual[d.line - 1]?

variable {expected actual : List (List Char)} {d e : Difference} {line : Nat}

/-- Two first differences are the same one. -/
theorem Difference.IsFirst.unique (first : d.IsFirst expected actual)
    (first' : e.IsFirst expected actual) : d = e := by
  have counted := first.counted
  have counted' := first'.counted
  have place : d.line = e.line := by
    obtain less | same | greater := Nat.lt_trichotomy d.line e.line
    · exact absurd (first'.same (d.line - 1) (by omega)) first.differ
    · exact same
    · exact absurd (first.same (e.line - 1) (by omega)) first'.differ
  have expected := first.expected.trans (place ▸ first'.expected.symm)
  have actual := first.actual.trans (place ▸ first'.actual.symm)
  cases d
  cases e
  rw [mk.injEq]
  exact ⟨place, expected, actual⟩

/-- A search that counts from a number finds what a search from one finds, further down by as much
as the number is greater. -/
theorem firstDifference_isFirst (found : firstDifference line expected actual = some d) :
    ∃ n, d.line = line + n ∧ (∀ m < n, expected[m]? = actual[m]?) ∧ expected[n]? ≠ actual[n]? ∧
      d.expected = expected[n]? ∧ d.actual = actual[n]? := by
  fun_induction firstDifference line expected actual with
  | case1 => contradiction
  | case2 line e rest =>
    obtain rfl := Option.some.inj found
    exact ⟨0, rfl, by simp, by simp, rfl, rfl⟩
  | case3 line a rest =>
    obtain rfl := Option.some.inj found
    exact ⟨0, rfl, by simp, by simp, rfl, rfl⟩
  | case4 line same expected actual ih =>
    obtain ⟨n, place, before, here⟩ := ih found
    refine ⟨n + 1, by omega, ?_, by simpa using here⟩
    intro m less
    cases m with
    | zero => rfl
    | succ m => simpa using before m (by omega)
  | case5 line e expected a actual differ =>
    obtain rfl := Option.some.inj found
    exact ⟨0, rfl, by simp, by simpa using differ, rfl, rfl⟩

theorem firstDifference_eq_some_iff :
    firstDifference 1 expected actual = some d ↔ d.IsFirst expected actual := by
  have isFirst {d : Difference} (found : firstDifference 1 expected actual = some d) :
      d.IsFirst expected actual := by
    obtain ⟨n, place, before, differ, here, here'⟩ := firstDifference_isFirst found
    obtain rfl : n = d.line - 1 := by omega
    exact ⟨by omega, fun m less => before m (by omega), differ, here, here'⟩
  constructor
  · exact isFirst
  · intro first
    cases found : firstDifference 1 expected actual with
    | none =>
      obtain rfl := (firstDifference_eq_none_iff 1 expected actual).mp found
      exact absurd rfl first.differ
    | some e => rw [(isFirst found).unique first]

/-! ### What does not count -/

variable {text text' before after rest blanks : List Char}

/-- What may follow at the end of a line: nothing, or a line end of either style. -/
inductive EndsLine : List Char → Prop
  | nothing : EndsLine []
  | feed (rest : List Char) : EndsLine ('\n' :: rest)
  | returnFeed (rest : List Char) : EndsLine ('\r' :: '\n' :: rest)

/-- A change of a text that nobody sees: blanks at the end of a line, another style of one line end,
or blank lines at the end of the text. -/
inductive Restyles : List Char → List Char → Prop
  | blanks (before blanks : List Char) {after : List Char} (blank : ∀ c ∈ blanks, isBlank c = true)
      (inside : '\n' ∉ blanks) (ends : EndsLine after) :
      Restyles (before ++ after) (before ++ blanks ++ after)
  | lineEnd (before after : List Char) :
      Restyles (before ++ '\n' :: after) (before ++ '\r' :: '\n' :: after)
  | blankLines (text added : List Char) (blank : ∀ c ∈ added, isBlank c = true) :
      Restyles text (text ++ '\n' :: added)

/-- Any number of such changes, made or undone. -/
def Restyled : List Char → List Char → Prop := Relation.EqvGen Restyles

/-- The pieces of a text without the blanks at their ends. -/
def tidyPieces (text : List Char) : List (List Char) := (pieces text).map trimEnd

theorem tidyPieces_feed (before after : List Char) :
    tidyPieces (before ++ '\n' :: after) = tidyPieces before ++ tidyPieces after := by
  rw [tidyPieces, pieces_feed, List.map_append]
  rfl

theorem tidyPieces_append (blank : ∀ c ∈ blanks, isBlank c = true) (inside : '\n' ∉ blanks) :
    tidyPieces (before ++ blanks) = tidyPieces before := by
  have last {line : List Char} (bare : '\n' ∉ line) :
      tidyPieces (line ++ blanks) = tidyPieces line := by
    have both : '\n' ∉ line ++ blanks := by simp [bare, inside]
    simp only [tidyPieces, pieces_of_not_mem both, pieces_of_not_mem bare, List.map_cons,
      List.map_nil, trimEnd_append blank]
  obtain bare | ⟨before, line, rfl, bare⟩ := exists_last_line before
  · exact last bare
  · rw [List.append_assoc, List.cons_append, tidyPieces_feed, tidyPieces_feed, last bare]

/-- Blank lines have nothing but empty pieces. -/
theorem tidyPieces_blank (blank : ∀ c ∈ text, isBlank c = true) :
    ∀ line ∈ tidyPieces text, line.isEmpty = true := by
  intro tidied member
  obtain ⟨line, listed, rfl⟩ := List.mem_map.mp member
  rw [trimEnd_eq_nil fun c inside => blank c (mem_of_mem_pieces listed inside)]
  rfl

theorem Restyles.normalLines_eq (restyles : Restyles text text') :
    normalLines text' = normalLines text := by
  have return_blank : ∀ c ∈ ['\r'], isBlank c = true := List.forall_mem_singleton.mpr (by decide)
  have return_inside : '\n' ∉ ['\r'] := by decide
  -- a carriage return in front of a line feed is one more blank
  have join (before after : List Char) :
      before ++ '\r' :: '\n' :: after = before ++ ['\r'] ++ '\n' :: after := by simp
  rw [Text.normalLines_eq, Text.normalLines_eq]
  change (tidyPieces text').rdropWhile _ = (tidyPieces text).rdropWhile _
  cases restyles with
  | blanks before blanks blank inside ends =>
    cases ends with
    | nothing => rw [List.append_nil, List.append_nil, tidyPieces_append blank inside]
    | feed rest => rw [tidyPieces_feed, tidyPieces_feed, tidyPieces_append blank inside]
    | returnFeed rest =>
      rw [join, join, tidyPieces_feed, tidyPieces_feed, tidyPieces_append return_blank return_inside,
        tidyPieces_append return_blank return_inside, tidyPieces_append blank inside]
  | lineEnd before after =>
    rw [join, tidyPieces_feed, tidyPieces_feed, tidyPieces_append return_blank return_inside]
  | blankLines _ added blank =>
    rw [tidyPieces_feed]
    exact rdropWhile_append (tidyPieces_blank blank)

theorem Restyled.normalLines_eq (restyled : Restyled text text') :
    normalLines text' = normalLines text := by
  induction restyled with
  | rel _ _ restyles => exact restyles.normalLines_eq
  | refl _ => rfl
  | symm _ _ _ ih => exact ih.symm
  | trans _ _ _ _ _ first second => exact second.trans first

/-- Two texts have a normal form each. They have no difference exactly when their normal forms are
the same, the difference they have is the first one of their normal forms, and it stays the same
whatever is done to the ends of their lines and of the texts. -/
theorem difference_of_normalForms (expected actual : String) :
    ∃ e a, (∀ ls, IsNormalForm expected.toList ls ↔ ls = e) ∧
      (∀ ls, IsNormalForm actual.toList ls ↔ ls = a) ∧
      (difference expected actual = none ↔ e = a) ∧
      (∀ d, difference expected actual = some d ↔ d.IsFirst e a) ∧
      ∀ expected' actual' : String, Restyled expected.toList expected'.toList →
        Restyled actual.toList actual'.toList →
          difference expected' actual' = difference expected actual := by
  refine ⟨normalLines expected.toList, normalLines actual.toList, fun _ => isNormalForm_iff,
    fun _ => isNormalForm_iff, firstDifference_eq_none_iff 1 _ _,
    fun _ => firstDifference_eq_some_iff, ?_⟩
  intro expected' actual' restyled restyled'
  simp only [difference, restyled.normalLines_eq, restyled'.normalLines_eq]

/-- A difference in the second line stays there when the first text gets a line end of the other
style, a blank and a blank line, and the second one a blank in its first line. -/
theorem restyled_difference :
    Restyled "a\nb".toList "a\r\nb \n\n".toList ∧ Restyled "a\nc".toList "a \nc".toList ∧
      difference "a\r\nb \n\n" "a \nc" = difference "a\nb" "a\nc" ∧
      difference "a\nb" "a\nc" = some ⟨2, some ['b'], some ['c']⟩ := by
  have blank : ∀ c ∈ [' '], isBlank c = true := List.forall_mem_singleton.mpr (by decide)
  have ended : Restyles "a\nb".toList "a\r\nb".toList := .lineEnd ['a'] ['b']
  have spaced : Restyles "a\r\nb".toList "a\r\nb ".toList :=
    .blanks "a\r\nb".toList [' '] blank (by decide) .nothing
  have longer : Restyles "a\r\nb ".toList "a\r\nb \n\n".toList :=
    .blankLines "a\r\nb ".toList ['\n'] (List.forall_mem_singleton.mpr (by decide))
  have first : Restyled "a\nb".toList "a\r\nb \n\n".toList :=
    .trans _ _ _ (.rel _ _ ended) (.trans _ _ _ (.rel _ _ spaced) (.rel _ _ longer))
  have second : Restyled "a\nc".toList "a \nc".toList :=
    .rel _ _ (.blanks ['a'] [' '] blank (by decide) (.feed ['c']))
  obtain ⟨_, _, _, _, _, _, restyled⟩ := difference_of_normalForms "a\nb" "a\nc"
  exact ⟨first, second, restyled _ _ first second, by decide⟩

end SemanticTrees.Text
