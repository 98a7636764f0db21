import SemanticTrees.Text.Lines

/-!
The first difference of two renderings. Renderings are compared by their normal lines, so blank
characters at the ends of lines, the style of line endings and blank lines at the end of a text
never count.
-/

namespace SemanticTrees.Text

/-- A place where two renderings differ. -/
structure Difference where
  /-- The number of the line, counted from one. -/
  line : Nat
  /-- The expected line, unless the expected text ends before it. -/
  expected : Option (List Char)
  /-- The actual line, unless the actual text ends before it. -/
  actual : Option (List Char)
deriving DecidableEq, Repr

/-- The first place where two lists of lines differ, the first line having the given number. -/
def firstDifference (line : Nat) : List (List Char) → List (List Char) → Option Difference
  | [], [] => none
  | e :: _, [] => some ⟨line, some e, none⟩
  | [], a :: _ => some ⟨line, none, some a⟩
  | e :: expected, a :: actual =>
    if e = a then firstDifference (line + 1) expected actual
    else some ⟨line, some e, some a⟩

/-- The first difference of two renderings, if their normal lines differ. -/
def difference (expected actual : String) : Option Difference :=
  firstDifference 1 (normalLines expected.toList) (normalLines actual.toList)

/-- A line as a report shows it. -/
def Difference.shown (line : Option (List Char)) : String :=
  match line with
  | some line => String.ofList line
  | none => "<end of text>"

/-- The report of a difference, in three lines. -/
def Difference.message (d : Difference) : String :=
  s!"renderings differ at line {d.line}\n  expected: {Difference.shown d.expected}\n" ++
    s!"  actual:   {Difference.shown d.actual}"

/-- Equal lines have no difference, and lines without a difference are equal. -/
theorem firstDifference_eq_none_iff (line : Nat) (expected actual : List (List Char)) :
    firstDifference line expected actual = none ↔ expected = actual := by
  fun_induction firstDifference line expected actual <;> simp_all

end SemanticTrees.Text
