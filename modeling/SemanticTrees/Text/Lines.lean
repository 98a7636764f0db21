import SemanticTrees.Text.Blank

/-!
Lines of a text. A line ends at a line feed, and one carriage return in front of the feed belongs
to the ending. What follows the last feed is a line of its own unless it is empty.
-/

namespace SemanticTrees.Text

/-- The pieces between line feeds. There is always one, and the last may be empty. -/
def pieces : List Char → List (List Char)
  | [] => [[]]
  | c :: rest =>
    if c = '\n' then [] :: pieces rest
    else
      match pieces rest with
      | [] => [[c]]
      | first :: more => (c :: first) :: more

/-- A line without one carriage return at its end. -/
def dropReturn (line : List Char) : List Char :=
  if line.getLast? = some '\r' then line.dropLast else line

/-- The lines of a text. -/
def lines (text : List Char) : List (List Char) :=
  let all := pieces text
  all.dropLast.map dropReturn ++ (all.getLast?.toList.filter fun last => !last.isEmpty)

/-- The lines of a rendering, with blank characters at their ends and empty lines at the end of
the text left out. -/
def normalLines (text : List Char) : List (List Char) :=
  (((lines text).map trimEnd).reverse.dropWhile List.isEmpty).reverse

/-- There is always a piece. -/
theorem pieces_ne_nil (text : List Char) : pieces text ≠ [] := by
  cases text with
  | nil => simp [pieces]
  | cons c rest =>
    simp only [pieces]
    split
    · simp
    · split <;> simp

end SemanticTrees.Text
