import SemanticTrees.Text.Blank

/-!
Formats of log output, chosen by a word in any case; an unknown word chooses plain text.
-/

namespace SemanticTrees

/-- A format of log output. -/
inductive LogFormat
  | text
  | tree
  | json
deriving DecidableEq, Repr

namespace LogFormat

def name : LogFormat → String
  | .text => "Text"
  | .tree => "Tree"
  | .json => "Json"

/-- An ASCII capital as a small letter, and every other character as it is. -/
def lower (c : Char) : Char :=
  if 'A' ≤ c ∧ c ≤ 'Z' then Char.ofNat (c.toNat + 32) else c

def ofWord (word : String) : LogFormat :=
  let chosen := String.ofList ((Text.trim word.toList).map lower)
  if chosen = "tree" then .tree else if chosen = "json" then .json else .text

end LogFormat

end SemanticTrees
