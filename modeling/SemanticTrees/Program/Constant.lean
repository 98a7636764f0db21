import SemanticTrees.Decimal.Notation
import SemanticTrees.Text.Quoted

/-!
Constants of a checked program, with their written form and their equality.
-/

namespace SemanticTrees

open SemanticTrees.Decimal

/-- A value known to the checking phase. -/
inductive Constant
  | null
  | bool (value : Bool)
  /-- A signed integer of sixty-four bits. -/
  | int (value : Int)
  | float (value : Binary64)
  | char (value : Char)
  | string (value : String)
deriving DecidableEq, Repr, Inhabited

namespace Constant

/-- Numbers from one ten-thousandth up to ten to the sixteenth stand around a point. -/
def numberForm : Notation := ⟨-4, 16, .up⟩

def text : Constant → String
  | .null => "null"
  | .bool true => "true"
  | .bool false => "false"
  | .int n => toString n
  | .float x => String.ofList (numberForm.text x)
  | .char c => String.ofList ('\'' :: Text.quotedChar c ++ ['\''])
  | .string s => String.ofList ('"' :: Text.quoted s.toList ++ ['"'])

/-- Equality of values: a number that is none differs from itself, and the two zeros agree. -/
def sameValue : Constant → Constant → Bool
  | .float x, .float y => x.sameNumber y
  | x, y => x == y

end Constant

end SemanticTrees
