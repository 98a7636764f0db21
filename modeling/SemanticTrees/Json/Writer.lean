import SemanticTrees.Json.Value
import SemanticTrees.Decimal.Notation
import SemanticTrees.Text.Quoted

/-!
Writing JSON, without white space or with one item a line. Characters beyond ASCII stand for
themselves; the quotation mark, the backslash and control characters are escaped.
-/

namespace SemanticTrees.Json

open SemanticTrees.Decimal

/-- The numbers of JSON text: a point or a power of ten shows that a number is a double. -/
def numberForm : Notation := ⟨-5, 16, .toEven⟩

def escapedChar (c : Char) : String :=
  if c = '"' then "\\\""
  else if c = '\\' then "\\\\"
  else if c = '\x08' then "\\b"
  else if c = '\x0c' then "\\f"
  else if c = '\n' then "\\n"
  else if c = '\r' then "\\r"
  else if c = '\t' then "\\t"
  else if c.toNat < 0x20 then
    let digits := Text.hexadecimal c.toNat
    "\\u" ++ String.ofList (List.replicate (4 - digits.length) '0' ++ digits)
  else c.toString

def stringText (text : String) : String :=
  text.foldl (fun out c => out ++ escapedChar c) "\"" ++ "\""

/-- A value without parts. Infinities, what is not a number and broken values have no written
form and become null. -/
def scalarText : Value → String
  | .bool true => "true"
  | .bool false => "false"
  | .integer n => toString n
  | .double x => if x.isFinite then String.ofList (numberForm.text x) else "null"
  | .string text => stringText text
  | _ => "null"

def keyText (key : Key) : String := stringText (key.text.getD "")

mutual
def appendCompact (out : String) : Value → String
  | .array items => appendItems (out ++ "[") true items ++ "]"
  | .object members => appendMembers (out ++ "\x7b") true members ++ "\x7d"
  | scalar => out ++ scalarText scalar

/-- Appends the items of an array, with a comma in front of all but the first. -/
def appendItems (out : String) (first : Bool) : List Value → String
  | [] => out
  | item :: rest =>
    appendItems (appendCompact (if first then out else out ++ ",") item) false rest

/-- Appends the members of an object, with a comma in front of all but the first. -/
def appendMembers (out : String) (first : Bool) : List (Key × Value) → String
  | [] => out
  | (key, value) :: rest =>
    let named := (if first then out else out ++ ",") ++ keyText key ++ ":"
    appendMembers (appendCompact named value) false rest
end

def newLine (level : Nat) : String := "\n".pushn ' ' (2 * level)

mutual
/-- Appends a value with every item and member on a line of its own. -/
def appendPretty (level : Nat) (out : String) : Value → String
  | .array [] => out ++ "[]"
  | .array items => appendPrettyItems (level + 1) (out ++ "[") true items ++ newLine level ++ "]"
  | .object [] => out ++ "\x7b\x7d"
  | .object members =>
    appendPrettyMembers (level + 1) (out ++ "\x7b") true members ++ newLine level ++ "\x7d"
  | scalar => out ++ scalarText scalar

/-- Appends the items of an array, each on its line. -/
def appendPrettyItems (level : Nat) (out : String) (first : Bool) : List Value → String
  | [] => out
  | item :: rest =>
    let placed := (if first then out else out ++ ",") ++ newLine level
    appendPrettyItems level (appendPretty level placed item) false rest

/-- Appends the members of an object, each on its line. -/
def appendPrettyMembers (level : Nat) (out : String) (first : Bool) :
    List (Key × Value) → String
  | [] => out
  | (key, value) :: rest =>
    let named := (if first then out else out ++ ",") ++ newLine level ++ keyText key ++ ": "
    appendPrettyMembers level (appendPretty level named value) false rest
end

def Value.compact (value : Value) : String := appendCompact "" value

def Value.pretty (value : Value) : String := appendPretty 0 "" value

end SemanticTrees.Json
